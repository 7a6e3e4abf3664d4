import Mathlib
import Rulebook.Proofs.RuleSet.Alone
import Rulebook.Proofs.RuleSet.Compiled

/-!
# Where rules stand in their text

The spans of rules, of statements and of all expressions in them hold the pieces of the text that
they were read from. That of an expression can be read alone.
-/

namespace Rulebook

/-! ## Pieces of a text -/

/-- The span is not empty, holds this piece of the text, and is placed where that begins. -/
structure Span.Holds (s : Span) (text cs : List Char) : Prop where
  nonempty : s.start < s.stop
  slice : Text.slice? text s.start s.stop = some cs
  place : s = { Span.atOffset text s.start with stop := s.stop }

namespace Ink

variable {k : Ink} {rest : List Char}

theorem Stands.text_of_mark {m : Mark} (stands : k.Stands rest) (means : k.Means (some (.mark m))) :
    k.text = [m.char] := by
  have piece : k.piece = .mark m := by
    rcases Token.kindOf?_cases (means {}) with ⟨-, n, -, is⟩ | ⟨-, x, -, -, is⟩ | ⟨-, s, -, is⟩ |
      ⟨-, is⟩ | ⟨o, -, is⟩ | ⟨m', piece, is⟩
    · cases is
    · cases is
    · cases is
    · rcases Token.wordKind_cases (String.ofList k.text) with ⟨v, eq, -⟩ | ⟨w, eq⟩ | eq <;>
        rw [eq] at is <;> cases is
    · cases is
    · cases is
      exact piece
  have form := (stands.form means).1
  rw [piece] at form
  generalize k.text = text at form
  cases form
  rfl

theorem Means.piece_of_keyword {w : Keyword} (means : k.Means (some (.keyword w))) :
    k.piece = .word ∧ Token.wordKind (String.ofList k.text) = .keyword w := by
  rcases Token.kindOf?_cases (means {}) with ⟨-, n, -, is⟩ | ⟨-, x, -, -, is⟩ | ⟨-, s, -, is⟩ |
    ⟨piece, is⟩ | ⟨o, -, is⟩ | ⟨m, -, is⟩
  · cases is
  · cases is
  · cases is
  · exact ⟨piece, is.symm⟩
  · cases is
  · cases is

end Ink

namespace Token

open Grammar (Reaches)

variable {pre cs rest text : List Char} {seg us : List Token} {t u : Token} {s : Span}

theorem Stretch.utf8Len_pos {p : Position} (h : Stretch p cs (t :: seg) rest) :
    0 < String.utf8Len cs := by
  obtain ⟨k, kind, more, rfl, means, stands, -⟩ := h.exists_first
  obtain ⟨c, ds, text, -⟩ := stands.exists_cons means
  have pos := c.utf8Size_pos
  rw [String.utf8Len_append, text, String.utf8Len_cons]
  omega

theorem Stretch.holds (h : Stretch (({} : Position).after pre) cs seg rest)
    (reaches : Reaches s seg) : s.Holds (pre ++ (cs ++ rest)) cs := by
  obtain ⟨t, u, first, last, rfl⟩ := reaches
  have span := h.span first last
  rw [← Position.after_append] at span
  have start := (congrArg Span.start span).trans (Position.offset_after_empty pre)
  have stop := (congrArg Span.stop span).trans (Position.offset_after_empty (pre ++ cs))
  refine ⟨?_, ?_, ?_⟩
  · obtain ⟨seg, rfl⟩ := List.head?_eq_some_iff.mp first
    have pos := h.utf8Len_pos
    rw [start, stop, String.utf8Len_append]
    omega
  · rw [start, stop, Text.slice?_append]
  · rw [start, Span.atOffset_append, span]
    rfl

/-- Neighbouring tokens are a stretch of their text. -/
theorem Laid.exists_stretch (laid : Laid {} text us) (sub : t :: seg <:+: us) :
    ∃ pre cs rest, text = pre ++ (cs ++ rest) ∧
      Stretch (({} : Position).after pre) cs (t :: seg) rest := by
  obtain ⟨before, behind, rfl⟩ := sub
  rw [List.append_assoc] at laid
  obtain ⟨a, b, rfl, more⟩ := laid.drop
  obtain ⟨g, cs, rest, rfl, -, stretch, -⟩ := more.stretch
  rw [← Position.after_append] at stretch
  exact ⟨a ++ g, cs, rest, (List.append_assoc ..).symm, stretch⟩

/-- Between a token and the end of the next there is a gap and the text of that. -/
theorem Laid.slice_between (laid : Laid {} text us) (sub : [t, u] <:+: us) :
    ∃ g, Gap g ∧ Text.slice? text t.span.stop u.span.stop = some (g ++ u.text.toList) := by
  obtain ⟨pre, cs, rest, rfl, stretch⟩ := laid.exists_stretch sub
  cases stretch with
  | @cons _ k kind g _ _ _ _ means stands gap more =>
    cases more with
    | @single _ k' kind' _ means' stands' =>
      rw [← Position.after_append, ← Position.after_append, stop_writtenAt, stop_writtenAt]
      have slice := Text.slice?_append (pre ++ k.text) (g ++ k'.text) rest
      simp only [List.append_assoc] at slice ⊢
      exact ⟨g, gap, slice.trans (congrArg (fun cs => some (g ++ cs)) String.toList_ofList.symm)⟩

theorem Laid.text_of_mark {m : Mark} (laid : Laid {} text us) (mem : t ∈ us)
    (is : t.kind = .mark m) : t.text.toList = [m.char] := by
  obtain ⟨before, behind, rfl⟩ := List.append_of_mem mem
  have sub : [t] <:+: before ++ t :: behind := ⟨before, behind, by simp⟩
  obtain ⟨pre, cs, rest, -, stretch⟩ := laid.exists_stretch sub
  obtain ⟨k, kind, more, -, means, stands, rfl⟩ := stretch.exists_first
  cases is
  exact (String.toList_ofList (l := k.text)).trans (stands.text_of_mark means)

/-- Tokens that begin with a keyword have a text that begins with the word. -/
theorem Stretch.exists_keyword {p : Position} {w : Keyword} (h : Stretch p cs (t :: seg) rest)
    (is : t.kind = .keyword w) : ∃ word more, cs = word ++ more ∧
      wordKind (String.ofList word) = .keyword w ∧ NotFirst Piece.isWordChar more := by
  obtain ⟨k, kind, more, rfl, means, stands, rfl⟩ := h.exists_first
  cases is
  obtain ⟨piece, word⟩ := means.piece_of_keyword
  refine ⟨k.text, more, rfl, word, fun d mem => ?_⟩
  obtain ⟨more, rfl⟩ := List.head?_eq_some_iff.mp mem
  rcases (stands.form means).2 d rfl with ends | ⟨other, -⟩ | ⟨other, -⟩
  · rw [piece] at ends
    simpa [Piece.endsBefore] using ends
  · rw [piece] at other
    cases other
  · rw [piece] at other
    cases other

end Token

/-! ## Rules in a text -/

/-- The expression has its parts in its span, one behind the other, and what the span holds is read
alone as the same expression, within one level more. -/
structure Expr.StandsIn (depth : Nat) (text : List Char) (e : Expr) : Prop where
  nests : e.span.Nests (e.parts.map fun p => p.2.span)
  alone : ∃ cs, e.span.Holds text cs ∧ ∀ source limits, limits.depth = depth + 1 →
    (RuleSet.asCondition cs).utf8ByteSize ≤ limits.bytes →
      ∃ r, RuleSet.parse source limits (RuleSet.asCondition cs) = .ok [r] ∧
        r.condition.bare = e.bare

/-- The statement begins with its first expression, and ends with a semicolon behind the last. -/
structure Statement.StandsIn (text : List Char) (s : Statement) : Prop where
  nests : s.span.Nests (s.exprs.map Expr.span)
  holds : ∃ cs, s.span.Holds text cs
  first : ∃ e ∈ s.exprs.head?, e.span.start = s.span.start
  last : ∃ e ∈ s.exprs.getLast?, ∃ g, Gap g ∧
    Text.slice? text e.span.stop s.span.stop = some (g ++ [';'])

/-- The rule begins with its keyword, and ends with a brace behind the last action. -/
structure Rule.StandsIn (text : List Char) (r : Rule) : Prop where
  nests : r.span.Nests (r.condition.span :: r.actions.map Statement.span)
  first : ∃ word rest, r.span.Holds text (word ++ rest) ∧
    Token.wordKind (String.ofList word) = .keyword .rule ∧ NotFirst Piece.isWordChar rest
  last : ∃ s ∈ r.actions.getLast?, ∃ g, Gap g ∧
    Text.slice? text s.span.stop r.span.stop = some (g ++ ['\x7d'])

namespace RuleSet

open Grammar
open Token (Laid Stretch)

variable {text : List Char} {us seg : List Token} {D : Nat} {s : Span}

theorem exists_stretch_of_reaches (laid : Laid {} text us) (sub : seg <:+: us)
    (reaches : Reaches s seg) :
    ∃ p cs rest, Stretch p cs seg rest ∧ s.Holds text cs := by
  obtain ⟨t, u, first, last, rfl⟩ := reaches
  obtain ⟨seg, rfl⟩ := List.head?_eq_some_iff.mp first
  obtain ⟨pre, cs, rest, rfl, stretch⟩ := laid.exists_stretch sub
  exact ⟨_, cs, rest, stretch, stretch.holds ⟨t, u, first, last, rfl⟩⟩

theorem exists_slice_of_endsIn {m : Mark} {whole : Span} (laid : Laid {} text us)
    (sub : seg <:+: us) (ends : EndsIn (.mark m) s seg) (reaches : Reaches whole seg) :
    ∃ g, Gap g ∧ Text.slice? text s.stop whole.stop = some (g ++ [m.char]) := by
  obtain ⟨pre, t, u, rfl, stop, is⟩ := ends
  obtain ⟨t', u', -, last, rfl⟩ := reaches
  have eq : u = u' := by simpa using last
  subst eq
  obtain ⟨g, gap, slice⟩ := laid.slice_between ((List.suffix_append pre [t, u]).isInfix.trans sub)
  have mem : u ∈ us := sub.subset (by simp)
  rw [laid.text_of_mark mem is, stop] at slice
  exact ⟨g, gap, slice⟩

theorem standsIn_of_at {n : Expr} (laid : Laid {} text us) (ordered : Ordered us)
    (sub : seg <:+: us) (root : At D n seg) (parts : Spread (At D) (n.parts.map Prod.snd) seg) :
    n.StandsIn D text := by
  obtain ⟨p, cs, rest, stretch, holds⟩ := exists_stretch_of_reaches laid sub root.reaches
  refine ⟨?_, cs, holds, fun source limits depth fits => ?_⟩
  · have spans := (parts.map fun _ _ => At.reaches).nests root.reaches (ordered.part sub)
    rwa [List.map_map] at spans
  · exact parse_alone stretch root.derives source depth fits

theorem standsIn_of_statementAt {a : Statement} (laid : Laid {} text us) (ordered : Ordered us)
    (sub : seg <:+: us) (act : StatementAt D a seg) : a.StandsIn text := by
  obtain ⟨p, cs, rest, -, holds⟩ := exists_stretch_of_reaches laid sub act.reaches
  obtain ⟨e, last, ends⟩ := act.last
  refine ⟨?_, ⟨cs, holds⟩, act.first, e, last, exists_slice_of_endsIn laid sub ends act.reaches⟩
  exact (act.exprs.map fun _ _ e => e.root.reaches).nests act.reaches (ordered.part sub)

theorem standsIn_of_ruleAt {r : Rule} (laid : Laid {} text us) (ordered : Ordered us)
    (sub : seg <:+: us) (rule : RuleAt D r seg) : r.StandsIn text := by
  obtain ⟨p, cs, rest, stretch, holds⟩ := exists_stretch_of_reaches laid sub rule.reaches
  obtain ⟨t, first, is⟩ := rule.first
  obtain ⟨a, last, ends⟩ := rule.last
  refine ⟨rule.parts.nests rule.reaches (ordered.part sub), ?_, a, last,
    exists_slice_of_endsIn laid sub ends rule.reaches⟩
  obtain ⟨seg, rfl⟩ := List.head?_eq_some_iff.mp first
  obtain ⟨word, more, rfl, keyword, stop⟩ := stretch.exists_keyword is
  exact ⟨word, more, holds, keyword, stop⟩

theorem ordered_of_laid (laid : Laid {} text us) :
    Ordered (us ++ [.eof (.point (({} : Position).after text))]) := by
  have stands := Laid.standsIn [] laid
  constructor
  · intro t mem
    rcases List.mem_append.mp mem with mem | mem
    · exact (stands t mem).nonempty.le
    · rw [List.mem_singleton.mp mem]
      exact le_rfl
  · refine List.pairwise_append.mpr ⟨laid.ordered.2, List.pairwise_singleton .., ?_⟩
    intro t mem u mem'
    obtain ⟨pre, post, eq, start, stop⟩ := Text.slice?_eq_some_iff.mp (stands t mem).slice
    rw [List.nil_append] at eq
    rw [List.mem_singleton.mp mem']
    refine Nat.le_trans ?_ (Position.offset_after_empty text).ge
    rw [eq, String.utf8Len_append, String.utf8Len_append]
    omega

/-- Each expression of a rule stands in its tokens. -/
theorem exists_faithful {r : Rule} (rule : RuleAt D r seg) {e : Expr}
    (mem : e ∈ r.condition :: r.actions.flatMap Statement.exprs) :
    ∃ s, s <:+: seg ∧ Faithful D e s := by
  rcases List.mem_cons.mp mem with rfl | mem
  · exact rule.condition
  · obtain ⟨a, action, mem⟩ := List.mem_flatMap.mp mem
    obtain ⟨s, sub, act⟩ := rule.actions.exists_of_mem action
    obtain ⟨s', sub', faithful⟩ := act.exprs.exists_of_mem mem
    exact ⟨s', sub'.trans sub, faithful⟩

/-- Each rule of a text has tokens of its own. -/
theorem exists_ruleAt {source text : String} {limits : Limits} {rules : List Rule}
    (parsed : parse source limits text = .ok rules) {r : Rule} (mem : r ∈ rules) :
    ∃ us seg, Laid {} text.toList us ∧ Ordered us ∧ seg <:+: us ∧ RuleAt limits.depth r seg := by
  obtain ⟨ts, scanned, read⟩ := rules_of_parse parsed
  obtain ⟨last, ends, derived⟩ := (rules_eq_ok_iff (.of_scan scanned)).mp read
  obtain ⟨us, laid, rfl⟩ := Token.scan_eq_ok_iff_laid.mp scanned
  have ordered := ordered_of_laid laid
  obtain ⟨used, eq, spread, -⟩ := derived.spread ordered fun rule ordered => rule.traced ordered
  obtain ⟨rfl, -⟩ := List.append_inj' eq rfl
  obtain ⟨seg, sub, rule⟩ := spread.exists_of_mem mem
  exact ⟨us, seg, laid, ordered.left, sub, rule⟩

theorem Compiled.exists_parse {set : RuleSet} (h : set.Compiled) :
    ∃ limits text, parse set.source limits text = .ok set.rules := by
  obtain ⟨limits, bytes, h⟩ := h
  obtain ⟨-, -, -, parsed, -⟩ := steps_of_compile h
  exact ⟨limits, set.text, parsed⟩

/-- The spans of a rule, its statements and all expressions in them hold what these were read
from. -/
theorem parse_spans {source text : String} {limits : Limits} {rules : List Rule}
    (parsed : parse source limits text = .ok rules) :
    ∀ r ∈ rules, r.StandsIn text.toList ∧ (∀ a ∈ r.actions, a.StandsIn text.toList) ∧
      ∀ e ∈ r.condition :: r.actions.flatMap Statement.exprs, ∀ n ∈ e.nodes,
        n.StandsIn limits.depth text.toList := by
  intro r mem
  obtain ⟨us, seg, laid, ordered, sub, rule⟩ := exists_ruleAt parsed mem
  refine ⟨standsIn_of_ruleAt laid ordered sub rule, fun a action => ?_, fun e part n node => ?_⟩
  · obtain ⟨s, sub', act⟩ := rule.actions.exists_of_mem action
    exact standsIn_of_statementAt laid ordered (sub'.trans sub) act
  · obtain ⟨s, sub', faithful⟩ := exists_faithful rule part
    obtain ⟨s', sub'', root, parts⟩ := faithful.nodes n node
    exact standsIn_of_at laid ordered (sub''.trans (sub'.trans sub)) root parts

/-- Two rules with parentheses, signs, keys and arguments, some of them between comments. -/
def nested : String :=
  "RULE A\x7bwhen (-( 1 )/D.n[\"é\"])>=2.5&&!D.f(D.b,3)/*;*/then D.x = (D.y+1) ;F();\x7d\n" ++
    "// rule\nrule B \x7b when D.then then G(-D.x) /* \x7d */ ; \x7d"

theorem parse_spans_nested : ∃ rules, parse "nested" {} nested = .ok rules ∧
    rules.map Rule.span = [⟨0, 78, 1, 1⟩, ⟨87, 132, 3, 1⟩] ∧
    ∀ r ∈ rules, r.StandsIn nested.toList ∧ (∀ a ∈ r.actions, a.StandsIn nested.toList) ∧
      ∀ e ∈ r.condition :: r.actions.flatMap Statement.exprs, ∀ n ∈ e.nodes,
        n.StandsIn 100 nested.toList := by
  have spans : (parse "nested" {} nested).toOption.map (List.map Rule.span) =
      some [⟨0, 78, 1, 1⟩, ⟨87, 132, 3, 1⟩] := by decide +kernel
  obtain ⟨rules, read, is⟩ := Option.map_eq_some_iff.mp spans
  have parsed := ok_iff_toOption.mpr read
  exact ⟨rules, parsed, is, parse_spans parsed⟩

end RuleSet

end Rulebook
