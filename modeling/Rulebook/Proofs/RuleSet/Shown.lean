import Mathlib
import Rulebook.Proofs.Grammar.Parse
import Rulebook.Proofs.Rule.Reading

/-!
# Displayed rules are rule texts

A rule that was read from a text is displayed as a text that is read as this rule again, unless one
of its strings is displayed with an escape that rule texts do not know.
-/

namespace Rulebook

open Ink

/-! ## Strings of a rule -/

theorem Ink.mem_listed {all : List (List Ink)} {ks : List Ink} {k : Ink} (mem : ks ∈ all)
    (inside : k ∈ ks) : k ∈ listed all := by
  fun_induction listed all with
  | case1 => cases mem
  | case2 ls =>
    rw [List.mem_singleton.mp mem] at inside
    exact inside
  | case3 ls ms more ih =>
    rcases List.mem_cons.mp mem with rfl | mem
    · exact List.mem_append_left _ inside
    · exact List.mem_append_right _ (List.mem_cons_of_mem _ (List.mem_cons_of_mem _ (ih mem)))

theorem Ink.mem_applied {args : List Expr} {a : Expr} {k : Ink} (mem : a ∈ args)
    (inside : k ∈ a.inks) : k ∈ applied (Expr.inksOfAll args) := by
  refine List.mem_cons_of_mem _ (List.mem_append_left _ (mem_listed ?_ inside))
  rw [Expr.inksOfAll_eq]
  exact List.mem_map_of_mem mem

theorem Expr.WellFormed.quoted_mem {e : Expr} (h : e.WellFormed) {s : String}
    (mem : .text s ∈ e.literals) : quoted s ∈ e.inks := by
  induction h with
  | literal =>
    rw [← List.mem_singleton.mp mem]
    exact List.mem_singleton_self _
  | ident => cases mem
  | unary _ _ ih => exact List.mem_cons_of_mem _ (ih mem)
  | arith _ _ ih ih' | compare _ _ ih ih' | logic _ _ ih ih' =>
    rcases List.mem_append.mp (by simpa using mem) with mem | mem
    · simp [inks, parenthesized, ih mem]
    · simp [inks, parenthesized, ih' mem]
  | member _ _ _ ih => exact List.mem_append_left _ (ih mem)
  | index _ _ _ ih ih' =>
    rcases List.mem_append.mp (by simpa using mem) with mem | mem
    · simp [inks, ih mem]
    · simp [inks, ih' mem]
  | call _ _ ih =>
    rw [literals_call] at mem
    obtain ⟨a, arg, mem⟩ := List.mem_flatMap.mp mem
    exact List.mem_cons_of_mem _ (mem_applied arg (ih a arg mem))
  | method _ _ _ _ ih ih' =>
    rw [literals_method] at mem
    rcases List.mem_append.mp mem with mem | mem
    · exact List.mem_append_left _ (ih mem)
    · obtain ⟨a, arg, mem⟩ := List.mem_flatMap.mp mem
      refine List.mem_append_right _ (List.mem_cons_of_mem _ (List.mem_cons_of_mem _ ?_))
      exact mem_applied arg (ih' a arg mem)

theorem Statement.WellFormed.quoted_mem {a : Statement} (h : a.WellFormed) {s : String}
    (mem : .text s ∈ a.literals) : quoted s ∈ a.inks := by
  cases a with
  | assign target value =>
    simp only [literals, exprs, List.flatMap_cons, List.flatMap_nil, List.append_nil,
      List.mem_append] at mem
    rcases mem with mem | mem
    · simp [inks, h.1.quoted_mem mem]
    · simp [inks, h.2.2.quoted_mem mem]
  | call e =>
    simp only [literals, exprs, List.flatMap_cons, List.flatMap_nil, List.append_nil] at mem
    exact List.mem_append_left _ (h.1.quoted_mem mem)

namespace Rule

variable {r : Rule} {s : String}

theorem WellFormed.quoted_mem (h : r.WellFormed) (mem : s ∈ r.texts) : quoted s ∈ r.inks := by
  rcases mem_texts.mp mem with eq | mem
  · simp [inks, eq, descriptionInks]
  · rcases List.mem_append.mp mem with mem | mem
    · simp [inks, bodyInks, h.condition.quoted_mem mem]
    · obtain ⟨a, action, mem⟩ := List.mem_flatMap.mp mem
      have mem := List.mem_cons_of_mem (line 2) ((h.actions a action).quoted_mem mem)
      have inside : quoted s ∈ Statement.inksOfAll r.actions :=
        List.mem_flatMap.mpr ⟨a, action, mem⟩
      simp [inks, bodyInks, inside]

/-! ## Tokens of a displayed rule -/

theorem WellFormed.scan_shown (h : r.WellFormed) (plain : r.Plain)
    (floats : ∀ x ∈ r.floats, Number.readFloat? (Number.floatLiteral x) = some x) :
    ∃ ts r', Token.scan r.shown.toList = .ok ts ∧ ts.length ≤ r.shown.length + 1 ∧
      Grammar.DerivesRules ts [r'] ∧ r'.bare = r.bare := by
  have back : ∀ v ∈ r.literals, v.ReadsBack := by
    intro v mem
    cases v with
    | float x => exact floats x (mem_floats.mpr mem)
    | text s => exact plain s (mem_texts.mpr (.inr mem))
    | _ => exact trivial
  have spells := h.spells (fun s eq => plain s (mem_texts.mpr (.inl eq))) back
  obtain ⟨ts, last, scanned, ends, reads⟩ := scan_texts h.stand spells.means
  obtain ⟨r', same, derived⟩ := spells.derives reads [last]
  have le := reads.length_le.trans h.stand.length_le
  rw [h.texts_inks] at scanned le
  refine ⟨ts ++ [last], r', scanned, ?_, ⟨last, ends, .cons derived .nil⟩, same⟩
  rw [List.length_append, List.length_singleton]
  exact Nat.succ_le_succ le

theorem WellFormed.scan_shown_error (h : r.WellFormed) (some : ¬ r.Plain) :
    ∃ fault, Token.scan r.shown.toList = .error fault := by
  unfold Plain at some
  push Not at some
  obtain ⟨s, mem, bad⟩ := some
  rw [← h.texts_inks]
  exact scan_texts_error h.stand (h.quoted_mem mem) (kindOf?_quoted_error bad)

end Rule

/-! ## Rules of a displayed rule -/

namespace RuleSet

variable {source text : String} {limits : Limits} {rules : List Rule} {r : Rule}

theorem wellFormed_of_parse (h : parse source limits text = .ok rules) :
    ∀ r ∈ rules, r.WellFormed := by
  obtain ⟨ts, scanned, read⟩ := rules_of_parse h
  have derived := Grammar.derivesRules_of_rules (.of_scan scanned) read
  exact derived.wellFormed (Token.wellFormed_of_scan scanned)

/-- A rule of any text is displayed as a text of one rule that differs in its spans only, if every
double in it reads back from its digits and its strings are plain; else the text has no tokens. -/
theorem parse_shown {source' : String} {limits' : Limits}
    (parsed : parse source limits text = .ok rules) (mem : r ∈ rules)
    (fits : r.shown.utf8ByteSize ≤ limits'.bytes)
    (shallow : limits'.depth ≤ r.shown.length + 1 →
      parse source' limits' r.shown ≠ .error (.tooDeep limits'.depth))
    (floats : ∀ x ∈ r.floats, Number.readFloat? (Number.floatLiteral x) = some x) :
    (r.Plain → ∃ r', parse source' limits' r.shown = .ok [r'] ∧ r'.bare = r.bare) ∧
      (¬ r.Plain → ∃ fault,
        parse source' limits' r.shown = .error (.problem (scanProblem source' fault))) := by
  have wellFormed := wellFormed_of_parse parsed r mem
  constructor
  · intro plain
    obtain ⟨ts, r', scanned, le, derived, same⟩ := wellFormed.scan_shown plain floats
    refine ⟨r', ?_, same⟩
    rcases Grammar.rules_of_derivesRules derived limits'.depth with ok | ⟨deep, stop⟩
    · exact (parse_eq_ok_iff scanned fits).mpr ok
    · refine absurd ?_ (shallow (deep.trans le))
      rw [parse_of_scan scanned fits, stop]
  · intro other
    obtain ⟨fault, scanned⟩ := wellFormed.scan_shown_error other
    exact ⟨fault, parse_of_scan_error scanned fits⟩

/-- Signs, a double, a keyword behind a dot and quotes in a text; then a text with a zero. -/
def odd : String :=
  "rule A \"say \\\"x\\\"\" salience -5 \x7b when -2.5 < F.rule[-x] then F.y = -(3) * 2.0; \x7d"
    ++ " rule B \x7b when true then Log(\"\x00\"); \x7d"

theorem parse_shown_odd :
    ∃ a b a' fault, parse "odd" {} odd = .ok [a, b] ∧
      parse "shown" { depth := 1000 } a.shown = .ok [a'] ∧ a'.bare = a.bare ∧
      parse "shown" { depth := 1000 } b.shown =
        .error (.problem (scanProblem "shown" fault)) := by
  have read : (parse "odd" {} odd).toOption.map (·.map fun r =>
      (decide (r.shown.utf8ByteSize ≤ ({} : Limits).bytes ∧ r.shown.length < 999 ∧
        ∀ x ∈ r.floats, Number.readFloat? (Number.floatLiteral x) = some x), decide r.Plain)) =
      some [(true, true), (true, false)] := by
    decide +kernel
  rcases parsed : parse "odd" {} odd with e | rules
  · rw [parsed] at read
    cases read
  rw [parsed] at read
  rcases rules with _ | ⟨a, _ | ⟨b, _ | ⟨_, _⟩⟩⟩
  · cases read
  · simp [Except.toOption] at read
  · simp only [Except.toOption, Option.map_some, List.map_cons, List.map_nil, Option.some.injEq,
      List.cons.injEq, Prod.mk.injEq, decide_eq_true_eq, decide_eq_false_iff_not, and_true] at read
    obtain ⟨⟨⟨fits, short, floats⟩, plain⟩, ⟨fits', short', floats'⟩, other⟩ := read
    have deep {r : Rule} (short : r.shown.length < 999)
        (le : ({ depth := 1000 } : Limits).depth ≤ r.shown.length + 1) :
        parse "shown" { depth := 1000 } r.shown ≠ .error (.tooDeep 1000) :=
      absurd (show 1000 ≤ r.shown.length + 1 from le) (by omega)
    obtain ⟨a', parsed', same⟩ := (parse_shown parsed List.mem_cons_self fits (deep short) floats).1
      plain
    obtain ⟨fault, refused⟩ := (parse_shown parsed (List.mem_cons_of_mem _ List.mem_cons_self) fits'
      (deep short') floats').2 other
    exact ⟨a, b, a', fault, rfl, parsed', same, refused⟩
  · simp [Except.toOption] at read

end RuleSet

end Rulebook
