import Mathlib
import Rulebook.Proofs.Grammar.Exact
import Rulebook.Proofs.Grammar.Respan
import Rulebook.Proofs.RuleSet.Compiled

/-!
# Rule texts that are joined by a newline

A text that was read leaves no comment open, since no operand begins with a star. Its rules end with
it, so those of a text behind it are read as they would be alone, only further down.
-/

namespace Rulebook

/-! ## Slashes and stars -/

namespace Token.NoOpening

variable {t : Token} {ts : List Token}

theorem cons {kind : Kind} (is : t.kind = kind) (ne : kind ≠ .operator .slash)
    (h : NoOpening ts) : NoOpening (t :: ts) := by
  unfold NoOpening
  rw [List.isChain_cons]
  exact ⟨fun _ _ both => ne (is.symm.trans both.1), h⟩

/-- Whatever stands in front of something other than a star. -/
theorem cons_of_first (ne : (Grammar.Parser.first ts).kind ≠ .operator .star) (h : NoOpening ts) :
    NoOpening (t :: ts) := by
  unfold NoOpening
  rw [List.isChain_cons]
  refine ⟨fun u mem both => ne ?_, h⟩
  cases ts with
  | nil => cases mem
  | cons t' ts =>
    cases mem
    exact both.2

end Token.NoOpening

namespace Grammar

open Rulebook.Grammar.Parser
open Token (NoOpening)

variable {room : Nat} {l : Level} {ts rest : List Token} {e : Expr}

theorem kind_ne_of_name? {t : Token} {name : String} (h : t.name? = some name) (o : Operator) :
    t.kind ≠ .operator o := by
  intro is
  simp [Token.name?, is] at h

theorem Derives.first_ne_star (h : Derives l ts e rest) (proper : l.Proper) :
    (first ts).kind ≠ .operator .star := by
  intro star
  obtain ⟨_, op⟩ | ⟨_, is⟩ | is | is := h.first_of_proper proper
  · simp [unaryOp?, star] at op
  all_goals
    rw [star] at is
    cases is

theorem Derives.noOpening (h : Derives l ts e rest) (behind : NoOpening rest) : NoOpening ts := by
  induction h with
  | binary _ _ ih ih' => exact ih (ih' behind)
  | done | stop => exact behind
  | @further b _ _ _ _ _ _ _ _ _ right _ ih ih' =>
    exact .cons_of_first (right.first_ne_star b.operand_proper) (ih (ih' behind))
  | single _ ih | plain _ ih | name _ ih => exact ih behind
  | compared _ _ right ih ih' =>
    exact ih (.cons_of_first (right.first_ne_star trivial) (ih' behind))
  | sign _ operand ih => exact .cons_of_first (operand.first_ne_star trivial) (ih behind)
  | literal is => exact .cons is (by simp) behind
  | paren opens _ closes ih => exact .cons opens (by simp) (ih (.cons closes (by simp) behind))
  | ident is _ ih => exact .cons is (by simp) (ih behind)
  | call is _ _ ih ih' => exact .cons is (by simp) (ih (ih' behind))
  | member is named _ ih =>
    exact .cons is (by simp) (.cons rfl (kind_ne_of_name? named _) (ih behind))
  | method is named _ _ ih ih' =>
    exact .cons is (by simp) (.cons rfl (kind_ne_of_name? named _) (ih (ih' behind)))
  | index opens _ closes _ ih ih' =>
    exact .cons opens (by simp) (ih (.cons closes (by simp) (ih' behind)))
  | noArguments opens closes =>
    exact .cons opens (by simp) (.cons closes (by simp) behind)
  | someArguments opens _ ih => exact .cons opens (by simp) (ih behind)
  | lastItem _ closes ih => exact ih (.cons closes (by simp) behind)
  | nextItem _ is _ ih ih' => exact ih (.cons is (by simp) (ih' behind))

theorem DerivesStatement.noOpening {s : Statement} (h : DerivesStatement ts s rest)
    (behind : NoOpening rest) : NoOpening ts := by
  cases h with
  | assign target _ assigns value ends =>
    have value := value.noOpening (.cons ends (by simp) behind)
    exact target.noOpening (.cons assigns (by simp) value)
  | call e _ ends => exact e.noOpening (.cons ends (by simp) behind)

theorem Many.noOpening {α : Type} {R : List Token → α → List Token → Prop} {as : List α}
    (h : Many R ts as rest) (one : ∀ {ts a rest}, R ts a rest → NoOpening rest → NoOpening ts)
    (behind : NoOpening rest) : NoOpening ts := by
  induction h with
  | nil => exact behind
  | cons first _ ih => exact one first (ih behind)

theorem DerivesDescription.noOpening {d : Option String} (h : DerivesDescription ts d rest)
    (behind : NoOpening rest) : NoOpening ts := by
  cases h with
  | none => exact behind
  | some is => exact .cons is (by simp) behind

theorem DerivesSalience.noOpening {n : Int64} (h : DerivesSalience ts n rest)
    (behind : NoOpening rest) : NoOpening ts := by
  cases h with
  | none => exact behind
  | plain is int => exact .cons is (by simp) (.cons int (by simp) behind)
  | negative is sign int =>
    exact .cons is (by simp) (.cons sign (by simp) (.cons int (by simp) behind))

theorem DerivesRule.noOpening {r : Rule} (h : DerivesRule ts r rest) (behind : NoOpening rest) :
    NoOpening ts := by
  cases h with
  | mk starts named described ranked opens introduces condition separates actions _ closes =>
    have actions := actions.noOpening DerivesStatement.noOpening (.cons closes (by simp) behind)
    have condition := condition.noOpening (.cons separates (by simp) actions)
    have body := NoOpening.cons opens (by simp) (.cons introduces (by simp) condition)
    have header := described.noOpening (ranked.noOpening body)
    exact .cons starts (by simp) (.cons named (by simp) header)

/-! ## Rules behind rules -/

theorem Many.append {α : Type} {R : List Token → α → List Token → Prop} {us : List Token}
    {as bs : List α} (h : Many R ts as us) (k : Many R us bs rest) : Many R ts (as ++ bs) rest := by
  induction h with
  | nil => exact k
  | cons first _ ih => exact .cons first (ih k)

/-- Other tokens may stand in the place of the end. -/
theorem Many.behind {us ts' : List Token} {last end_ : Token} {rs : List Rule}
    (h : Many (DerivesRuleIn room) (us ++ [last]) rs [end_]) :
    Many (DerivesRuleIn room) (us ++ ts') rs ts' := by
  obtain ⟨used, eq, all⟩ := h.respan covers_id
  obtain ⟨rfl, -⟩ := List.append_inj' eq rfl
  have tokens : Token.respan id = id := rfl
  have rules : Rule.respan id = id := funext Rule.respan_id
  have derived := all ts'
  simp only [tokens, rules, List.map_id] at derived
  exact derived

/-- The rules of two token lists, one behind the other. -/
theorem rules_join {us ts : List Token} {last : Token} {rs rs' : List Rule} {f : Span → Span}
    (covers : Covers f) (ended : Ended (us ++ [last])) (ended' : Ended ts)
    (first : rules room (us ++ [last]) = .ok rs) (second : rules room ts = .ok rs') :
    rules room (us ++ ts.map (Token.respan f)) = .ok (rs ++ rs'.map (Rule.respan f)) := by
  obtain ⟨end_, -, derived⟩ := (rules_eq_ok_iff ended).mp first
  obtain ⟨end', ends, derived'⟩ := (rules_eq_ok_iff ended').mp second
  obtain ⟨used, rfl, all⟩ := derived'.respan covers
  exact rules_of_derivesIn (derived.behind.append (all [end'])) (Token.kind_respan f ends)

theorem noOpening_of_rules {us : List Token} {last : Token} {rs : List Rule}
    (ended : Ended (us ++ [last])) (h : rules room (us ++ [last]) = .ok rs) : NoOpening us := by
  have ⟨end_, _, derived⟩ := (rules_eq_ok_iff ended).mp h
  have all : NoOpening (us ++ [last]) :=
    derived.noOpening (fun rule => rule.derives.noOpening) (List.isChain_singleton _)
  exact all.left_of_append

end Grammar

/-! ## Texts -/

namespace RuleSet

variable {limits : Limits}

theorem toList_join (s t : String) : (s ++ "\n" ++ t).toList = s.toList ++ '\n' :: t.toList := by
  simp

theorem utf8Len_toList (s : String) : String.utf8Len s.toList = s.utf8ByteSize := by
  rw [← String.utf8ByteSize_ofList, String.ofList_toList]

section

variable {source source' : String} {s t : String} {rules rules' : List Rule}

/-- The tokens of both texts are the rules of both. -/
theorem read_join (first : parse source limits s = .ok rules)
    (second : parse source' limits t = .ok rules') :
    ∃ ts, Token.scan (s ++ "\n" ++ t).toList = .ok ts ∧ Grammar.rules limits.depth ts =
      .ok (rules ++ rules'.map
        (Rule.respan (Span.shift (s.utf8ByteSize + 1) (s.toList.count '\n' + 1)))) := by
  obtain ⟨all, scanned, read⟩ := rules_of_parse first
  obtain ⟨ts, scanned', read'⟩ := rules_of_parse second
  have ended := Grammar.Ended.of_scan scanned
  have ended' := Grammar.Ended.of_scan scanned'
  obtain ⟨us, last, rfl, -⟩ := Token.scan_eq_ok scanned
  have joined := Token.scan_join scanned scanned' (Grammar.noOpening_of_rules ended read)
  rw [utf8Len_toList, ← toList_join] at joined
  exact ⟨_, joined, Grammar.rules_join (Span.cover_shift _ _) ended ended' read read'⟩

/-- Two texts that are read within the same limits are read as one, with a newline between them. The
rules of the second stand as much further down as the first and the newline take. -/
theorem parse_join (first : parse source limits s = .ok rules)
    (second : parse source' limits t = .ok rules')
    (fits : (s ++ "\n" ++ t).utf8ByteSize ≤ limits.bytes) (source'' : String) :
    parse source'' limits (s ++ "\n" ++ t) = .ok (rules ++ rules'.map
      (Rule.respan (Span.shift (s.utf8ByteSize + 1) (s.toList.count '\n' + 1)))) := by
  obtain ⟨ts, scanned, read⟩ := read_join first second
  exact (parse_eq_ok_iff scanned fits).mpr read

/-- It ends in a comment and has the beginning of one in a string. -/
def commented : String := "rule A \x7b when D.n * 2 / 8 == 1 then Log(\"/*\");\n\x7d // the first"

def indented : String := " /* the second */\n  rule B \x7b when true then Log(\"*/\"); \x7d"

theorem parse_join_commented : ∃ rules rules' : List Rule,
    parse "joined" {} (commented ++ "\n" ++ indented) = .ok (rules ++ rules'.map
      (Rule.respan (Span.shift (commented.utf8ByteSize + 1) (commented.toList.count '\n' + 1)))) ∧
    rules.map Rule.span = [⟨0, 48, 1, 1⟩] ∧ rules'.map Rule.span = [⟨20, 56, 2, 3⟩] := by
  have spans : (parse "first" {} commented).toOption.map (·.map Rule.span) =
      some [⟨0, 48, 1, 1⟩] := by decide +kernel
  have spans' : (parse "second" {} indented).toOption.map (·.map Rule.span) =
      some [⟨20, 56, 2, 3⟩] := by decide +kernel
  obtain ⟨rules, first, is⟩ := Option.map_eq_some_iff.mp spans
  obtain ⟨rules', second, is'⟩ := Option.map_eq_some_iff.mp spans'
  exact ⟨rules, rules', parse_join (ok_iff_toOption.mpr first) (ok_iff_toOption.mpr second)
    (by decide +kernel) _, is, is'⟩

/-! ## Either order -/

theorem decode_toUTF8 (source text : String) : decode source text.toUTF8 = .ok text := by
  have valid : String.fromUTF8? text.toUTF8 = some text := by
    simp only [String.fromUTF8?, String.fromUTF8, Option.dite_none_right_eq_some]
    exact ⟨text.isValidUTF8, rfl⟩
  unfold decode
  rw [valid]

theorem rules_of_compile {name version text : String} {set : RuleSet}
    (h : compile limits name version text.toUTF8 = .ok set) :
    parse (sourceName name version) limits text = .ok set.rules := by
  obtain ⟨-, -, decoded, read, -⟩ := steps_of_compile h
  rw [decode_toUTF8] at decoded
  rwa [← Except.ok.inj decoded] at read

/-- Compiled in either order, the two texts give the same rules. -/
theorem compile_swap {name version name' version' : String} {set set' : RuleSet}
    (first : parse source limits s = .ok rules) (second : parse source' limits t = .ok rules')
    (h : compile limits name version (s ++ "\n" ++ t).toUTF8 = .ok set)
    (h' : compile limits name' version' (t ++ "\n" ++ s).toUTF8 = .ok set') :
    (set.rules.map Rule.bare).Perm (set'.rules.map Rule.bare) := by
  have bare (f : Span → Span) (rs : List Rule) :
      (rs.map (Rule.respan f)).map Rule.bare = rs.map Rule.bare := by
    rw [List.map_map]
    exact List.map_congr_left fun r _ => Rule.bare_respan f r
  obtain ⟨ts, scanned, read⟩ := read_join first second
  obtain ⟨ts', scanned', read'⟩ := read_join second first
  obtain ⟨us, rescanned, reread⟩ := rules_of_parse (rules_of_compile h)
  obtain ⟨us', rescanned', reread'⟩ := rules_of_parse (rules_of_compile h')
  cases scanned.symm.trans rescanned
  cases scanned'.symm.trans rescanned'
  rw [Except.ok.inj (reread.symm.trans read), Except.ok.inj (reread'.symm.trans read'),
    List.map_append, List.map_append, bare, bare]
  exact List.perm_append_comm

end

end RuleSet

end Rulebook
