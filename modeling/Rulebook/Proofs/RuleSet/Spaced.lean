import Mathlib
import Rulebook.Proofs.Grammar.Blind
import Rulebook.Proofs.RuleSet.Joined
import Rulebook.Proofs.Token.Spaced

/-!
# Rule texts with other gaps

How a rule text is laid out makes no difference to what it says, nor to what is wrong with it: only
the places are others.
-/

namespace Rulebook

open Token (Spacing written)

/-! ## The same elsewhere -/

/-- The same problem at some other place. -/
structure Problem.Alike (p q : Problem) : Prop where
  stage : p.cause.stage = q.cause.stage
  message : p.cause.message = q.cause.message
  suggestion : p.cause.suggestion? = q.cause.suggestion?
  rule : p.rule = q.rule
  source : p.source = q.source

/-- The same error but for the places of its problems. -/
inductive Error.Alike : Error → Error → Prop
  | problem {p q} : p.Alike q → Alike (.problem p) (.problem q)
  | problems {ps qs} : List.Forall₂ Problem.Alike ps qs → Alike (.problems ps) (.problems qs)
  | tooDeep (limit) : Alike (.tooDeep limit) (.tooDeep limit)

/-- The same rules but for their spans, or the same error but for places. -/
inductive RuleSet.Alike : Except Error (List Rule) → Except Error (List Rule) → Prop
  | ok {rules rules'} : rules.map Rule.bare = rules'.map Rule.bare → Alike (.ok rules) (.ok rules')
  | error {e e'} : e.Alike e' → Alike (.error e) (.error e')

theorem Cause.stage_bare (fault : Grammar.Fault) :
    (grammar fault.bare).stage = (grammar fault).stage := by
  cases fault <;> rfl

namespace RuleSet

variable {source text : String} {limits : Limits} {ts : List Token}
  {faults faults' : List (Grammar.Fault × Span × Option String)}

theorem alike_grammarProblem {f f' : Grammar.Fault × Span × Option String}
    (same : Grammar.bareFault f = Grammar.bareFault f') :
    (grammarProblem source f).Alike (grammarProblem source f') := by
  obtain ⟨fault, name⟩ := Prod.mk.inj same
  refine ⟨?_, ?_, rfl, name, rfl⟩
  · exact (Cause.stage_bare f.1).symm.trans (fault ▸ Cause.stage_bare f'.1)
  · exact f.1.message_bare.symm.trans (fault ▸ f'.1.message_bare)

theorem alike_grammarProblems (source : String)
    (same : faults.map Grammar.bareFault = faults'.map Grammar.bareFault) :
    List.Forall₂ Problem.Alike (faults.map (grammarProblem source))
      (faults'.map (grammarProblem source)) := by
  rw [← List.forall₂_eq_eq_eq, List.forall₂_map_left_iff, List.forall₂_map_right_iff] at same
  rw [List.forall₂_map_left_iff, List.forall₂_map_right_iff]
  exact same.imp fun _ _ => alike_grammarProblem

theorem alike_ofProblems {ps qs : List Problem} (alike : List.Forall₂ Problem.Alike ps qs) :
    (Error.ofProblems ps = none ∧ Error.ofProblems qs = none) ∨
      ∃ e e', Error.ofProblems ps = some e ∧ Error.ofProblems qs = some e' ∧ e.Alike e' := by
  cases alike with
  | nil => exact .inl ⟨rfl, rfl⟩
  | cons first others =>
    cases others with
    | nil => exact .inr ⟨_, _, rfl, rfl, .problem first⟩
    | cons second others =>
      exact .inr ⟨_, _, rfl, rfl, .problems (.cons first (.cons second others))⟩

/-- What is made of tokens depends on their spans in nothing but its own. -/
theorem parse_bare {text' : String} {ts' : List Token} (scanned : Token.scan text.toList = .ok ts)
    (scanned' : Token.scan text'.toList = .ok ts') (same : ts.map Token.bare = ts'.map Token.bare)
    (fits : text.utf8ByteSize ≤ limits.bytes) (fits' : text'.utf8ByteSize ≤ limits.bytes) :
    Alike (parse source limits text) (parse source limits text') := by
  rw [parse_of_scan scanned fits, parse_of_scan scanned' fits']
  have read := Grammar.rules_blind limits.depth same
  generalize Grammar.rules limits.depth ts = r, Grammar.rules limits.depth ts' = r' at read
  cases read with
  | ok rules => exact .ok rules
  | tooDeep => exact .error (.tooDeep _)
  | broken faults =>
    rcases alike_ofProblems (alike_grammarProblems source faults) with
      ⟨none, none'⟩ | ⟨e, e', some, some', alike⟩
    · simp only [none, none']
      exact .ok rfl
    · simp only [some, some']
      exact .error alike

/-- The texts of tokens with other gaps between them, each of which begins with a blank: the same
tokens are read, and so the same rules within the same limits, or the same is wrong. -/
theorem parse_spaced {gaps : List (List Char)} {last : List Char}
    (scanned : Token.scan text.toList = .ok ts) (spacing : Spacing gaps ts.dropLast last) :
    (∃ ts', Token.scan (written gaps ts.dropLast last) = .ok ts' ∧
      ts'.map Token.bare = ts.map Token.bare) ∧
    ∀ (source : String) (limits : Limits), text.utf8ByteSize ≤ limits.bytes →
      String.utf8Len (written gaps ts.dropLast last) ≤ limits.bytes →
        Alike (parse source limits text)
          (parse source limits (String.ofList (written gaps ts.dropLast last))) := by
  obtain ⟨ts', scanned', same⟩ := Token.scan_spaced scanned spacing
  refine ⟨⟨ts', scanned', same⟩, fun source limits fits fits' => ?_⟩
  refine parse_bare scanned ?_ same.symm fits ?_
  · rw [String.toList_ofList]
    exact scanned'
  · rw [String.utf8ByteSize_ofList]
    exact fits'

/-- Tokens that touch, where a blank less or a character more would make others of them. -/
def tight : String := "rule A\x7bwhen 7/D.n!=-2&&!D.b then F(\"/*\");\x7d"

/-- A block comment with stars around it, and a line comment. -/
def comments : List Char := [' ', '/', '*', '*', '*', '/', '/', '/', '*', '\r']

theorem gap_comments : Gap comments := by
  have line : Gap ('/' :: '/' :: ['*'] ++ '\r' :: []) := .line (by simp [Piece.isNewline]) rfl .nil
  have block : Gap ('/' :: '*' :: ['*'] ++ ['*', '/'] ++ _) := .block (by decide) line
  exact .blank rfl block

theorem parse_spaced_tight : ∃ ts rules rules', Token.scan tight.toList = .ok ts ∧
    ts.length = 25 ∧ parse "tight" {} tight = .ok rules ∧
    parse "tight" {}
        (String.ofList (written ([] :: List.replicate 23 comments) ts.dropLast comments)) =
      .ok rules' ∧ rules.map Rule.bare = rules'.map Rule.bare := by
  have length : (Token.scan tight.toList).toOption.map List.length = some 25 := by decide +kernel
  have short : (Token.scan tight.toList).toOption.map
      (fun ts => decide (String.utf8Len (written ([] :: List.replicate 23 comments) ts.dropLast
        comments) ≤ ({} : Limits).bytes)) = some true := by decide +kernel
  have read : (parse "tight" {} tight).toOption.isSome = true := by decide +kernel
  obtain ⟨ts, scanned, length⟩ := Option.map_eq_some_iff.mp length
  obtain ⟨rules, read⟩ := Option.isSome_iff_exists.mp read
  rw [scanned, Option.map_some, Option.some_inj, decide_eq_true_eq] at short
  have gaps : ∀ g ∈ List.replicate 23 comments, g = comments := fun _ => List.eq_of_mem_replicate
  have spacing : Spacing ([] :: List.replicate 23 comments) ts.dropLast comments := by
    refine ⟨?_, ?_, fun g mem => ?_, .gap gap_comments, fun c mem => ?_⟩
    · rw [List.length_dropLast, length]
      rfl
    · exact List.forall_mem_cons.mpr ⟨.nil, fun g mem => gaps g mem ▸ gap_comments⟩
    · rw [gaps g mem]
      exact ⟨' ', rfl, rfl⟩
    · cases mem
      rfl
  have scanned := ok_iff_toOption.mpr scanned
  have alike := (parse_spaced scanned spacing).2 "tight" {} (by decide +kernel) short
  have parsed := ok_iff_toOption.mpr read
  rw [parsed] at alike
  generalize again : parse "tight" {} (String.ofList _) = r at alike
  cases alike with
  | @ok _ rules' same =>
    exact ⟨ts, rules, rules', scanned, length, parsed, again, same⟩

end RuleSet

end Rulebook
