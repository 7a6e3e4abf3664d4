import Mathlib
import Rulebook.Proofs.Grammar.Rules
import Rulebook.Proofs.Result
import Rulebook.Proofs.Token.Scanned
import Rulebook.RuleSet

/-!
# Rule sets are what the grammar says

Read within its limits, a text gives exactly the rules that its tokens derive.
-/

namespace Rulebook.Grammar

open Rulebook.Grammar.Parser

variable {ts rest : List Token}

/-! ## Lists with one end -/

/-- There is an end, and nothing but an end is behind no other token. -/
def Ended (ts : List Token) : Prop := ∃ last : Token, last.kind = .eof ∧ Takes ts [last]

theorem Ended.of_scan {text : List Char} (h : Token.scan text = .ok ts) : Ended ts := by
  obtain ⟨before, last, rfl, reads, ends⟩ := Token.scan_eq_ok h
  exact ⟨last, ends, before, rfl, fun t mem => (reads t mem).ne_eof⟩

theorem Ended.eq_singleton (h : Ended ts) (takes : Takes ts rest)
    (stop : (first rest).kind = .eof) : ∃ last : Token, last.kind = .eof ∧ rest = [last] := by
  obtain ⟨last, ends, used, rfl, all⟩ := h
  obtain ⟨used', eq, all'⟩ := takes
  refine ⟨last, ends, ?_⟩
  rcases List.append_eq_append_iff.mp eq with ⟨more, rfl, split⟩ | ⟨more, rfl, split⟩
  · cases more with
    | nil => exact split.symm
    | cons t more =>
      rw [List.cons_append] at split
      obtain ⟨rfl, -⟩ := List.cons.inj split
      exact absurd ends (all' last (List.mem_append_right _ List.mem_cons_self))
  · cases more with
    | nil => exact split
    | cons t more =>
      rw [split] at stop
      exact absurd stop (all t (List.mem_append_right _ List.mem_cons_self))

/-! ## Rules of a token list -/

theorem rulesFrom_broken {room : Nat} (bound : List Token) {found : List Rule}
    {faults faults' : List (Fault × Span × Option String)}
    (h : rulesFrom room found faults ts bound = .error (.broken faults')) : faults' ≠ [] := by
  have finish {rs : List Rule} {faults : List (Fault × Span × Option String)}
      (h : rulesFrom.finish rs faults = .error (.broken faults')) : faults' ≠ [] := by
    unfold rulesFrom.finish at h
    split at h
    · cases h
    · next some =>
      cases h
      simpa using some
  induction bound generalizing ts found faults with
  | nil => exact finish h
  | cons x bound ih =>
    unfold rulesFrom at h
    split at h
    · exact finish h
    · split at h
      · exact ih h
      · cases h
      · exact ih h

theorem rules_broken {room : Nat} {faults : List (Fault × Span × Option String)}
    (h : rules room ts = .error (.broken faults)) : faults ≠ [] :=
  rulesFrom_broken ts h

theorem derivesRules_of_rules {room : Nat} (ended : Ended ts) {rs : List Rule}
    (h : rules room ts = .ok rs) : DerivesRules ts rs := by
  obtain ⟨more, rest, rfl, within, stop⟩ := rulesFrom_sound ts le_rfl h
  have derived := within.mono DerivesRuleIn.derives
  obtain ⟨last, ends, rfl⟩ := ended.eq_singleton (derived.takes DerivesRule.takesSome) stop
  exact ⟨last, ends, derived⟩

theorem rules_of_derivesRules {rs : List Rule} (h : DerivesRules ts rs) (room : Nat) :
    rules room ts = .ok rs ∨ room ≤ ts.length ∧ rules room ts = .error .tooDeep := by
  obtain ⟨last, ends, derived⟩ := h
  exact rulesFrom_complete derived (fun rule => ⟨rule.takesSome, rule.yields room⟩)
    (deepens_length room) ends ts le_rfl []

theorem DerivesRules.unique {rs rs' : List Rule} (h : DerivesRules ts rs)
    (h' : DerivesRules ts rs') : rs = rs' := by
  have read {rs : List Rule} (h : DerivesRules ts rs) : rules (ts.length + 1) ts = .ok rs := by
    rcases rules_of_derivesRules h (ts.length + 1) with ok | ⟨deep, -⟩
    · exact ok
    · omega
  exact Except.ok.inj ((read h).symm.trans (read h'))

end Rulebook.Grammar

/-! ## Rules of a text -/

namespace Rulebook.RuleSet

variable {source text : String} {limits : Limits} {ts : List Token} {rules : List Rule}

theorem tokens_of_scan (scanned : Token.scan text.toList = .ok ts) : tokens source text = .ok ts := by
  unfold tokens
  rw [scanned]

theorem parse_of_scan (scanned : Token.scan text.toList = .ok ts)
    (fits : text.utf8ByteSize ≤ limits.bytes) :
    parse source limits text =
      match Grammar.rules limits.depth ts with
      | .ok rules => .ok rules
      | .error .tooDeep => .error (.tooDeep limits.depth)
      | .error (.broken faults) =>
        match Error.ofProblems (faults.map (grammarProblem source)) with
        | some e => .error e
        | none => .ok [] := by
  unfold parse
  rw [if_neg (Nat.not_lt.mpr fits), tokens_of_scan scanned]
  rfl

theorem parse_eq_ok_iff (scanned : Token.scan text.toList = .ok ts)
    (fits : text.utf8ByteSize ≤ limits.bytes) :
    parse source limits text = .ok rules ↔ Grammar.rules limits.depth ts = .ok rules := by
  rw [parse_of_scan scanned fits]
  rcases read : Grammar.rules limits.depth ts with (_ | faults) | rs
  · simp
  · have some := Grammar.rules_broken read
    cases problems : Error.ofProblems (faults.map (grammarProblem source)) with
    | none =>
      rw [Error.ofProblems_eq_none_iff, List.map_eq_nil_iff] at problems
      exact absurd problems some
    | some e => simp [problems]
  · simp

theorem parse_of_scan_error {fault : Token.Fault × Span}
    (scanned : Token.scan text.toList = .error fault) (fits : text.utf8ByteSize ≤ limits.bytes) :
    parse source limits text = .error (.problem (scanProblem source fault)) := by
  unfold parse tokens
  rw [if_neg (Nat.not_lt.mpr fits), scanned]
  rfl

theorem rules_of_parse (h : parse source limits text = .ok rules) :
    ∃ ts, Token.scan text.toList = .ok ts ∧ Grammar.rules limits.depth ts = .ok rules := by
  have fits : text.utf8ByteSize ≤ limits.bytes := by
    by_contra large
    unfold parse at h
    rw [if_pos (Nat.lt_of_not_le large)] at h
    cases h
  rcases scanned : Token.scan text.toList with fault | ts
  · rw [parse_of_scan_error scanned fits] at h
    cases h
  · exact ⟨ts, rfl, (parse_eq_ok_iff scanned fits).mp h⟩

/-- A text that has tokens is read as the rules that they derive, of which there are none others,
and it is refused if they derive none. -/
theorem parse_iff_derivesRules (scanned : Token.scan text.toList = .ok ts)
    (fits : text.utf8ByteSize ≤ limits.bytes)
    (shallow : limits.depth ≤ ts.length →
      parse source limits text ≠ .error (.tooDeep limits.depth)) :
    (∀ rules, parse source limits text = .ok rules ↔ Grammar.DerivesRules ts rules) ∧
      ∀ rules rules', Grammar.DerivesRules ts rules → Grammar.DerivesRules ts rules' →
        rules = rules' := by
  refine ⟨fun rules => ?_, fun _ _ => Grammar.DerivesRules.unique⟩
  rw [parse_eq_ok_iff scanned fits]
  constructor
  · exact Grammar.derivesRules_of_rules (.of_scan scanned)
  · intro derived
    rcases Grammar.rules_of_derivesRules derived limits.depth with ok | ⟨deep, stop⟩
    · exact ok
    · refine absurd ?_ (shallow deep)
      rw [parse_of_scan scanned fits, stop]

/-- Three operands of a level, and a sign before parentheses. -/
def leftward : String := "rule A \x7b when 1 - 2 - x < -(3) then Log(y[0].rule); \x7d"

theorem parse_iff_derivesRules_leftward :
    ∃ ts r, Token.scan leftward.toList = .ok ts ∧ Grammar.DerivesRules ts [r] ∧
      r.condition.shown = "(((1 - 2) - x) < -3)" := by
  have tokens : (Token.scan leftward.toList).toOption.isSome = true := by decide +kernel
  have read : (parse "leftward" {} leftward).toOption.map (·.map (·.condition.shown)) =
      some ["(((1 - 2) - x) < -3)"] := by
    decide +kernel
  rcases scanned : Token.scan leftward.toList with e | ts
  · rw [scanned] at tokens
    cases tokens
  rcases parsed : parse "leftward" {} leftward with e | rules
  · rw [parsed] at read
    cases read
  have shallow : ({} : Limits).depth ≤ ts.length → parse "leftward" {} leftward ≠
      .error (.tooDeep ({} : Limits).depth) := by
    rw [parsed]
    intro _ eq
    cases eq
  have derived := ((parse_iff_derivesRules scanned (by decide +kernel) shallow).1 rules).mp parsed
  rw [parsed] at read
  rcases rules with _ | ⟨r, _ | ⟨_, _⟩⟩
  · cases read
  · exact ⟨ts, r, rfl, derived, by simpa [Except.toOption] using read⟩
  · simp [Except.toOption] at read

end Rulebook.RuleSet
