import Mathlib
import Rulebook.Proofs.Engine.Checked

/-!
# The bound on cycles

A run with a lower bound is the beginning of the run with a higher one: either it is over before the
bound matters, and then both are the same, or it stops after exactly as many firings as it may have.
-/

namespace Rulebook.Engine

variable {φ ω : Type} [FactOps φ] {set : RuleSet}

/-- A run that does not stop at its bound is one under any bound that has room for its firings. -/
theorem Forward.rebound {n m count : Nat} {last : String} {s : Session φ ω} {e : Ending φ ω}
    (run : Forward set n count last s e) (ends : ∀ k name, e.outcome ≠ .error (.cycleLimit k name))
    (room : count + e.firings.length ≤ m) : Forward set m count last s e := by
  induction run with
  | quiescent none => exact .quiescent none
  | limit => exact absurd rfl (ends _ _)
  | completed before valid _ ok calls => exact .completed before valid room ok calls
  | next before valid _ ok silent _ ih =>
    rw [List.length_cons] at room
    exact .next before valid (by omega) ok silent (ih ends (by dsimp only; omega))
  | conditionFails fails => exact .conditionFails fails
  | actionFails before valid _ fails => exact .actionFails before valid room fails

/-- An evaluation cannot exceed the bound. -/
theorem not_accounted_cycleLimit (k : Nat) (name : String) :
    ¬ Accounted set (.cycleLimit k name) := by
  rintro ⟨_, _, _, _, ⟨⟩, _⟩

/-- A run stops at its bound after as many firings, with the name of the last one, and none of them
has called `Complete()`. -/
theorem Forward.stopped (h : set.Compiled) {n count k : Nat} {last name : String}
    {s : Session φ ω} {e : Ending φ ω} (run : Forward set n count last s e)
    (ends : e.outcome = .error (.cycleLimit k name)) :
    k = n ∧ count + e.firings.length = n ∧ name = (e.firings.map Firing.name).getLastD last ∧
      ∀ f ∈ e.firings, f.result = .ok () ∧ ¬ f.CallsComplete set := by
  induction run with
  | quiescent | completed => cases ends
  | limit _ _ full =>
    cases ends
    exact ⟨rfl, full, rfl, by simp⟩
  | next _ _ _ ok silent _ ih =>
    obtain ⟨bound, length, named, all⟩ := ih ends
    refine ⟨bound, ?_, ?_, by simpa using ⟨⟨ok, silent⟩, all⟩⟩
    · rw [List.length_cons]
      dsimp only at length
      omega
    · rw [named, List.map_cons, List.getLastD_cons]
  | conditionFails fails =>
    cases ends
    exact absurd (accounted_of_matches h fails) (not_accounted_cycleLimit k name)
  | actionFails _ valid _ fails =>
    cases ends
    exact absurd (valid.accounted h fails) (not_accounted_cycleLimit k name)

/-- As long as no rule fails or completes, a run under a higher bound fires the same rules. -/
theorem Forward.firings_prefix {n m count : Nat} {last : String} {s : Session φ ω}
    {low high : Ending φ ω} (le : n ≤ m) (run : Forward set n count last s low)
    (goes : ∀ f ∈ low.firings, f.result = .ok () ∧ ¬ f.CallsComplete set)
    (run' : Forward set m count last s high) : low.firings <+: high.firings := by
  induction run generalizing high with
  | quiescent | limit | conditionFails => exact List.nil_prefix
  | @completed _ _ _ f _ _ _ _ calls => exact absurd calls (goes f (.head _)).2
  | @actionFails _ _ _ f _ _ _ _ fails =>
    have ok := (goes f (.head _)).1
    rw [fails] at ok
    cases ok
  | next before valid room ok silent _ ih =>
    have room' := Nat.lt_of_lt_of_le room le
    obtain ⟨_, _, _, rfl, more⟩ := run'.of_next before valid room' ok silent
    exact (List.prefix_cons_inj _).mpr (ih (fun g mem => goes g (.tail _ mem)) more)

/-- A run is over with the first rule that calls `Complete()`. -/
theorem Forward.outcome_of_completes {n count : Nat} {last : String} {s : Session φ ω}
    {e : Ending φ ω} (run : Forward set n count last s e) {f : Firing φ ω} (mem : f ∈ e.firings)
    (calls : f.CallsComplete set) : e.outcome = f.result.map fun _ => .completed := by
  induction run with
  | quiescent | limit | conditionFails => cases mem
  | completed _ _ _ ok =>
    obtain rfl := List.mem_singleton.mp mem
    rw [ok]
    rfl
  | next _ _ _ _ silent _ ih =>
    rcases List.mem_cons.mp mem with rfl | mem
    · exact absurd calls silent
    · exact ih mem
  | actionFails _ _ _ fails =>
    obtain rfl := List.mem_singleton.mp mem
    rw [fails]
    rfl

/-! ## Two bounds -/

/-- The run that ends in `low` under the bound `n` is the beginning of one that ends in `high`. -/
structure Truncates (set : RuleSet) (n : Nat) (low high : Ending φ ω) : Prop where
  settled : (∀ k name, low.outcome ≠ .error (.cycleLimit k name)) → low = high
  stopped : ∀ k name, low.outcome = .error (.cycleLimit k name) → k = n ∧ low.firings.length = n ∧
    (∀ f ∈ low.firings, f.result = .ok () ∧ ¬ f.CallsComplete set) ∧
      low.firings = high.firings.take n ∧
        name = ((high.firings.map Firing.name).take n).getLastD ""
  completes : ∀ f ∈ high.firings.take n, f.CallsComplete set →
    low.outcome = f.result.map fun _ => .completed

theorem Forward.truncates (h : set.Compiled) {n m : Nat} (le : n ≤ m) {s : Session φ ω}
    {low high : Ending φ ω} (run : Forward set n 0 "" s low) (run' : Forward set m 0 "" s high) :
    Truncates set n low high := by
  have settled : (∀ k name, low.outcome ≠ .error (.cycleLimit k name)) → low = high := by
    intro ends
    have within := run.firings_length_le (Nat.zero_le n)
    exact (run.rebound ends (Nat.le_trans within le)).unique run'
  have stopped : ∀ k name, low.outcome = .error (.cycleLimit k name) → k = n ∧
      low.firings.length = n ∧ (∀ f ∈ low.firings, f.result = .ok () ∧ ¬ f.CallsComplete set) ∧
        low.firings = high.firings.take n ∧
          name = ((high.firings.map Firing.name).take n).getLastD "" := by
    intro k name ends
    obtain ⟨bound, length, named, goes⟩ := run.stopped h ends
    rw [Nat.zero_add] at length
    have first := List.prefix_iff_eq_take.mp (run.firings_prefix le goes run')
    rw [length] at first
    exact ⟨bound, length, goes, first, by rw [named, first, List.map_take]⟩
  refine ⟨settled, stopped, fun f mem calls => ?_⟩
  by_cases ends : ∀ k name, low.outcome ≠ .error (.cycleLimit k name)
  · rw [settled ends]
    exact run'.outcome_of_completes (List.mem_of_mem_take mem) calls
  · push Not at ends
    obtain ⟨k, name, ends⟩ := ends
    obtain ⟨-, -, goes, first, -⟩ := stopped k name ends
    rw [← first] at mem
    exact absurd calls (goes f mem).2

/-- Under a lower bound the engine does what it does under a higher one, up to as many firings. -/
theorem execute_truncates {kb : KnowledgeBase} (h : kb.ruleSet.Compiled) {n m : Nat} (le : n ≤ m)
    (c : Context φ ω) :
    ((∀ k name, (execute n c kb).result ≠ .error (.cycleLimit k name)) →
        execute m c kb = execute n c kb) ∧
      ∃ low high, Forward kb.ruleSet n 0 "" (start kb.ruleSet c) low ∧
        Forward kb.ruleSet m 0 "" (start kb.ruleSet c) high ∧
        execute n c kb = ⟨low.outcome.map (low.report kb.ruleSet), low.final⟩ ∧
        execute m c kb = ⟨high.outcome.map (high.report kb.ruleSet), high.final⟩ ∧
        Truncates kb.ruleSet n low high := by
  obtain ⟨low, run, executed⟩ := execute_eq h n c
  obtain ⟨high, run', executed'⟩ := execute_eq h m c
  have truncates := run.truncates h le run'
  refine ⟨fun ends => ?_, low, high, run, run', executed, executed', truncates⟩
  have same : low = high := by
    refine truncates.settled fun k name stopped => ends k name ?_
    rw [executed, stopped]
    rfl
  rw [executed, executed', same]

/-- The second rule that fires completes the run. -/
def finishing : KnowledgeBase :=
  .ofRuleSet ((RuleSet.compile {} "finish" "1"
    ("rule A salience 1 \x7b when true then Retract(\"A\"); \x7d "
      ++ "rule B \x7b when true then Complete(); Log(1); \x7d").toUTF8).toOption.getD
        ⟨"", "", "", []⟩)

theorem finishing_compiled : finishing.ruleSet.Compiled :=
  RuleSet.compiled_of_isSome (by decide +kernel)

theorem execute_truncates_finishing :
    ((∀ k name, (execute 1 { world := () } finishing : Run Fact Unit Report).result ≠
          .error (.cycleLimit k name)) →
        execute 2 { world := () } finishing =
          (execute 1 { world := () } finishing : Run Fact Unit _)) ∧
      ∃ low high, Forward finishing.ruleSet 1 0 ""
          (start finishing.ruleSet ({ world := () } : Context Fact Unit)) low ∧
        Forward finishing.ruleSet 2 0 "" (start finishing.ruleSet { world := () }) high ∧
        execute 1 { world := () } finishing =
          ⟨low.outcome.map (low.report finishing.ruleSet), low.final⟩ ∧
        execute 2 { world := () } finishing =
          ⟨high.outcome.map (high.report finishing.ruleSet), high.final⟩ ∧
        Truncates finishing.ruleSet 1 low high :=
  execute_truncates finishing_compiled (by decide) { world := () }

end Rulebook.Engine
