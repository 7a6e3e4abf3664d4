import Mathlib
import Rulebook.Proofs.Engine.History

/-!
# Retracted rules

At every point of a run the names that were retracted are those of the rules that are off, and a
rule that is off stays off.
-/

namespace Rulebook.Engine

variable {φ ω : Type} {set : RuleSet} {s t u : Session φ ω}

/-! ## Flags and names -/

/-- The session has one flag for each rule, and has listed the rules that are off once each. -/
structure Tracks (set : RuleSet) (s : Session φ ω) : Prop where
  size_eq : s.active.size = set.rules.length
  nodup : s.retracted.Nodup
  mem_iff : ∀ name, name ∈ s.retracted ↔
    ∃ n ∈ numbered set, n.2.name = name ∧ s.active.getD n.1 false = false

/-- What is off in `s` is off in `t`, and what was retracted since is listed behind. -/
def Later (s t : Session φ ω) : Prop :=
  (∀ i, s.active.getD i false = false → t.active.getD i false = false) ∧
    s.retracted <+: t.retracted

theorem Later.refl (s : Session φ ω) : Later s s := ⟨fun _ off => off, List.prefix_rfl⟩

theorem Later.trans (h : Later s t) (k : Later t u) : Later s u :=
  ⟨fun i off => k.1 i (h.1 i off), h.2.trans k.2⟩

theorem getD_replicate {n i : Nat} (h : i < n) : (Array.replicate n true).getD i false = true := by
  simp [Array.getD, h]

theorem tracks_start (set : RuleSet) (c : Context φ ω) : Tracks set (start set c) where
  size_eq := Array.size_replicate
  nodup := List.nodup_nil
  mem_iff name := by
    constructor
    · intro mem; cases mem
    · rintro ⟨n, mem, -, off⟩
      obtain ⟨lt, -⟩ := List.getElem?_eq_some_iff.mp (mem_numbered.mp mem)
      change (Array.replicate set.rules.length true).getD n.1 false = false at off
      rw [getD_replicate lt] at off
      cases off

theorem Tracks.of_eq (h : Tracks set s) (active : t.active = s.active)
    (retracted : t.retracted = s.retracted) : Tracks set t := by
  refine ⟨?_, ?_, ?_⟩
  · rw [active]; exact h.size_eq
  · rw [retracted]; exact h.nodup
  · rw [active, retracted]; exact h.mem_iff

theorem Later.of_eq (active : t.active = s.active) (retracted : t.retracted = s.retracted) :
    Later s t := by
  unfold Later
  rw [active, retracted]
  exact ⟨fun _ off => off, List.prefix_rfl⟩

/-! ## One call of `Retract` -/

theorem getD_setIfInBounds (a : Array Bool) (i j : Nat) :
    (a.setIfInBounds i false).getD j false = if i = j then false else a.getD j false := by
  simp only [Array.getD_eq_getD_getElem?, Array.getElem?_setIfInBounds]
  split
  · split <;> rfl
  · rfl

theorem later_retract (s : Session φ ω) (i : Nat) (name : String) : Later s (s.retract i name) := by
  unfold Session.retract
  split
  · refine ⟨fun j off => ?_, List.prefix_append _ _⟩
    dsimp only
    rw [getD_setIfInBounds]
    split
    · rfl
    · exact off
  · exact .refl s

theorem Tracks.retract (h : set.Compiled) (hs : Tracks set s) {i : Nat} {name : String}
    (pos : set.position? name = some i) : Tracks set (s.retract i name) := by
  unfold Session.retract
  obtain ⟨r, at_i, named⟩ := (RuleSet.position?_eq_some_iff h name i).mp pos
  -- The name stands for this rule alone.
  have only : ∀ n ∈ numbered set, n.2.name = name → n.1 = i := by
    intro n mem eq
    have other := (RuleSet.position?_eq_some_iff h name n.1).mpr ⟨n.2, mem_numbered.mp mem, eq⟩
    rw [pos] at other
    exact (Option.some.inj other).symm
  split
  · next on =>
    have new : name ∉ s.retracted := by
      intro mem
      obtain ⟨n, mem, eq, off⟩ := (hs.mem_iff name).mp mem
      rw [only n mem eq, on] at off
      cases off
    refine ⟨?_, ?_, fun other => ?_⟩
    · rw [Array.size_setIfInBounds]
      exact hs.size_eq
    · rw [List.nodup_append]
      refine ⟨hs.nodup, List.nodup_singleton name, ?_⟩
      rintro a mem b mem' rfl
      rw [List.mem_singleton.mp mem'] at mem
      exact new mem
    · rw [List.mem_append, List.mem_singleton, hs.mem_iff]
      simp only [getD_setIfInBounds]
      constructor
      · rintro (⟨n, mem, eq, off⟩ | rfl)
        · refine ⟨n, mem, eq, ?_⟩
          rw [off, ite_self]
        · exact ⟨(i, r), mem_numbered.mpr at_i, named, if_pos rfl⟩
      · rintro ⟨n, mem, eq, off⟩
        split at off
        · next same =>
          have rule := mem_numbered.mp mem
          rw [← same, at_i] at rule
          rw [← Option.some.inj rule, named] at eq
          exact .inr eq.symm
        · exact .inl ⟨n, mem, eq, off⟩
  · exact hs

/-! ## Runs -/

theorem Progress.later {call : Option (String × List Value)} (h : Progress set s call t) :
    Later s t := by
  cases h with
  | counted => exact .of_eq rfl rfl
  | change change =>
    cases change with
    | around around => exact .of_eq around.active_eq around.retracted_eq
    | retract pos => exact later_retract s _ _
    | complete => exact .of_eq rfl rfl

theorem Progress.tracks (h : set.Compiled) {call : Option (String × List Value)}
    (step : Progress set s call t) (hs : Tracks set s) : Tracks set t := by
  cases step with
  | counted => exact hs.of_eq rfl rfl
  | change change =>
    cases change with
    | around around => exact hs.of_eq around.active_eq around.retracted_eq
    | retract pos => exact hs.retract h pos
    | complete => exact hs.of_eq rfl rfl

/-- Nothing has been retracted only as long as every rule is active. -/
theorem Tracks.active_eq (hs : Tracks set s) (none : s.retracted = []) :
    s.active = Array.replicate set.rules.length true := by
  refine Array.ext (by rw [hs.size_eq, Array.size_replicate]) fun i lt lt' => ?_
  rw [Array.getElem_replicate]
  by_contra off
  have inside : i < set.rules.length := hs.size_eq ▸ lt
  have listed : (i, set.rules[i]) ∈ numbered set :=
    mem_numbered.mpr (List.getElem?_eq_getElem inside)
  have flag : s.active.getD i false = false := by simpa [Array.getD, lt] using off
  have retracted := (hs.mem_iff _).mpr ⟨_, listed, rfl, flag⟩
  rw [none] at retracted
  cases retracted

theorem Trace.later {ms : List (Moment φ ω)} (h : Trace (Progress set) s ms t) : Later s t := by
  have order := h.pairwise (Q := Later) (fun a b => a.trans b) Progress.later
  rcases List.mem_cons.mp h.end_mem with rfl | mem
  · exact .refl t
  · exact (List.pairwise_cons.mp order).1 t mem

variable [FactOps φ]

theorem Firing.Valid.later (h : set.Compiled) {f : Firing φ ω} (hf : f.Valid set) :
    Later f.before f.after := by
  have begun := hf.around h
  have acts : Later f.begun f.finish := Trace.later (hf.trace.mono .change)
  exact (Later.of_eq begun.active_eq begun.retracted_eq).trans (acts.trans (.of_eq rfl rfl))

theorem Firing.Valid.tracks (h : set.Compiled) {f : Firing φ ω} (hf : f.Valid set)
    (hs : Tracks set f.before) : Tracks set f.after := by
  have begun := hf.around h
  have all := hf.trace.forall_mem (hs.of_eq begun.active_eq begun.retracted_eq)
    fun change => (Progress.change change).tracks h
  exact (all f.finish hf.trace.end_mem).of_eq rfl rfl

/-- The rule that fires has not been retracted. -/
theorem Firing.Valid.not_retracted (h : set.Compiled) {f : Firing φ ω} (hf : f.Valid set)
    (hs : Tracks set f.before) : f.name ∉ f.before.retracted := by
  intro mem
  have on := hf.found.sublist.2 _ hf.chosen.1
  obtain ⟨n, listed, named, off⟩ := (hs.mem_iff f.name).mp mem
  have first := (RuleSet.position?_eq_some_iff h f.name n.1).mpr ⟨_, mem_numbered.mp listed, named⟩
  have second := (RuleSet.position?_eq_some_iff h f.name f.chosen.1).mpr
    ⟨_, mem_numbered.mp hf.mem, rfl⟩
  rw [first] at second
  rw [Option.some.inj second, on] at off
  cases off

/-- What is retracted up to the end of one firing does not fire later. -/
theorem Forward.fired_pairwise (h : set.Compiled) {maxCycles count : Nat} {last : String}
    {e : Ending φ ω} (run : Forward set maxCycles count last s e) (hs : Tracks set s) :
    (∀ g ∈ e.firings, Later s g.before ∧ g.name ∉ g.before.retracted) ∧
      e.firings.Pairwise fun f g => g.name ∉ f.after.retracted := by
  induction run with
  | quiescent | limit | conditionFails => simp
  | completed before valid | actionFails before valid =>
    subst before
    simpa using ⟨.refl _, valid.not_retracted h hs⟩
  | next before valid _ _ _ _ ih =>
    subst before
    obtain ⟨rest, order⟩ := ih (valid.tracks h hs)
    refine ⟨?_, List.pairwise_cons.mpr ⟨fun g mem retracted => ?_, order⟩⟩
    · intro g mem
      rcases List.mem_cons.mp mem with rfl | mem
      · exact ⟨.refl _, valid.not_retracted h hs⟩
      · exact ⟨(valid.later h).trans (rest g mem).1, (rest g mem).2⟩
    · obtain ⟨later, silent⟩ := rest g mem
      exact silent (later.2.subset retracted)

theorem tracks_execute {kb : KnowledgeBase} (h : kb.ruleSet.Compiled) (maxCycles : Nat)
    (c : Context φ ω) : Tracks kb.ruleSet (execute maxCycles c kb).session := by
  have trace := history_trace kb maxCycles c
  exact trace.forall_mem (tracks_start kb.ruleSet c) (fun step => step.tracks h) _ trace.end_mem

/-- At every point of a run flags and names agree, what is off stays off, no rule fires after it was
retracted, and the flags that the knowledge base carried make no difference. -/
theorem execute_retracted {kb : KnowledgeBase} (h : kb.ruleSet.Compiled) (maxCycles : Nat)
    (c : Context φ ω) :
    (∀ s ∈ history kb.ruleSet maxCycles c, Tracks kb.ruleSet s) ∧
      (history kb.ruleSet maxCycles c).Pairwise Later ∧
      (execute maxCycles c kb).session ∈ history kb.ruleSet maxCycles c ∧
      (∃ e, Forward kb.ruleSet maxCycles 0 "" (start kb.ruleSet c) e ∧
        execute maxCycles c kb = ⟨e.outcome.map (e.report kb.ruleSet), e.final⟩ ∧
        e.firings.Pairwise fun f g => g.name ∉ f.after.retracted) ∧
      ∀ active, execute maxCycles c { kb with active } = execute maxCycles c kb := by
  have trace := history_trace kb maxCycles c
  refine ⟨?_, ?_, trace.end_mem, ?_, fun active => rfl⟩
  · exact trace.forall_mem (tracks_start kb.ruleSet c) fun step => step.tracks h
  · exact trace.pairwise (fun a b => a.trans b) Progress.later
  · obtain ⟨e, run, executed⟩ := execute_eq h maxCycles c
    exact ⟨e, run, executed, (run.fired_pairwise h (tracks_start kb.ruleSet c)).2⟩

/-- Two rules, of which the first retracts the second and then itself. -/
def retiring : KnowledgeBase :=
  .ofRuleSet ((RuleSet.compile {} "retire" "1"
    ("rule A \x7b when true then Retract(\"B\"); Retract(\"A\"); \x7d "
      ++ "rule B \x7b when true then Log(1); \x7d").toUTF8).toOption.getD ⟨"", "", "", []⟩)

/-- No facts and no functions. -/
def nothing : Context Fact Unit := { world := () }

theorem retiring_compiled : retiring.ruleSet.Compiled :=
  RuleSet.compiled_of_isSome (by decide +kernel)

theorem execute_retracted_retiring :
    (∀ s ∈ history retiring.ruleSet 5 nothing, Tracks retiring.ruleSet s) ∧
      (history retiring.ruleSet 5 nothing).Pairwise Later ∧
      (execute 5 nothing retiring).session ∈ history retiring.ruleSet 5 nothing ∧
      (∃ e, Forward retiring.ruleSet 5 0 "" (start retiring.ruleSet nothing) e ∧
        execute 5 nothing retiring = ⟨e.outcome.map (e.report retiring.ruleSet), e.final⟩ ∧
        e.firings.Pairwise fun f g => g.name ∉ f.after.retracted) ∧
      ∀ active, execute 5 nothing { retiring with active } = execute 5 nothing retiring :=
  execute_retracted retiring_compiled 5 nothing

end Rulebook.Engine
