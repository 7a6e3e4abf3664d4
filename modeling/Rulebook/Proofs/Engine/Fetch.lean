import Mathlib
import Rulebook.Proofs.Engine.Activation
import Rulebook.Proofs.Engine.Bound
import Rulebook.Proofs.Eval.Tidy

/-!
# Finding rules and running them

Over facts that conditions cannot change, finding the rules that match tells how a run begins, and a
run that ends by itself leaves nothing to be found.
-/

namespace Rulebook.Engine

/-! ## Tidy facts along a run -/

section Tidy

variable {ω : Type} {set : RuleSet} {s : Session Fact ω}

theorem harmless_of_tidy (tidy : s.context.Tidy) (active : Array Bool) (rules : List Numbered) :
    Harmless set active rules s :=
  fun n _ _ => (Eval.within_condition tidy n.2 ⟨set, some n.2.name⟩ s rfl).1

theorem Firing.Valid.tidy {f : Firing Fact ω} (hf : f.Valid set) (tidy : f.before.context.Tidy) :
    f.after.context.Tidy := by
  have matched : f.matched.context = f.before.context :=
    hf.found.context_eq (harmless_of_tidy tidy _ _)
  have begun : f.begun.context.Tidy := by
    change f.matched.context.Tidy
    rwa [matched]
  have acted := (Eval.ensures_executeAll f.chosen.2.actions ⟨set, some f.name⟩ f.begun begun).1
  rw [hf.executed] at acted
  exact acted

theorem Forward.tidy {maxCycles count : Nat} {last : String} {e : Ending Fact ω}
    (run : Forward set maxCycles count last s e) (tidy : s.context.Tidy) :
    ∀ t ∈ s :: e.firings.map Firing.after, t.context.Tidy := by
  induction run with
  | quiescent | limit | conditionFails => simpa using tidy
  | completed before valid | actionFails before valid =>
    subst before
    simpa using ⟨tidy, valid.tidy tidy⟩
  | next before valid _ _ _ _ ih =>
    subst before
    exact List.forall_mem_cons.mpr ⟨tidy, ih (valid.tidy tidy)⟩

/-- A run that ends by itself leaves tidy facts and nothing that matches. -/
theorem Forward.leaves_nothing (h : set.Compiled) {maxCycles count : Nat} {last : String}
    {e : Ending Fact ω} (run : Forward set maxCycles count last s e) (tidy : s.context.Tidy)
    (ends : e.outcome = .ok .quiescent) : e.session.context.Tidy ∧
      ∃ t, Matches set e.session.active (numbered set)
        (.start e.session.context e.session.active) (.ok []) t := by
  obtain ⟨-, t, is, none⟩ := run.quiet ends
  have tidy : t.context.Tidy := run.tidy tidy t (is ▸ List.getLastD_mem_cons)
  have context := none.context_eq (harmless_of_tidy tidy _ _)
  have active := (none.around h fun _ mem => rule_mem_of_numbered mem).active_eq
  rw [← active] at none
  exact ⟨context ▸ tidy, none.congr context.symm⟩

end Tidy

/-! ## The first step -/

variable {φ ω : Type} [FactOps φ] {kb : KnowledgeBase} {maxCycles : Nat} {c : Context φ ω}
  {e : Ending φ ω}

/-- Where every rule is active, a run begins with the step that finds the rules. -/
theorem finds_iff_first (all : kb.active = Array.replicate kb.ruleSet.rules.length true)
    {result : Except Error (List Numbered)} {t : Session φ ω} :
    Finds kb c result t ↔ Matches kb.ruleSet (start kb.ruleSet c).active (numbered kb.ruleSet)
      (start kb.ruleSet c) result t := by
  unfold Finds
  rw [all]
  rfl

/-- Running the rules fires none of them and changes neither facts nor host functions. -/
structure Idle (maxCycles : Nat) (c : Context φ ω) (kb : KnowledgeBase) : Prop where
  result : (execute maxCycles c kb).result =
    .ok ⟨kb.ruleSet.name, kb.ruleSet.version, .quiescent, 0, [], []⟩
  context : (execute maxCycles c kb).session.context = c
  active : (execute maxCycles c kb).session.active = kb.active

/-- Where no rule matches, a run has nothing to do. -/
theorem idle_of_finds (h : kb.ruleSet.Compiled)
    (all : kb.active = Array.replicate kb.ruleSet.rules.length true) {t : Session φ ω}
    (none : Finds kb c (.ok []) t)
    (harmless : Harmless kb.ruleSet kb.active (numbered kb.ruleSet) (.start c kb.active))
    (maxCycles : Nat) : Idle maxCycles c kb := by
  have kept := none.around h fun _ mem => rule_mem_of_numbered mem
  have context : t.context = c := none.context_eq harmless
  have retracted : t.retracted = [] := kept.retracted_eq
  obtain ⟨e, run, executed⟩ := execute_eq h maxCycles c
  obtain rfl := run.of_none ((finds_iff_first all).mp none)
  refine ⟨?_, ?_, ?_⟩
  · rw [executed]
    simp [Ending.report, Except.map, retracted]
  · rw [executed]
    exact context
  · rw [executed]
    exact kept.active_eq

/-- How running the rules of a knowledge base goes together with finding those that match. -/
structure Foretold (kb : KnowledgeBase) (maxCycles : Nat) (c : Context φ ω) (e : Ending φ ω) :
    Prop where
  error : ∀ err, (fetchMatching c kb).result = .error err ↔
    e.firings = [] ∧ e.outcome = .error err ∧ ∀ k name, err ≠ .cycleLimit k name
  idle : (fetchMatching c kb).result = .ok [] → Idle maxCycles c kb
  first : ∀ r rest, (fetchMatching c kb).result = .ok (r :: rest) → 0 < maxCycles →
    ∃ f fs, e.firings = f :: fs ∧ f.before = start kb.ruleSet c ∧ f.chosen.2 = r

/-- A run in which no rule fires fails with the step that finds them, or at its bound. -/
theorem Forward.fails_first_iff (h : kb.ruleSet.Compiled)
    (all : kb.active = Array.replicate kb.ruleSet.rules.length true)
    (run : Forward kb.ruleSet maxCycles 0 "" (start kb.ruleSet c) e) (err : Error) :
    (fetchMatching c kb).result = .error err ↔
      e.firings = [] ∧ e.outcome = .error err ∧ ∀ k name, err ≠ .cycleLimit k name := by
  rw [fetch_eq_error_iff h]
  constructor
  · rintro ⟨t, step⟩
    obtain rfl := run.of_fails ((finds_iff_first all).mp step)
    refine ⟨rfl, rfl, ?_⟩
    rintro k name rfl
    exact not_accounted_cycleLimit k name (accounted_of_matches h step)
  · rintro ⟨still, ends, known⟩
    cases run with
    | quiescent => cases ends
    | limit =>
      cases ends
      exact absurd rfl (known _ _)
    | conditionFails fails =>
      cases ends
      exact ⟨_, (finds_iff_first all).mpr fails⟩
    | completed | next | actionFails => cases still

theorem Forward.foretold (h : kb.ruleSet.Compiled)
    (all : kb.active = Array.replicate kb.ruleSet.rules.length true)
    (harmless : Harmless kb.ruleSet kb.active (numbered kb.ruleSet) (.start c kb.active))
    (run : Forward kb.ruleSet maxCycles 0 "" (start kb.ruleSet c) e) :
    Foretold kb maxCycles c e where
  error := run.fails_first_iff h all
  idle fetched := by
    obtain ⟨t, none⟩ := (fetch_eq_nil_iff h).mp fetched
    exact idle_of_finds h all none harmless maxCycles
  first r rest fetched room := by
    obtain ⟨found, t, n, step, chosen, rfl⟩ := chosen_of_fetch h fetched
    have begins := (finds_iff_first all).mp step
    obtain ⟨f, fs, fires, before, is⟩ := run.exists_first begins chosen room
    exact ⟨f, fs, fires, before, congrArg Prod.snd is⟩

/-! ## Before and after a run -/

/-- Finding the rules that match tells how a run begins; and a run that ends by itself leaves none
to be found, and nothing to do for another run if it retracted none. -/
theorem execute_foretold (h : kb.ruleSet.Compiled)
    (all : kb.active = Array.replicate kb.ruleSet.rules.length true) {c : Context Fact ω}
    (tidy : c.Tidy) (maxCycles : Nat) :
    ∃ e, Forward kb.ruleSet maxCycles 0 "" (start kb.ruleSet c) e ∧
      execute maxCycles c kb = ⟨e.outcome.map (e.report kb.ruleSet), e.final⟩ ∧
      Foretold kb maxCycles c e ∧
      ∀ rep, (execute maxCycles c kb).result = .ok rep → rep.outcome = .quiescent →
        (fetchMatching (execute maxCycles c kb).session.context
          ((execute maxCycles c kb).knowledgeBase kb)).result = .ok [] ∧
        (rep.retracted = [] → ∀ again, Idle again (execute maxCycles c kb).session.context
          ((execute maxCycles c kb).knowledgeBase kb)) := by
  obtain ⟨e, run, executed⟩ := execute_eq h maxCycles c
  have foretold := run.foretold h all (harmless_of_tidy tidy _ _)
  refine ⟨e, run, executed, foretold, fun rep ended quiescent => ?_⟩
  have tracks := tracks_execute h maxCycles c
  rw [executed] at ended tracks ⊢
  obtain ⟨o, ends, rfl⟩ := map_eq_ok_iff.mp ended
  obtain rfl : o = .quiescent := quiescent
  have final : e.final = e.session.record (.finished .quiescent e.firings.length) := by
    unfold Ending.final
    rw [ends]
  rw [final] at tracks ⊢
  obtain ⟨kept, t, none⟩ := run.leaves_nothing h tidy ends
  let after : KnowledgeBase := { kb with active := e.session.active }
  have compiled : after.ruleSet.Compiled := h
  have none : Finds after e.session.context (.ok []) t := none
  have begun : (Session.start e.session.context after.active).context.Tidy := kept
  refine ⟨(fetch_eq_nil_iff compiled).mpr ⟨t, none⟩, fun retracted again => ?_⟩
  exact idle_of_finds compiled (tracks.active_eq retracted) none (harmless_of_tidy begun _ _) again

/-- One rule, which counts up to two. -/
def counting : KnowledgeBase :=
  .ofRuleSet ((RuleSet.compile {} "count" "1"
    "rule A \x7b when D.n < 2 then D.n = D.n + 1; \x7d".toUTF8).toOption.getD ⟨"", "", "", []⟩)

/-- A document that counts from zero. -/
def counter : Context Fact Unit :=
  { facts := [("D", .document (.object [("n", .ofInt64 0)]))], world := () }

theorem counting_compiled : counting.ruleSet.Compiled :=
  RuleSet.compiled_of_isSome (by decide +kernel)

theorem counter_tidy : counter.Tidy where
  sorted := List.pairwise_singleton ..
  facts e mem := by
    obtain rfl := List.mem_singleton.mp mem
    exact .document (.object (List.pairwise_singleton ..) (by simpa using .number))
  functions := rfl

theorem execute_foretold_counting :
    ∃ e, Forward counting.ruleSet 5 0 "" (start counting.ruleSet counter) e ∧
      execute 5 counter counting = ⟨e.outcome.map (e.report counting.ruleSet), e.final⟩ ∧
      Foretold counting 5 counter e ∧
      (fetchMatching (execute 5 counter counting).session.context
        ((execute 5 counter counting).knowledgeBase counting)).result = .ok [] ∧
      ∀ again, Idle again (execute 5 counter counting).session.context
        ((execute 5 counter counting).knowledgeBase counting) := by
  have quiescent : (execute 5 counter counting).result.toOption.map
      (fun rep => (rep.outcome, rep.retracted)) = some (.quiescent, []) := by decide +kernel
  obtain ⟨rep, ended, eq⟩ := Option.map_eq_some_iff.mp quiescent
  obtain ⟨e, run, executed, foretold, last⟩ :=
    execute_foretold counting_compiled rfl counter_tidy 5
  obtain ⟨fetched, idle⟩ := last rep (ok_iff_toOption.mpr ended) (congrArg Prod.fst eq)
  exact ⟨e, run, executed, foretold, fetched, idle (congrArg Prod.snd eq)⟩

end Rulebook.Engine
