import Mathlib
import Rulebook.Proofs.Engine.Checked
import Rulebook.Proofs.Engine.Fetch
import Rulebook.Proofs.Engine.Harmless
import Rulebook.Proofs.Grammar.Attempts

/-!
# Runs that fail

A run that fails keeps what was done up to there: all actions of the rules that had fired, and those
of the last rule that came before the one that failed. Nothing is undone, and the action that failed
has changed no fact; but every rule whose retraction was called for is off.
-/

namespace Rulebook.Engine

/-! ## Performing actions again -/

section Replay

variable {φ ω : Type} [FactOps φ] {set : RuleSet} {r : Rule}

/-- What actions do to the facts depends on the facts and host functions alone. -/
theorem Performs.congr {as : List Statement} {s s' t : Session φ ω} {result : Except Error Unit}
    (h : Performs set r as s result t) (same : s'.context = s.context) :
    ∃ t', Performs set r as s' result t' ∧ t'.context = t.context := by
  induction h generalizing s' with
  | nil => exact ⟨s', .nil s', same⟩
  | @next a _ s _ _ _ ran _ ih =>
    obtain ⟨gives, leads⟩ := Eval.ReadsContext.execute a set (some r.name) s' s same
    rcases ran' : (Eval.execute a).runIn ⟨set, some r.name⟩ s' with ⟨_, u'⟩
    rw [ran, ran'] at gives leads
    cases gives
    obtain ⟨t', rest, kept⟩ := ih leads
    exact ⟨t', .next ran' rest, kept⟩
  | @fails a _ s _ _ ran =>
    obtain ⟨gives, leads⟩ := Eval.ReadsContext.execute a set (some r.name) s' s same
    rcases ran' : (Eval.execute a).runIn ⟨set, some r.name⟩ s' with ⟨_, t'⟩
    rw [ran, ran'] at gives leads
    cases gives
    exact ⟨t', .fails ran', leads⟩

/-- Performing all actions of some rules, one rule after another and without a failure. -/
inductive Replays (set : RuleSet) : List Rule → Session φ ω → Session φ ω → Prop
  | nil (s : Session φ ω) : Replays set [] s s
  | next {r rest s u t} : Performs set r r.actions s (.ok ()) u → Replays set rest u t →
      Replays set (r :: rest) s t

/-- Where actions fail, some come before the one that does. -/
theorem Performs.exists_fails {as : List Statement} {s t : Session φ ω} {e : Error}
    (h : Performs set r as s (.error e) t) :
    ∃ done a rest u, as = done ++ a :: rest ∧ Performs set r done s (.ok ()) u ∧
      (Eval.execute a).runIn ⟨set, some r.name⟩ u = (.error e, t) := by
  generalize eq : (Except.error e : Except Error Unit) = result at h
  induction h with
  | nil => cases eq
  | @next a rest _ _ _ _ ran _ ih =>
    obtain ⟨done, b, more, u, rfl, performed, fails⟩ := ih eq
    exact ⟨a :: done, b, more, u, rfl, .next ran performed, fails⟩
  | @fails a rest s _ _ ran =>
    cases eq
    exact ⟨[], a, rest, s, rfl, .nil s, ran⟩

end Replay

/-! ## Where a run stops -/

variable {ω : Type} {set : RuleSet} {s t : Session Fact ω}

theorem Performs.tidy {r : Rule} {as : List Statement} {result : Except Error Unit}
    (h : Performs set r as s result t) (tidy : s.context.Tidy) : t.context.Tidy := by
  obtain ⟨-, ends⟩ := h.unique (executeAll_performs set r as s)
  rw [ends]
  exact (Eval.ensures_executeAll as ⟨set, some r.name⟩ s tidy).1

/-- The rules that fired. -/
def fired {φ : Type} (fs : List (Firing φ ω)) : List Rule := fs.map fun f => f.chosen.2

/-- How a run from `s` that fires `fs` fails with `e`, and which facts it leaves: at a condition,
with what all the rules did that fired; or at an action of the last of them, with what the others did
and the actions before that one. -/
inductive Interrupted (set : RuleSet) (s : Session Fact ω) (e : Error) :
    List (Firing Fact ω) → Context Fact ω → Prop
  | condition {fs v n} : Replays set (fired fs) s v → n ∈ numbered set →
      (tryRule set n.2 v).1 = .error e → Interrupted set s e fs v.context
  | action {fs f v u x done a rest} : Replays set (fired fs) s v →
      f.chosen.2.actions = done ++ a :: rest → Performs set f.chosen.2 done v (.ok ()) u →
      (Eval.execute a).runIn ⟨set, some f.name⟩ u = (.error e, x) → x.context = u.context →
        Interrupted set s e (fs ++ [f]) u.context

theorem Interrupted.cons {e : Error} {f : Firing Fact ω} {fs : List (Firing Fact ω)}
    {c : Context Fact ω} (h : Interrupted set t e fs c)
    (acts : Performs set f.chosen.2 f.chosen.2.actions s (.ok ()) t) :
    Interrupted set s e (f :: fs) c := by
  cases h with
  | condition replays mem fails => exact .condition (.next acts replays) mem fails
  | action replays actions performed fails kept =>
    rw [← List.cons_append]
    exact .action (.next acts replays) actions performed fails kept

theorem Forward.interrupted {maxCycles count : Nat} {last : String} {e : Ending Fact ω}
    (run : Forward set maxCycles count last s e) (tidy : s.context.Tidy) {err : Error}
    (ends : e.outcome = .error err) (unbounded : ∀ k name, err ≠ .cycleLimit k name)
    {s' : Session Fact ω} (same : s'.context = s.context) :
    Interrupted set s' err e.firings e.session.context := by
  induction run generalizing s' with
  | quiescent | completed => cases ends
  | limit =>
    cases ends
    exact absurd rfl (unbounded _ _)
  | @conditionFails _ _ s _ _ fails =>
    cases ends
    have harmless : Harmless set s.active (numbered set) s := harmless_of_tidy tidy _ _
    obtain ⟨n, mem, -, failed⟩ := fails.exists_fails harmless
    rw [fails.context_eq harmless, ← same]
    exact .condition (.nil s') mem ((tryRule_congr n.2 same).1.trans failed)
  | @actionFails _ _ _ f _ before valid _ error =>
    subst before
    cases ends
    have matched : f.matched.context = f.before.context :=
      valid.found.context_eq (harmless_of_tidy tidy _ _)
    have performed := valid.performed
    rw [error] at performed
    have begun : s'.context = f.begun.context := same.trans matched.symm
    obtain ⟨t', performed, kept⟩ := performed.congr begun
    obtain ⟨done, a, rest, u, actions, acts, fails⟩ := performed.exists_fails
    have inside : u.context.Tidy := acts.tidy (same.symm ▸ tidy)
    have still := Eval.atomic_execute a _ u inside _ _ fails
    change Interrupted set s' _ ([] ++ [f]) f.finish.context
    rw [← kept, still]
    exact .action (.nil s') actions acts fails still
  | @next _ _ _ f _ _ _ before valid _ ok _ _ ih =>
    subst before
    have matched : f.matched.context = f.before.context :=
      valid.found.context_eq (harmless_of_tidy tidy _ _)
    have performed := valid.performed
    rw [ok] at performed
    obtain ⟨t', performed, kept⟩ := performed.congr (same.trans matched.symm)
    exact (ih (valid.tidy tidy) ends kept).cons performed

/-! ## What was retracted -/

section Retractions

variable {φ ω : Type} {set : RuleSet} {s t : Session φ ω}

/-- A call of `Retract` for the rule at place `i`. -/
def Retracts (set : RuleSet) (i : Nat) (call : Option (String × List Value)) : Prop :=
  ∃ name, call = some ("Retract", [.text name]) ∧ set.position? name = some i

theorem Progress.off_iff {call : Option (String × List Value)} (step : Progress set s call t)
    (i : Nat) :
    t.active.getD i false = false ↔ s.active.getD i false = false ∨ Retracts set i call := by
  cases step with
  | counted => exact (or_iff_left (by rintro ⟨_, ⟨⟩, -⟩)).symm
  | change change =>
    cases change with
    | around around other stray =>
      have none : ¬ Retracts set i call := by
        rintro ⟨name, is, pos⟩
        rw [stray name is] at pos
        cases pos
      rw [around.active_eq, or_iff_left none]
    | complete =>
      refine (or_iff_left ?_).symm
      rintro ⟨_, is, -⟩
      simp at is
    | @retract j name pos =>
      have target : Retracts set i (some ("Retract", [.text name])) ↔ j = i := by
        constructor
        · rintro ⟨_, ⟨⟩, found⟩
          exact Option.some.inj (pos.symm.trans found)
        · rintro rfl
          exact ⟨name, rfl, pos⟩
      rw [target]
      unfold Session.retract
      split
      · dsimp only
        rw [getD_setIfInBounds]
        split <;> simp [*]
      · next off =>
        refine ⟨.inl, ?_⟩
        rintro (off | rfl)
        · exact off
        · exact Bool.eq_false_iff.mpr off

/-- A rule is off at the end exactly if it was at the start, or was retracted on the way. -/
theorem Trace.off_iff {ms : List (Moment φ ω)} (h : Trace (Progress set) s ms t) (i : Nat) :
    t.active.getD i false = false ↔
      s.active.getD i false = false ∨ ∃ m ∈ ms, Retracts set i m.call := by
  induction h with
  | none => simp
  | next step _ ih =>
    rw [ih, step.off_iff, or_assoc, List.exists_mem_cons_iff]

end Retractions

/-! ## The engine -/

/-- A run over tidy facts that fails in a rule leaves the facts that its rules made: those that had
fired all of their actions, the last one those before the action that failed. The rules that are off
are those for which `Retract` was called. -/
theorem execute_interrupted {kb : KnowledgeBase} (h : kb.ruleSet.Compiled) {c : Context Fact ω}
    (tidy : c.Tidy) (maxCycles : Nat) {p : Problem}
    (fails : (execute maxCycles c kb).result = .error (.problem p)) :
    (∃ e, Forward kb.ruleSet maxCycles 0 "" (start kb.ruleSet c) e ∧
      execute maxCycles c kb = ⟨e.outcome.map (e.report kb.ruleSet), e.final⟩ ∧
      Interrupted kb.ruleSet (start kb.ruleSet c) (.problem p) e.firings
        (execute maxCycles c kb).session.context) ∧
    ∀ r ∈ kb.ruleSet.rules, ((execute maxCycles c kb).knowledgeBase kb).isActive r.name = false ↔
      ∃ m ∈ sessionMoments ⟨kb.ruleSet, none⟩ maxCycles (start kb.ruleSet c),
        m.call = some ("Retract", [.text r.name]) := by
  obtain ⟨e, run, executed⟩ := execute_eq h maxCycles c
  constructor
  · refine ⟨e, run, executed, ?_⟩
    rw [executed] at fails ⊢
    rw [e.final_context]
    exact run.interrupted tidy (map_eq_error_iff.mp fails) nofun rfl
  · intro r mem
    obtain ⟨i, at_i⟩ := List.mem_iff_getElem?.mp mem
    have pos := (RuleSet.position?_eq_some_iff h r.name i).mpr ⟨r, at_i, rfl⟩
    have off := Trace.off_iff (history_trace kb maxCycles c) i
    obtain ⟨lt, -⟩ := List.getElem?_eq_some_iff.mp at_i
    have begun : ¬ (start kb.ruleSet c).active.getD i false = false := by
      rw [Bool.not_eq_false]
      exact getD_replicate lt
    have active : ((execute maxCycles c kb).knowledgeBase kb).isActive r.name =
        (execute maxCycles c kb).session.active.getD i false := by
      unfold KnowledgeBase.isActive Run.knowledgeBase
      rw [pos]
    rw [active, off, or_iff_right begun]
    refine exists_congr fun m => and_congr_right fun _ => ⟨?_, fun is => ⟨r.name, is, pos⟩⟩
    rintro ⟨name, is, found⟩
    obtain ⟨q, at_i', named⟩ := (RuleSet.position?_eq_some_iff h name i).mp found
    rw [at_i] at at_i'
    cases at_i'
    rw [is, named]

/-- Two rules, of which the second fails after it has counted and retracted the first. -/
def faltering : KnowledgeBase :=
  .ofRuleSet ((RuleSet.compile {} "falter" "1"
    ("rule A salience 1 \x7b when D.n == 0 then D.n = 1; \x7d "
      ++ "rule B \x7b when D.n > 0 then D.n = 2; D.m = Retract(\"A\") + 1; \x7d").toUTF8).toOption.getD
        ⟨"", "", "", []⟩)

theorem faltering_compiled : faltering.ruleSet.Compiled :=
  RuleSet.compiled_of_isSome (by decide +kernel)

theorem execute_interrupted_faltering :
    ∃ p, (execute 5 counter faltering).result = .error (.problem p) ∧
      (∃ e, Forward faltering.ruleSet 5 0 "" (start faltering.ruleSet counter) e ∧
        execute 5 counter faltering = ⟨e.outcome.map (e.report faltering.ruleSet), e.final⟩ ∧
        Interrupted faltering.ruleSet (start faltering.ruleSet counter) (.problem p) e.firings
          (execute 5 counter faltering).session.context) ∧
      ∀ r ∈ faltering.ruleSet.rules,
        ((execute 5 counter faltering).knowledgeBase faltering).isActive r.name = false ↔
          ∃ m ∈ sessionMoments ⟨faltering.ruleSet, none⟩ 5 (start faltering.ruleSet counter),
            m.call = some ("Retract", [.text r.name]) := by
  have reports : (RuleSet.reported (execute 5 counter faltering).result).length = 1 := by
    decide +kernel
  obtain ⟨e, run, executed⟩ := execute_eq faltering_compiled 5 counter
  rcases ended : (execute 5 counter faltering).result with error | rep
  · rw [ended] at reports
    have ends : (e.outcome.map (e.report faltering.ruleSet)) = .error error := by
      rw [← ended, executed]
    obtain ⟨name, rfl⟩ | ⟨_, _, _, _, rfl, _⟩ :=
      run.accounted faltering_compiled (map_eq_error_iff.mp ends)
    · cases reports
    · exact ⟨_, rfl, execute_interrupted faltering_compiled counter_tidy 5 ended⟩
  · rw [ended] at reports
    cases reports

end Rulebook.Engine
