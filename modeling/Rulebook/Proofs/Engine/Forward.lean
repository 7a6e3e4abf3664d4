import Mathlib
import Rulebook.Proofs.Engine.Matching
import Rulebook.Sample.Records

/-!
# Forward chaining

`Forward` describes a run without the session's own counters and flags: which rules hold, which of
them fires, and when the run is over. `Engine.execute` ends as this description says.
-/

namespace Rulebook.Engine

variable {φ ω : Type} [FactOps φ]

/-! ## Actions -/

/-- Running actions one after another up to the first failure. -/
inductive Performs (set : RuleSet) (r : Rule) :
    List Statement → Session φ ω → Except Error Unit → Session φ ω → Prop
  | nil (s : Session φ ω) : Performs set r [] s (.ok ()) s
  | next {a rest s u result t} : (Eval.execute a).runIn ⟨set, some r.name⟩ s = (.ok (), u) →
      Performs set r rest u result t → Performs set r (a :: rest) s result t
  | fails {a rest s e t} : (Eval.execute a).runIn ⟨set, some r.name⟩ s = (.error e, t) →
      Performs set r (a :: rest) s (.error e) t

theorem Performs.unique {set : RuleSet} {r : Rule} {as : List Statement} {s t t' : Session φ ω}
    {result result' : Except Error Unit} (h : Performs set r as s result t)
    (k : Performs set r as s result' t') : result = result' ∧ t = t' := by
  induction h with
  | nil => cases k; exact ⟨rfl, rfl⟩
  | next ran _ ih =>
    cases k with
    | next ran' k => rw [ran] at ran'; cases ran'; exact ih k
    | fails ran' => rw [ran] at ran'; cases ran'
  | fails ran =>
    cases k with
    | next ran' => rw [ran] at ran'; cases ran'
    | fails ran' => rw [ran] at ran'; cases ran'; exact ⟨rfl, rfl⟩

theorem executeAll_performs (set : RuleSet) (r : Rule) (as : List Statement) (s : Session φ ω) :
    Performs set r as s ((Eval.executeAll as).runIn ⟨set, some r.name⟩ s).1
      ((Eval.executeAll as).runIn ⟨set, some r.name⟩ s).2 := by
  induction as generalizing s with
  | nil => exact .nil s
  | cons a rest ih =>
    unfold Eval.executeAll
    rcases ran : (Eval.execute a).runIn ⟨set, some r.name⟩ s with ⟨e | ⟨⟩, u⟩
    · rw [Eval.runIn_bind_error ran]; exact .fails ran
    · rw [Eval.runIn_bind_ok ran]; exact .next ran (ih u)

/-! ## Firings -/

/-- One step that fires a rule: the rules found to hold and the session after their conditions, the
rule that was chosen, and how its actions ended. -/
structure Firing (φ ω : Type) where
  before : Session φ ω
  found : List Numbered
  matched : Session φ ω
  chosen : Numbered
  result : Except Error Unit
  finish : Session φ ω

/-- The report that a rule is about to fire. -/
def announced (found : List Numbered) (r : Rule) (s : Session φ ω) : Session φ ω :=
  s.record (.firing (s.cycle + 1) found.length r.name r.salience)

/-- One more cycle. -/
def counted (s : Session φ ω) : Session φ ω := { s with cycle := s.cycle + 1 }

namespace Firing

def name (f : Firing φ ω) : String := f.chosen.2.name

/-- The session in which the actions begin. -/
def begun (f : Firing φ ω) : Session φ ω := announced f.found f.chosen.2 f.matched

/-- The session in which the next step begins. -/
def after (f : Firing φ ω) : Session φ ω := counted f.finish

/-- The chosen rule is the best of those that hold, and its actions are run in order: all of them,
or those up to the first that fails. -/
structure Valid (set : RuleSet) (f : Firing φ ω) : Prop where
  found : Matches set f.before.active (numbered set) f.before (.ok f.found) f.matched
  chosen : Chosen f.found f.chosen
  performed : Performs set f.chosen.2 f.chosen.2.actions f.begun f.result f.finish

/-- Some action of the rule called `Complete()`. -/
def CallsComplete (set : RuleSet) (f : Firing φ ω) : Prop :=
  ∃ m ∈ Eval.executeAllMoments ⟨set, some f.name⟩ f.chosen.2.actions f.begun,
    m.call = some ("Complete", [])

variable {set : RuleSet} {f g : Firing φ ω}

theorem Valid.unique (hf : f.Valid set) (hg : g.Valid set) (same : f.before = g.before) :
    f = g := by
  rcases f with ⟨s, found, t, n, result, u⟩
  rcases g with ⟨s', found', t', n', result', u'⟩
  cases same
  obtain ⟨eq, rfl⟩ := hf.found.unique hg.found
  cases eq
  cases hf.chosen.unique hg.chosen
  obtain ⟨rfl, rfl⟩ := hf.performed.unique hg.performed
  rfl

theorem Valid.found_unique (hf : f.Valid set) {result : Except Error (List Numbered)}
    {t : Session φ ω} (m : Matches set f.before.active (numbered set) f.before result t) :
    ∃ rules, rules ≠ [] ∧ result = .ok rules := by
  obtain ⟨eq, -⟩ := m.unique hf.found
  exact ⟨f.found, List.ne_nil_of_mem hf.chosen.1, eq⟩

theorem Valid.mem (hf : f.Valid set) : f.chosen ∈ numbered set :=
  hf.found.sublist.1.subset hf.chosen.1

/-- How the actions ended is how running them ends. -/
theorem Valid.executed (hf : f.Valid set) :
    (Eval.executeAll f.chosen.2.actions).runIn ⟨set, some f.name⟩ f.begun =
      (f.result, f.finish) := by
  obtain ⟨result, finish⟩ :=
    hf.performed.unique (executeAll_performs set f.chosen.2 f.chosen.2.actions f.begun)
  exact Prod.ext result.symm finish.symm

/-- The actions are a chain of accesses and calls. -/
theorem Valid.trace (hf : f.Valid set) :
    Trace (Change set) f.begun
      (Eval.executeAllMoments ⟨set, some f.name⟩ f.chosen.2.actions f.begun) f.finish := by
  have passes := Eval.passes_executeAll ⟨set, some f.name⟩ f.chosen.2.actions f.begun
  rwa [hf.executed] at passes

theorem Valid.around (h : set.Compiled) (hf : f.Valid set) : Around f.before f.begun :=
  (hf.found.around h fun _ mem => rule_mem_of_numbered mem).trans ⟨f.matched.context, _, rfl⟩

/-- The flag that `Complete()` sets is set by the actions alone. -/
theorem Valid.complete_iff (h : set.Compiled) (hf : f.Valid set)
    (going : f.before.complete = false) : f.after.complete = true ↔ f.CallsComplete set := by
  have begun : f.begun.complete = false := (hf.around h).complete_eq.trans going
  have called := hf.trace.complete_iff
  rw [begun] at called
  simpa [after, counted, CallsComplete] using called

theorem Valid.cycle_eq (h : set.Compiled) (hf : f.Valid set) :
    f.after.cycle = f.before.cycle + 1 := by
  rw [← (hf.around h).cycle_eq, ← hf.trace.cycle_eq]
  rfl

end Firing

/-! ## Runs -/

/-- How a run ends, the firings on the way there, and the session at the end. -/
structure Ending (φ ω : Type) where
  outcome : Except Error Outcome
  firings : List (Firing φ ω)
  session : Session φ ω

/-- How a run goes on from a session when `count` rules have fired, the last one being `last`. -/
inductive Forward (set : RuleSet) (maxCycles : Nat) :
    (count : Nat) → (last : String) → Session φ ω → Ending φ ω → Prop
  | quiescent {count last s t} : Matches set s.active (numbered set) s (.ok []) t →
      Forward set maxCycles count last s ⟨.ok .quiescent, [], t⟩
  | limit {count last s found t} : Matches set s.active (numbered set) s (.ok found) t →
      found ≠ [] → count = maxCycles →
        Forward set maxCycles count last s
          ⟨.error (.cycleLimit maxCycles last), [], t.record (.stopped maxCycles last)⟩
  | completed {count last s f} : f.before = s → f.Valid set → count < maxCycles →
      f.result = .ok () → f.CallsComplete set →
        Forward set maxCycles count last s ⟨.ok .completed, [f], f.after⟩
  | next {count last s f o fs t} : f.before = s → f.Valid set → count < maxCycles →
      f.result = .ok () → ¬ f.CallsComplete set →
        Forward set maxCycles (count + 1) f.name f.after ⟨o, fs, t⟩ →
          Forward set maxCycles count last s ⟨o, f :: fs, t⟩
  | conditionFails {count last s e t} : Matches set s.active (numbered set) s (.error e) t →
      Forward set maxCycles count last s ⟨.error e, [], t⟩
  | actionFails {count last s f e} : f.before = s → f.Valid set → count < maxCycles →
      f.result = .error e → Forward set maxCycles count last s ⟨.error e, [f], f.finish⟩

namespace Forward

variable {set : RuleSet} {maxCycles count : Nat} {last : String} {s : Session φ ω}
  {e e' : Ending φ ω}

/-- A session in which a rule can fire has no other runs. -/
theorem of_valid {f : Firing φ ω} (k : Forward set maxCycles count last s e) (before : f.before = s)
    (valid : f.Valid set) (room : count < maxCycles) :
    (f.result = .ok () ∧ f.CallsComplete set ∧ e = ⟨.ok .completed, [f], f.after⟩) ∨
      (f.result = .ok () ∧ ¬ f.CallsComplete set ∧ ∃ o fs t, e = ⟨o, f :: fs, t⟩ ∧
        Forward set maxCycles (count + 1) f.name f.after ⟨o, fs, t⟩) ∨
      ∃ error, f.result = .error error ∧ e = ⟨.error error, [f], f.finish⟩ := by
  subst before
  cases k with
  | quiescent none =>
    obtain ⟨_, ne, eq⟩ := valid.found_unique none
    exact absurd (Except.ok.inj eq).symm ne
  | limit _ _ full => omega
  | conditionFails fails =>
    obtain ⟨_, _, eq⟩ := valid.found_unique fails
    cases eq
  | completed before' valid' _ ok calls =>
    obtain rfl := valid.unique valid' before'.symm
    exact .inl ⟨ok, calls, rfl⟩
  | next before' valid' _ ok silent more =>
    obtain rfl := valid.unique valid' before'.symm
    exact .inr (.inl ⟨ok, silent, _, _, _, rfl, more⟩)
  | actionFails before' valid' _ error =>
    obtain rfl := valid.unique valid' before'.symm
    exact .inr (.inr ⟨_, error, rfl⟩)

/-- A run goes on behind a rule that does not complete it. -/
theorem of_next {f : Firing φ ω} (k : Forward set maxCycles count last s e) (before : f.before = s)
    (valid : f.Valid set) (room : count < maxCycles) (ok : f.result = .ok ())
    (silent : ¬ f.CallsComplete set) : ∃ o fs t, e = ⟨o, f :: fs, t⟩ ∧
      Forward set maxCycles (count + 1) f.name f.after ⟨o, fs, t⟩ := by
  rcases k.of_valid before valid room with ⟨-, calls, -⟩ | ⟨-, -, more⟩ | ⟨_, error, -⟩
  · exact absurd calls silent
  · exact more
  · rw [ok] at error
    cases error

section

variable {t : Session φ ω}

/-- A session in which no rule holds ends the run. -/
theorem of_none (k : Forward set maxCycles count last s e)
    (none : Matches set s.active (numbered set) s (.ok []) t) : e = ⟨.ok .quiescent, [], t⟩ := by
  cases k with
  | quiescent none' =>
    obtain ⟨-, rfl⟩ := none.unique none'
    rfl
  | limit some some_ne =>
    obtain ⟨eq, -⟩ := none.unique some
    cases eq
    exact absurd rfl some_ne
  | conditionFails fails =>
    obtain ⟨eq, -⟩ := none.unique fails
    cases eq
  | completed before valid | next before valid | actionFails before valid =>
    subst before
    obtain ⟨_, ne, eq⟩ := valid.found_unique none
    exact absurd (Except.ok.inj eq).symm ne

/-- A session in which a rule holds ends the run if there is no room. -/
theorem of_full (k : Forward set maxCycles count last s e) {found : List Numbered}
    (some : Matches set s.active (numbered set) s (.ok found) t) (some_ne : found ≠ [])
    (full : count = maxCycles) :
    e = ⟨.error (.cycleLimit maxCycles last), [], t.record (.stopped maxCycles last)⟩ := by
  cases k with
  | quiescent none =>
    obtain ⟨eq, -⟩ := some.unique none
    cases eq
    exact absurd rfl some_ne
  | limit some' =>
    obtain ⟨-, rfl⟩ := some.unique some'
    rfl
  | conditionFails fails =>
    obtain ⟨eq, -⟩ := some.unique fails
    cases eq
  | completed _ _ room | next _ _ room | actionFails _ _ room => omega

/-- A session in which a condition fails ends the run with its error. -/
theorem of_fails (k : Forward set maxCycles count last s e) {error : Error}
    (fails : Matches set s.active (numbered set) s (.error error) t) :
    e = ⟨.error error, [], t⟩ := by
  cases k with
  | quiescent none | limit none =>
    obtain ⟨eq, -⟩ := fails.unique none
    cases eq
  | conditionFails fails' =>
    obtain ⟨eq, rfl⟩ := fails.unique fails'
    cases eq
    rfl
  | completed before valid | next before valid | actionFails before valid =>
    subst before
    obtain ⟨_, _, eq⟩ := valid.found_unique fails
    cases eq

end

theorem unique (h : Forward set maxCycles count last s e)
    (k : Forward set maxCycles count last s e') : e = e' := by
  induction h generalizing e' with
  | quiescent none => exact (k.of_none none).symm
  | limit some some_ne full => exact (k.of_full some some_ne full).symm
  | conditionFails fails => exact (k.of_fails fails).symm
  | completed before valid room ok calls =>
    rcases k.of_valid before valid room with ⟨-, -, rfl⟩ | ⟨-, silent, -⟩ | ⟨_, error, -⟩
    · rfl
    · exact absurd calls silent
    · rw [ok] at error
      cases error
  | next before valid room ok silent _ ih =>
    obtain ⟨_, _, _, rfl, more⟩ := k.of_next before valid room ok silent
    cases ih more
    rfl
  | actionFails before valid room error =>
    rcases k.of_valid before valid room with ⟨ok, -, -⟩ | ⟨ok, -, -⟩ | ⟨_, error', rfl⟩
    · rw [ok] at error
      cases error
    · rw [ok] at error
      cases error
    · rw [error] at error'
      cases error'
      rfl

theorem firings_length_le (h : Forward set maxCycles count last s e) (le : count ≤ maxCycles) :
    count + e.firings.length ≤ maxCycles := by
  induction h with
  | quiescent | limit | conditionFails => exact le
  | completed _ _ room | actionFails _ _ room => exact room
  | next _ _ room _ _ _ ih =>
    have rest := ih room
    simp only [List.length_cons] at rest ⊢
    omega

theorem valid (h : Forward set maxCycles count last s e) : ∀ f ∈ e.firings, f.Valid set := by
  induction h with
  | quiescent | limit | conditionFails => simp
  | completed _ valid | actionFails _ valid => simpa using valid
  | next _ valid _ _ _ _ ih => simpa using ⟨valid, ih⟩

/-- In a run without an error no action fails. -/
theorem result_eq (h : Forward set maxCycles count last s e) {o : Outcome}
    (ends : e.outcome = .ok o) : ∀ f ∈ e.firings, f.result = .ok () := by
  induction h with
  | quiescent => simp
  | limit | conditionFails | actionFails => cases ends
  | completed _ _ _ ok => simpa using ok
  | next _ _ _ ok _ _ ih => simpa using ⟨ok, ih ends⟩

/-- A run fails because rules still match, or with a condition, or with the last rule that fired. -/
theorem exists_error (h : Forward set maxCycles count last s e) {error : Error}
    (ends : e.outcome = .error error) :
    (∃ name, error = .cycleLimit maxCycles name) ∨
      (∃ n ∈ numbered set, ∃ u, tryRule set n.2 u = (.error error, e.session)) ∨
      ∃ f : Firing φ ω, f.Valid set ∧ f.result = .error error := by
  induction h with
  | quiescent | completed => cases ends
  | limit =>
    cases ends
    exact .inl ⟨_, rfl⟩
  | conditionFails fails =>
    cases ends
    exact .inr (.inl fails.exists_error)
  | actionFails _ valid _ fails =>
    cases ends
    exact .inr (.inr ⟨_, valid, fails⟩)
  | next _ _ _ _ _ _ ih => exact ih ends

/-- Where rules match and there is room, the chosen one fires first. -/
theorem exists_first (h : Forward set maxCycles count last s e) {found : List Numbered}
    {t : Session φ ω} (matched : Matches set s.active (numbered set) s (.ok found) t) {n : Numbered}
    (chosen : Chosen found n) (room : count < maxCycles) :
    ∃ f fs, e.firings = f :: fs ∧ f.before = s ∧ f.chosen = n := by
  have acts := executeAll_performs set n.2 n.2.actions (announced found n.2 t)
  have valid : Firing.Valid set ⟨s, found, t, n, _, _⟩ := ⟨matched, chosen, acts⟩
  rcases h.of_valid rfl valid room with ⟨-, -, rfl⟩ | ⟨-, -, _, _, _, rfl, -⟩ | ⟨_, -, rfl⟩ <;>
    exact ⟨_, _, rfl, rfl, rfl⟩

/-- Every firing starts where the one before it ended. -/
theorem before_eq (h : Forward set maxCycles count last s e) :
    e.firings.map Firing.before = (s :: e.firings.map Firing.after).dropLast := by
  induction h with
  | quiescent | limit | conditionFails => rfl
  | completed before | actionFails before => simpa using before
  | next before _ _ _ _ _ ih => simpa [before] using ih

/-- A run that ends by itself ends with a step at which no active rule holds. -/
theorem quiet (h : Forward set maxCycles count last s e) (ends : e.outcome = .ok .quiescent) :
    (∀ f ∈ e.firings, ¬ f.CallsComplete set) ∧
      ∃ t, t = (e.firings.map Firing.after).getLastD s ∧
        Matches set t.active (numbered set) t (.ok []) e.session := by
  induction h with
  | quiescent none => exact ⟨by simp, _, rfl, none⟩
  | limit | completed | conditionFails | actionFails => cases ends
  | next _ _ _ _ silent _ ih =>
    obtain ⟨all, t, eq, none⟩ := ih ends
    refine ⟨by simpa using ⟨silent, all⟩, t, ?_, none⟩
    rw [eq, List.map_cons, List.getLastD_cons]

/-- A run that is completed ends with the first rule that calls `Complete()`. -/
theorem closes (h : Forward set maxCycles count last s e) (ends : e.outcome = .ok .completed) :
    ∃ fs f, e.firings = fs ++ [f] ∧ f.CallsComplete set ∧ f.after = e.session ∧
      ∀ g ∈ fs, ¬ g.CallsComplete set := by
  induction h with
  | quiescent | limit | conditionFails | actionFails => cases ends
  | @completed _ _ _ f _ _ _ _ calls => exact ⟨[], f, rfl, calls, rfl, by simp⟩
  | @next _ _ _ g _ _ _ _ _ _ _ silent _ ih =>
    obtain ⟨fs, f, rfl, calls, after, all⟩ := ih ends
    exact ⟨g :: fs, f, rfl, calls, after, by simpa using ⟨silent, all⟩⟩

theorem cycle_eq (h : Forward set maxCycles count last s e) (compiled : set.Compiled)
    {o : Outcome} (ends : e.outcome = .ok o) : e.session.cycle = s.cycle + e.firings.length := by
  have still {t u : Session φ ω} {result : Except Error (List Numbered)}
      (m : Matches set t.active (numbered set) t result u) : u.cycle = t.cycle :=
    (m.around compiled fun _ mem => rule_mem_of_numbered mem).cycle_eq
  induction h with
  | quiescent none => exact still none
  | limit | conditionFails | actionFails => cases ends
  | completed before valid =>
    subst before
    exact valid.cycle_eq compiled
  | next before valid _ _ _ _ ih =>
    have rest := ih ends
    rw [valid.cycle_eq compiled, before] at rest
    simp only [List.length_cons] at rest ⊢
    omega

end Forward

/-! ## The engine -/

theorem runIn_fireNext (set : RuleSet) (rule : Option String) (r : Rule) (found : List Numbered)
    (s : Session φ ω) :
    (fireNext r found.length).runIn ⟨set, rule⟩ s =
      match (Eval.executeAll r.actions).runIn ⟨set, some r.name⟩ (announced found r s) with
      | (.ok (), t) => (.ok (), counted t)
      | (.error e, t) => (.error e, t) := by
  unfold fireNext fireRule announced
  rw [Eval.runIn_bind_ok (Eval.runIn_modify _ _ s), Eval.runIn_bind, Eval.runIn_inRule]
  rcases (Eval.executeAll r.actions).runIn ⟨set, some r.name⟩
    (s.record (.firing (s.cycle + 1) found.length r.name r.salience)) with ⟨_ | _, t⟩ <;> rfl

section

variable {set : RuleSet} {rule : Option String} {s t : Session φ ω}

theorem runIn_cycles_of_fails {e : Error}
    (ran : (matching : Eval φ ω _).runIn ⟨set, rule⟩ s = (.error e, t)) (maxCycles left : Nat)
    (fired : List String) : (cycles maxCycles left fired).runIn ⟨set, rule⟩ s = (.error e, t) := by
  cases left <;> exact Eval.runIn_bind_error ran _

theorem runIn_cycles_of_none (ran : matching.runIn ⟨set, rule⟩ s = (.ok [], t))
    (maxCycles left : Nat) (fired : List String) :
    (cycles maxCycles left fired).runIn ⟨set, rule⟩ s = (.ok (.quiescent, fired), t) := by
  cases left <;> exact Eval.runIn_bind_ok ran _

end

/-- The cycles of the engine are the steps of the run. -/
theorem cycles_forward {set : RuleSet} (h : set.Compiled) {maxCycles count left : Nat}
    (room : count + left = maxCycles) (rule : Option String) (fired : List String)
    {s : Session φ ω} (going : s.complete = false) :
    ∃ e, Forward set maxCycles count (lastFired fired) s e ∧
      (cycles maxCycles left fired).runIn ⟨set, rule⟩ s =
        (e.outcome.map fun o => (o, (e.firings.map Firing.name).reverse ++ fired), e.session) := by
  induction left generalizing count fired s with
  | zero =>
    obtain ⟨e, t, ran, fails⟩ | ⟨t, ran, none⟩ | ⟨found, t, n, others, ran, some, chosen, -⟩ :=
      matching_cases h rule s
    · exact ⟨_, .conditionFails fails, runIn_cycles_of_fails ran ..⟩
    · exact ⟨_, .quiescent none, runIn_cycles_of_none ran ..⟩
    · unfold cycles
      rw [Eval.runIn_bind_ok ran]
      exact ⟨_, .limit some (List.ne_nil_of_mem chosen.1) room, rfl⟩
  | succ left ih =>
    obtain ⟨e, t, ran, fails⟩ | ⟨t, ran, none⟩ | ⟨found, t, n, others, ran, some, chosen, length⟩ :=
      matching_cases h rule s
    · exact ⟨_, .conditionFails fails, runIn_cycles_of_fails ran ..⟩
    · exact ⟨_, .quiescent none, runIn_cycles_of_none ran ..⟩
    unfold cycles
    rw [Eval.runIn_bind_ok ran]
    dsimp only
    rw [length]
    have fires := runIn_fireNext set rule n.2 found t
    have acts := executeAll_performs set n.2 n.2.actions (announced found n.2 t)
    rcases acted : (Eval.executeAll n.2.actions).runIn ⟨set, Option.some n.2.name⟩
      (announced found n.2 t) with ⟨e | ⟨⟩, u⟩
    · rw [acted] at fires acts
      rw [Eval.runIn_bind_error fires]
      have valid : Firing.Valid set ⟨s, found, t, n, .error e, u⟩ := ⟨some, chosen, acts⟩
      exact ⟨_, .actionFails rfl valid (by omega) rfl, rfl⟩
    rw [acted] at fires acts
    rw [Eval.runIn_bind_ok fires, Eval.runIn_bind_ok (Eval.runIn_get _ _)]
    have valid : Firing.Valid set ⟨s, found, t, n, .ok (), u⟩ := ⟨some, chosen, acts⟩
    have flag := valid.complete_iff h going
    cases complete : (counted u).complete with
    | true => exact ⟨_, .completed rfl valid (by omega) rfl (flag.mp complete), rfl⟩
    | false =>
      have silent : ¬ Firing.CallsComplete set ⟨s, found, t, n, .ok (), u⟩ := by
        rw [← flag, Bool.not_eq_true]
        exact complete
      have room : count + 1 + left = maxCycles := by omega
      obtain ⟨⟨o, fs, v⟩, rest, ran⟩ := ih room (n.2.name :: fired) complete
      refine ⟨_, .next rfl valid (by omega) rfl silent rest, ?_⟩
      rw [if_neg Bool.false_ne_true, ran]
      simp [Firing.name]

/-- The session in which a run over a context starts: every rule is active. -/
def start (set : RuleSet) (c : Context φ ω) : Session φ ω :=
  .start c (Array.replicate set.rules.length true)

namespace Ending

/-- What the engine reports. -/
def report (set : RuleSet) (e : Ending φ ω) (o : Outcome) : Report :=
  ⟨set.name, set.version, o, e.firings.length, e.firings.map Firing.name, e.session.retracted⟩

/-- The session when everything has been reported. -/
def final (e : Ending φ ω) : Session φ ω :=
  match e.outcome with
  | .ok o => e.session.record (.finished o e.firings.length)
  | .error _ => e.session

omit [FactOps φ] in
@[simp] theorem final_context (e : Ending φ ω) : e.final.context = e.session.context := by
  unfold final; split <;> rfl

omit [FactOps φ] in
@[simp] theorem final_active (e : Ending φ ω) : e.final.active = e.session.active := by
  unfold final; split <;> rfl

omit [FactOps φ] in
@[simp] theorem final_retracted (e : Ending φ ω) : e.final.retracted = e.session.retracted := by
  unfold final; split <;> rfl

/-- The session at which the last step starts, or the run itself if no rule fired. -/
def last (s : Session φ ω) (e : Ending φ ω) : Session φ ω :=
  (e.firings.map Firing.after).getLastD s

/-- What a run without an error has done when it started in `s`. -/
structure Sound (set : RuleSet) (maxCycles : Nat) (s : Session φ ω) (o : Outcome)
    (e : Ending φ ω) : Prop where
  within : e.firings.length ≤ maxCycles
  valid : ∀ f ∈ e.firings, f.Valid set ∧ f.result = .ok ()
  linked : e.firings.map Firing.before = (s :: e.firings.map Firing.after).dropLast
  quiet : o = .quiescent →
    (∀ f ∈ e.firings, ¬ f.CallsComplete set) ∧
      Matches set (e.last s).active (numbered set) (e.last s) (.ok []) e.session
  still : o = .quiescent → Harmless set (e.last s).active (numbered set) (e.last s) →
    ∀ n ∈ numbered set, e.final.active.getD n.1 false = true →
      (tryRule set n.2 e.final).1 = .ok false
  closed : o = .completed → ∃ fs f, e.firings = fs ++ [f] ∧ f.CallsComplete set ∧
    f.after = e.session ∧ ∀ g ∈ fs, ¬ g.CallsComplete set

end Ending

theorem Forward.sound {set : RuleSet} (h : set.Compiled) {maxCycles : Nat} {last : String}
    {s : Session φ ω} {e : Ending φ ω} (run : Forward set maxCycles 0 last s e) {o : Outcome}
    (ends : e.outcome = .ok o) : e.Sound set maxCycles s o where
  within := by
    have le := run.firings_length_le (Nat.zero_le _)
    omega
  valid f mem := ⟨run.valid f mem, run.result_eq ends f mem⟩
  linked := run.before_eq
  quiet := by
    rintro rfl
    obtain ⟨all, t, rfl, none⟩ := run.quiet ends
    exact ⟨all, none⟩
  still := by
    rintro rfl harmless
    obtain ⟨-, t, rfl, none⟩ := run.quiet ends
    have mem : ∀ n ∈ numbered set, n.2 ∈ set.rules := fun _ mem => rule_mem_of_numbered mem
    have lacks := none.still harmless
    have final : e.final = e.session.record (.finished .quiescent e.firings.length) := by
      unfold Ending.final
      rw [ends]
    rw [final]
    intro n hn on
    have active := (none.around h mem).active_eq
    change e.session.active.getD n.1 false = true at on
    rw [active] at on
    have context : (e.session.record (.finished .quiescent e.firings.length)).context =
        e.session.context := rfl
    rw [(tryRule_congr n.2 context).1, lacks n hn on]
  closed := by
    rintro rfl
    exact run.closes ends

/-- A session of the engine is a run with everything reported. -/
theorem session_forward {set : RuleSet} (h : set.Compiled) (maxCycles : Nat) (rule : Option String)
    {s : Session φ ω} (going : s.complete = false) (new : s.cycle = 0) :
    ∃ e, Forward set maxCycles 0 "" s e ∧
      (session maxCycles).runIn ⟨set, rule⟩ s = (e.outcome.map (e.report set), e.final) := by
  obtain ⟨e, run, ran⟩ := cycles_forward h (Nat.zero_add maxCycles) rule [] going
  refine ⟨e, run, ?_⟩
  unfold session Ending.final
  cases ends : e.outcome with
  | error fault =>
    rw [ends] at ran
    rw [Eval.runIn_bind_error ran]
    rfl
  | ok o =>
    have cycle := run.cycle_eq h ends
    rw [new, Nat.zero_add] at cycle
    rw [ends] at ran
    rw [Eval.runIn_bind_ok ran]
    dsimp only
    rw [Eval.runIn_bind_ok (Eval.runIn_get _ _), Eval.runIn_bind_ok (Eval.runIn_modify _ _ _),
      Eval.runIn_bind_ok (Eval.runIn_read _ _), cycle, List.append_nil, List.reverse_reverse]
    rfl

theorem execute_eq {kb : KnowledgeBase} (h : kb.ruleSet.Compiled) (maxCycles : Nat)
    (c : Context φ ω) :
    ∃ e, Forward kb.ruleSet maxCycles 0 "" (start kb.ruleSet c) e ∧
      execute maxCycles c kb = ⟨e.outcome.map (e.report kb.ruleSet), e.final⟩ := by
  obtain ⟨e, run, ran⟩ :=
    session_forward h maxCycles none (s := start kb.ruleSet c) rfl rfl
  refine ⟨e, run, ?_⟩
  unfold execute runWith
  change (session maxCycles).runIn ⟨kb.ruleSet, none⟩ (.start c kb.reset.active) = _ at ran
  rw [ran]

/-- A run of the engine is the one way forward from all rules being active. -/
theorem execute_forward {kb : KnowledgeBase} (h : kb.ruleSet.Compiled) (maxCycles : Nat)
    (c : Context φ ω) :
    ∃ e, (∀ e', Forward kb.ruleSet maxCycles 0 "" (start kb.ruleSet c) e' ↔ e' = e) ∧
      (execute maxCycles c kb).result = e.outcome.map (e.report kb.ruleSet) ∧
      (execute maxCycles c kb).session = e.final ∧
      ∀ o, e.outcome = .ok o → e.Sound kb.ruleSet maxCycles (start kb.ruleSet c) o := by
  obtain ⟨e, run, executed⟩ := execute_eq h maxCycles c
  rw [executed]
  refine ⟨e, fun e' => ⟨fun run' => run'.unique run, ?_⟩, rfl, rfl, fun o => run.sound h⟩
  rintro rfl
  exact run

/-- A rule whose condition has an effect on the fact that it reads. -/
def touching : KnowledgeBase :=
  .ofRuleSet ((RuleSet.compile {} "touch" "1"
    "rule A \x7b when P.Touch() == 2 then Retract(\"A\"); \x7d".toUTF8).toOption.getD ⟨"", "", "", []⟩)

/-- A probe that has not been touched. -/
def untouched : Context Fact Unit := { facts := [("P", Sample.probe)], world := () }

theorem touching_compiled : touching.ruleSet.Compiled :=
  RuleSet.compiled_of_isSome (by decide +kernel)

theorem execute_forward_touching :
    ∃ e, (∀ e', Forward touching.ruleSet 1 0 "" (start touching.ruleSet untouched) e' ↔ e' = e) ∧
      (execute 1 untouched touching).result = e.outcome.map (e.report touching.ruleSet) ∧
      (execute 1 untouched touching).session = e.final ∧
      ∀ o, e.outcome = .ok o → e.Sound touching.ruleSet 1 (start touching.ruleSet untouched) o :=
  execute_forward touching_compiled 1 untouched

/-- A run can end quiescent in a session where a condition holds: trying it is what made it hold. -/
theorem quiescent_while_condition_holds :
    touching.ruleSet.Compiled ∧
      (execute 1 untouched touching).result.toOption.map Report.outcome = some .quiescent ∧
      ∃ n ∈ numbered touching.ruleSet,
        (execute 1 untouched touching).session.active.getD n.1 false = true ∧
        (tryRule touching.ruleSet n.2 (execute 1 untouched touching).session).1.toOption = some true := by
  refine ⟨touching_compiled, ?_, ?_⟩ <;> decide +kernel

end Rulebook.Engine
