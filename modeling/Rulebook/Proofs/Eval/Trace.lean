import Mathlib
import Rulebook.Eval.Session

/-!
# Chains of elementary changes

An evaluation changes a session only when it accesses a fact or makes a call by a bare name. A trace
is a chain of such changes, from one session over all those in between to another; what each change
keeps or establishes carries over to whole chains.
-/

namespace Rulebook

/-- A session that an evaluation passes through, and the call that led to it if one did. -/
structure Moment (φ ω : Type) where
  session : Session φ ω
  call : Option (String × List Value) := none

/-- The sessions agree on the rules and the count of cycles. -/
def Around {φ ω : Type} (s t : Session φ ω) : Prop :=
  ∃ context events, t = { s with context := context, events := events }

namespace Around

variable {φ ω : Type} {s t u : Session φ ω}

theorem refl (s : Session φ ω) : Around s s := ⟨s.context, s.events, rfl⟩

theorem trans (h : Around s t) (k : Around t u) : Around s u := by
  obtain ⟨_, _, rfl⟩ := h
  obtain ⟨c, es, rfl⟩ := k
  exact ⟨c, es, rfl⟩

theorem active_eq (h : Around s t) : t.active = s.active := by obtain ⟨_, _, rfl⟩ := h; rfl

theorem retracted_eq (h : Around s t) : t.retracted = s.retracted := by
  obtain ⟨_, _, rfl⟩ := h; rfl

theorem complete_eq (h : Around s t) : t.complete = s.complete := by obtain ⟨_, _, rfl⟩ := h; rfl

theorem cycle_eq (h : Around s t) : t.cycle = s.cycle := by obtain ⟨_, _, rfl⟩ := h; rfl

end Around

/-- What one access or one call can do to a session. A call of `Retract` leaves the rules alone only
if its target is no rule of the set. -/
inductive Change (set : RuleSet) {φ ω : Type} (s : Session φ ω) :
    Option (String × List Value) → Session φ ω → Prop
  | around {call : Option (String × List Value)} {t : Session φ ω} (h : Around s t)
      (other : call ≠ some ("Complete", []))
      (stray : ∀ name, call = some ("Retract", [.text name]) → set.position? name = none) :
        Change set s call t
  | retract {i : Nat} {name : String} (h : set.position? name = some i) :
      Change set s (some ("Retract", [.text name])) (s.retract i name)
  | complete : Change set s (some ("Complete", [])) { s with complete := true }

namespace Change

variable {set : RuleSet} {φ ω : Type} {s t : Session φ ω} {call : Option (String × List Value)}

theorem complete_iff (h : Change set s call t) :
    t.complete = true ↔ s.complete = true ∨ call = some ("Complete", []) := by
  cases h with
  | around around other => simp [other, around.complete_eq]
  | retract pos => simp
  | complete => simp

theorem cycle_eq (h : Change set s call t) : t.cycle = s.cycle := by
  cases h with
  | around around => exact around.cycle_eq
  | retract pos => exact Session.cycle_retract _ _ s
  | complete => rfl

theorem around_of_no_call (h : Change set s call t)
    (no : ∀ name args, call = some (name, args) → name ≠ "Retract" ∧ name ≠ "Complete") :
    Around s t := by
  cases h with
  | around around => exact around
  | retract pos => exact absurd rfl (no _ _ rfl).1
  | complete => exact absurd rfl (no _ _ rfl).2

end Change

/-- A chain of changes of one kind from one session to another. -/
inductive Trace {φ ω : Type}
    (R : Session φ ω → Option (String × List Value) → Session φ ω → Prop) :
    Session φ ω → List (Moment φ ω) → Session φ ω → Prop
  | none (s : Session φ ω) : Trace R s [] s
  | next {s t : Session φ ω} {m : Moment φ ω} {ms : List (Moment φ ω)} :
      R s m.call m.session → Trace R m.session ms t → Trace R s (m :: ms) t

namespace Trace

variable {φ ω : Type} {R R' : Session φ ω → Option (String × List Value) → Session φ ω → Prop}
  {s t u : Session φ ω} {ms ns : List (Moment φ ω)}

theorem append (h : Trace R s ms t) (k : Trace R t ns u) : Trace R s (ms ++ ns) u := by
  induction h with
  | none => exact k
  | next change _ ih => exact .next change (ih k)

theorem one {m : Moment φ ω} (h : R s m.call m.session) : Trace R s [m] m.session :=
  .next h (.none _)

theorem mono (h : Trace R s ms t) (le : ∀ {a call b}, R a call b → R' a call b) :
    Trace R' s ms t := by
  induction h with
  | none => exact .none _
  | next change _ ih => exact .next (le change) ih

/-- What every change keeps holds along the whole chain. -/
theorem forall_mem {I : Session φ ω → Prop} (h : Trace R s ms t) (first : I s)
    (step : ∀ {a call b}, R a call b → I a → I b) : ∀ a ∈ s :: ms.map (·.session), I a := by
  induction h with
  | none => simpa using first
  | next change _ ih =>
    intro a mem
    rcases List.mem_cons.mp mem with rfl | mem
    · exact first
    · exact ih (step change first) a mem

/-- Whichever session comes later stands in a relation that every change establishes. -/
theorem pairwise {Q : Session φ ω → Session φ ω → Prop} (h : Trace R s ms t)
    (trans : ∀ {a b c}, Q a b → Q b c → Q a c) (step : ∀ {a call b}, R a call b → Q a b) :
    (s :: ms.map (·.session)).Pairwise Q := by
  induction h with
  | none => simp
  | next change _ ih =>
    refine List.pairwise_cons.mpr ⟨?_, ih⟩
    intro u mem
    rcases List.mem_cons.mp mem with rfl | mem
    · exact step change
    · exact trans (step change) ((List.pairwise_cons.mp ih).1 u mem)

theorem end_mem (h : Trace R s ms t) : t ∈ s :: ms.map (·.session) := by
  induction h with
  | none => exact .head _
  | next _ _ ih => exact .tail _ ih

variable {set : RuleSet}

/-- `Complete()` has been called at the end if it had been at the start, or was on the way. -/
theorem complete_iff (h : Trace (Change set) s ms t) :
    t.complete = true ↔ s.complete = true ∨ ∃ m ∈ ms, m.call = some ("Complete", []) := by
  induction h with
  | none => simp
  | next change _ ih => rw [ih, change.complete_iff]; simp [or_assoc]

theorem cycle_eq (h : Trace (Change set) s ms t) : t.cycle = s.cycle := by
  induction h with
  | none => rfl
  | next change _ ih => rw [ih, change.cycle_eq]

/-- A chain without calls of `Retract` and `Complete` concerns no rule at any point. -/
theorem each_around_of_no_call (h : Trace (Change set) s ms t)
    (no : ∀ m ∈ ms, ∀ name args, m.call = some (name, args) →
      name ≠ "Retract" ∧ name ≠ "Complete") : ∀ u ∈ s :: ms.map (·.session), Around s u := by
  induction h with
  | none => simpa using .refl _
  | next change _ ih =>
    have first := change.around_of_no_call (no _ (.head _))
    intro u mem
    rcases List.mem_cons.mp mem with rfl | mem
    · exact .refl u
    · exact first.trans (ih (fun m mem => no m (.tail _ mem)) u mem)

end Trace

end Rulebook
