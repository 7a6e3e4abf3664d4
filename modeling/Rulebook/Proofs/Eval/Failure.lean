import Mathlib
import Rulebook.Proofs.Eval.Given

/-!
# How evaluations fail

An evaluation fails with a problem of the rule that it is part of. Accesses, operators and host
functions can always fail; the functions that rules always have fail only for their arguments.
-/

namespace Rulebook

/-- The argument of `Retract` is not the name of a rule. -/
def EvalFault.isTarget : EvalFault → Bool
  | targetNotText _ | unknownTarget .. => true
  | _ => false

namespace Eval

variable {φ ω α β : Type} {set : RuleSet} {Q : EvalFault → Span → Prop}

/-- Every failure over the rule set is a problem of the rule at hand, with a fault at a place as `Q`
allows it. -/
def FailsOnly (set : RuleSet) (Q : EvalFault → Span → Prop) (x : Eval φ ω α) : Prop :=
  ∀ rule s e t, x.runIn ⟨set, rule⟩ s = (.error e, t) →
    ∃ fault span, e = .problem ⟨.eval fault, span, rule, set.source⟩ ∧ Q fault span

namespace FailsOnly

variable {x : Eval φ ω α} {f : α → Eval φ ω β} {fault : EvalFault} {span : Span}

theorem of_ok (h : ∀ rule s, ∃ a t, x.runIn ⟨set, rule⟩ s = (.ok a, t)) : FailsOnly set Q x := by
  intro rule s e t ran
  obtain ⟨a, u, ok⟩ := h rule s
  rw [ok] at ran
  cases ran

theorem fail (h : Q fault span) : FailsOnly set Q (fail fault span : Eval φ ω α) := by
  rintro rule s _ t ⟨⟩
  exact ⟨fault, span, rfl, h⟩

theorem bind (hx : FailsOnly set Q x) (hf : ∀ a, Given set x a → FailsOnly set Q (f a)) :
    FailsOnly set Q (x >>= f) := by
  intro rule s e t ran
  rcases first : x.runIn ⟨set, rule⟩ s with ⟨e' | a, u⟩
  · rw [runIn_bind_error first] at ran
    cases ran
    exact hx rule s e t first
  · rw [runIn_bind_ok first] at ran
    exact hf a ⟨rule, s, u, first⟩ rule u e t ran

theorem pure (a : α) : FailsOnly set Q (pure a : Eval φ ω α) := of_ok fun _ s => ⟨a, s, rfl⟩

theorem get_bind {f : Session φ ω → Eval φ ω β} (hf : ∀ s, FailsOnly set Q (f s)) :
    FailsOnly set Q (get >>= f) :=
  bind (of_ok fun _ s => ⟨s, s, rfl⟩) fun s _ => hf s

theorem modify_bind {g : Session φ ω → Session φ ω} {f : PUnit → Eval φ ω β}
    (hf : FailsOnly set Q (f ⟨⟩)) : FailsOnly set Q (modify g >>= f) :=
  bind (of_ok fun _ s => ⟨_, g s, rfl⟩) fun _ _ => hf

theorem composes (other : ∀ fault span, fault.isIntrinsic = false → Q fault span) :
    Composes (φ := φ) (ω := ω) (Given set) (FailsOnly set Q) where
  pure := .pure
  fail fault span is := fail (other fault span is)
  bind := bind

section Accesses

variable (other : ∀ fault span, fault.isIntrinsic = false → Q fault span)

include other

theorem accessFact (name : String) (span : Span) (access : φ → Except StepFault α × φ) :
    FailsOnly set Q (accessFact name span access : Eval φ ω α) := by
  refine get_bind fun s => ?_
  split
  · exact get_bind fun _ => fail (other _ _ rfl)
  · refine modify_bind ?_
    split
    · exact .pure _
    · exact fail (other _ _ rfl)

theorem readPlace [FactOps φ] (p : Place) : FailsOnly set Q (readPlace p : Eval φ ω Value) := by
  unfold Eval.readPlace
  split
  · exact accessFact other _ _ _
  · split
    · exact .pure _
    · exact fail (other _ _ rfl)

theorem callHost (name : String) (args : List Value) (span : Span) :
    FailsOnly set Q (callHost name args span : Eval φ ω Value) := by
  refine get_bind fun s => ?_
  split
  · exact fail (other _ _ rfl)
  · exact modify_bind (get_bind fun _ => modify_bind
      ((composes other).ofExcept span _ fun _ => rfl))

end Accesses

/-! ## Functions that rules always have -/

theorem log (args : List Value) : FailsOnly set Q (log args : Eval φ ω Unit) :=
  of_ok fun _ _ => ⟨(), _, rfl⟩

theorem complete (span : Span) :
    FailsOnly set Q (callIntrinsic .complete [] span : Eval φ ω Unit) :=
  of_ok fun _ _ => ⟨(), _, rfl⟩

theorem retract (target : Value) (h : ∀ fault, fault.isTarget = true → Q fault span) :
    FailsOnly set Q (retract target span : Eval φ ω Unit) := by
  intro rule s
  cases target
  case text name =>
    unfold Eval.retract
    rw [runIn_bind_ok (runIn_read ⟨set, rule⟩ s)]
    dsimp only
    cases set.position? name with
    | none => exact fail (h _ rfl) rule s
    | some i => exact fun e t ran => nomatch ran
  all_goals exact fail (h _ rfl) rule s

end FailsOnly

/-- A rule of the set that is named is retracted. -/
theorem runIn_retract {name : String} {i : Nat} (pos : set.position? name = some i) (span : Span)
    (rule : Option String) (s : Session φ ω) :
    (retract (.text name) span : Eval φ ω Unit).runIn ⟨set, rule⟩ s =
      (.ok (), s.retract i name) := by
  unfold retract
  rw [runIn_bind_ok (runIn_read ⟨set, rule⟩ s)]
  dsimp only
  rw [pos]
  rfl

end Eval

end Rulebook
