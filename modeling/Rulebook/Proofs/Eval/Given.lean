import Mathlib
import Rulebook.Proofs.Eval.Sequence

/-!
# What evaluations give

The rest of a sequence matters only for what the first part can give. What an evaluation gives shows
in it: the place of a chain is in the fact that the chain starts with, and there is one value for
each argument.
-/

namespace Rulebook.Eval

variable {φ ω α β : Type}

/-- Some evaluation over the rule set gives `a`. -/
def Given (set : RuleSet) (x : Eval φ ω α) (a : α) : Prop :=
  ∃ rule s t, x.runIn ⟨set, rule⟩ s = (.ok a, t)

/-! ## Results of one kind -/

/-- Whatever the evaluation gives satisfies `Q`. -/
def GivesOnly (Q : α → Prop) (x : Eval φ ω α) : Prop :=
  ∀ fr s a t, x.runIn fr s = (.ok a, t) → Q a

namespace GivesOnly

variable {Q : α → Prop} {R : β → Prop} {x : Eval φ ω α} {f : α → Eval φ ω β} {a : α}

theorem pure (h : Q a) : GivesOnly Q (pure a : Eval φ ω α) := by
  rintro fr s _ t ⟨⟩
  exact h

theorem bind (hx : GivesOnly Q x) (hf : ∀ a, Q a → GivesOnly R (f a)) : GivesOnly R (x >>= f) := by
  intro fr s b u ran
  obtain ⟨a, t, first, rest⟩ := runIn_bind_eq_ok.mp ran
  exact hf a (hx fr s a t first) fr t b u rest

/-- The first part does not matter. -/
theorem rest (hf : ∀ a, GivesOnly R (f a)) : GivesOnly R (x >>= f) :=
  bind (Q := fun _ => True) (fun _ _ _ _ _ => trivial) fun a _ => hf a

theorem of_given (h : GivesOnly Q x) {set : RuleSet} (given : Given set x a) : Q a := by
  obtain ⟨rule, s, t, ran⟩ := given
  exact h ⟨set, rule⟩ s a t ran

end GivesOnly

variable [FactOps φ]

/-- The fact that a base is the name of. -/
def Base.fact? : Base → Option String
  | .fact name _ => some name
  | .value _ => none

/-- A chain leads into the fact that it starts with, and other expressions into none. -/
theorem places_root : ∀ e : Expr,
    GivesOnly (fun p => p.base.fact? = e.root?) (place e : Eval φ ω Place)
  | .literal .. | .ident .. => .pure rfl
  | .unary .. => .rest fun _ => .rest fun _ => .rest fun _ => .pure rfl
  | .arith .. | .compare .. =>
    .rest fun _ => .rest fun _ => .rest fun _ => .rest fun _ => .rest fun _ => .pure rfl
  | .logic op _ _ _ => .rest fun _ => .rest fun _ => .rest fun b => by
    cases decides op b with
    | true => exact .pure rfl
    | false => exact .rest fun _ => .rest fun _ => .rest fun _ => .pure rfl
  | .member object _ _ => (places_root object).bind fun _ same => .pure same
  | .index object _ _ =>
    (places_root object).bind fun _ same => .rest fun _ => .rest fun _ => .pure same
  | .call .. => .rest fun _ => .rest fun _ => .pure rfl
  | .method receiver _ _ _ =>
    (places_root receiver).bind fun _ same => .rest fun _ => .pure same

theorem values_length (es : List Expr) :
    GivesOnly (fun vs => vs.length = es.length) (values es : Eval φ ω (List Value)) := by
  induction es with
  | nil => exact .pure rfl
  | cons e es ih =>
    exact .rest fun _ => .rest fun _ => ih.bind fun _ same => .pure (congrArg (· + 1) same)

end Rulebook.Eval
