import Mathlib
import Rulebook.Value.Operation

/-!
# Comparison

Two values have an order, or can only be told apart, or have nothing to do with each other. The
operators share that one answer: which of them fail, and what the others say, follows from how the
values stand to each other.
-/

namespace Rulebook

namespace CompareOp

/-- The operator that says the contrary. -/
def opposite : CompareOp → CompareOp
  | .equal => .notEqual
  | .notEqual => .equal
  | .greater => .lessEqual
  | .less => .greaterEqual
  | .greaterEqual => .less
  | .lessEqual => .greater

/-- The operator for the operands the other way round. -/
def mirror : CompareOp → CompareOp
  | .equal => .equal
  | .notEqual => .notEqual
  | .greater => .less
  | .less => .greater
  | .greaterEqual => .lessEqual
  | .lessEqual => .greaterEqual

end CompareOp

/-! ## How values stand to each other -/

inductive Standing where
  | apart
  | alike (equal : Bool)
  | ordered (o : Ordering)

namespace Standing

/-- What an operator says, if it has anything to say. -/
def answer? (op : CompareOp) : Standing → Option Bool
  | apart => none
  | alike equal =>
    match op with
    | .equal => some equal
    | .notEqual => some !equal
    | _ => none
  | ordered o => some (Value.accepts op o)

def swap : Standing → Standing
  | apart => apart
  | alike equal => alike equal
  | ordered o => ordered o.swap

theorem answer?_opposite (op : CompareOp) (s : Standing) :
    s.answer? op.opposite = (s.answer? op).map (!·) := by
  cases s with
  | apart => rfl
  | alike equal => cases op <;> simp [answer?, CompareOp.opposite]
  | ordered o => cases op <;> cases o <;> rfl

theorem answer?_mirror (op : CompareOp) (s : Standing) :
    s.swap.answer? op.mirror = s.answer? op := by
  cases s with
  | apart => rfl
  | alike equal => cases op <;> rfl
  | ordered o => cases op <;> cases o <;> rfl

/-- What an order answers to is in order. -/
theorem ordered_of_answer {op : CompareOp} {s : Standing} {b : Bool} (order : op.isEquality = false)
    (h : s.answer? op = some b) : ∃ o, s = ordered o := by
  cases s with
  | apart => cases h
  | alike equal => cases op <;> simp_all [answer?, CompareOp.isEquality]
  | ordered o => exact ⟨o, rfl⟩

/-- Two numbers are in order unless one of them is no number. -/
def ofNumbers (x y : Float) : Standing := ((Number.compare? x y).map ordered).getD apart

theorem ofNumbers_swap (x y : Float) : ofNumbers y x = (ofNumbers x y).swap := by
  unfold ofNumbers
  rw [Number.compare?_swap]
  cases Number.compare? x y <;> rfl

end Standing

namespace Value

/-- How two values stand to each other. -/
def standing (l r : Value) : Standing :=
  match l, r with
  | nil, nil => .alike true
  | nil, _ | _, nil => .alike false
  | bool a, bool b => .alike (a = b)
  | int m, int n => .ordered (Ord.compare m.toInt n.toInt)
  | text s, text t => .ordered (Ord.compare s t)
  | l, r =>
    match l.float?, r.float? with
    | some x, some y => .ofNumbers x y
    | _, _ => .apart

theorem standing_swap (l r : Value) : standing r l = (standing l r).swap := by
  cases l <;> cases r <;> try rfl
  case bool.bool a b => exact congrArg Standing.alike (decide_eq_decide.mpr eq_comm)
  case int.int m n => exact congrArg Standing.ordered Std.OrientedOrd.eq_swap
  case text.text s t => exact congrArg Standing.ordered Std.OrientedOrd.eq_swap
  all_goals exact Standing.ofNumbers_swap _ _

/-! ## What the operators do -/

/-- What an operator does with operands that stand to each other like this. -/
def Tells (op : CompareOp) (s : Standing) (r : Except OperatorFault Value) : Prop :=
  (∃ b, s.answer? op = some b ∧ r = .ok (bool b)) ∨ (s.answer? op = none ∧ ∃ e, r = .error e)

theorem tells_compareNil (op : CompareOp) (l r : Value) (equal : Bool) :
    Tells op (.alike equal) (compareNil op l r equal) := by
  cases op <;> first | exact .inl ⟨_, rfl, rfl⟩ | exact .inr ⟨rfl, _, rfl⟩

theorem tells_booleans (op : CompareOp) (a b : Bool) :
    Tells op (.alike (a = b)) (compare op (bool a) (bool b)) := by
  cases op <;> cases a <;> cases b <;>
    first | exact .inl ⟨_, rfl, rfl⟩ | exact .inr ⟨rfl, _, rfl⟩

theorem tells_numbers (op : CompareOp) {l r : Value} {x y : Float}
    (h : compare op l r = (match Number.compare? x y with
      | some o => Except.ok o
      | none => Except.error (OperatorFault.unordered x y)).map fun o => bool (accepts op o)) :
    Tells op (.ofNumbers x y) (compare op l r) := by
  rw [h, Standing.ofNumbers]
  cases Number.compare? x y with
  | none => exact .inr ⟨rfl, _, rfl⟩
  | some o => exact .inl ⟨_, rfl, rfl⟩

/-- An operator says what the standing of its operands says, and fails where that says nothing. -/
theorem tells_compare (op : CompareOp) (l r : Value) :
    Tells op (standing l r) (compare op l r) := by
  cases l <;> cases r <;>
    first
    | exact tells_compareNil op _ _ _
    | exact tells_booleans op _ _
    | exact tells_numbers op rfl
    | exact .inl ⟨_, rfl, rfl⟩
    | exact .inr ⟨rfl, _, rfl⟩

namespace Tells

variable {op op' : CompareOp} {s s' : Standing} {r r' : Except OperatorFault Value}

theorem of_answer {b : Bool} (h : Tells op s r) (answer : s.answer? op = some b) :
    r = .ok (bool b) := by
  rcases h with ⟨b', answer', result⟩ | ⟨answer', -⟩
  · rw [answer, Option.some.injEq] at answer'
    rw [result, answer']
  · rw [answer] at answer'
    cases answer'

theorem answer_of_ok {v : Value} (h : Tells op s (.ok v)) : ∃ b, s.answer? op = some b := by
  rcases h with ⟨b, answer, -⟩ | ⟨-, e, failed⟩
  · exact ⟨b, answer⟩
  · cases failed

/-- Answers that follow from each other are given together. -/
theorem together {f : Bool → Bool} (h : Tells op s r) (h' : Tells op' s' r')
    (follows : s'.answer? op' = (s.answer? op).map f) :
    (∃ b, r = .ok (bool b) ∧ r' = .ok (bool (f b))) ∨ (∃ e, r = .error e) ∧ ∃ e, r' = .error e := by
  rcases h with ⟨b, answer, result⟩ | ⟨silent, failed⟩
  · rw [answer, Option.map_some] at follows
    exact .inl ⟨b, result, h'.of_answer follows⟩
  · rw [silent, Option.map_none] at follows
    rcases h' with ⟨b, answer, -⟩ | ⟨-, failed'⟩
    · rw [answer] at follows
      cases follows
    · exact .inr ⟨failed, failed'⟩

end Tells

/-- The operators are one relation: an operator and its opposite disagree or both fail, the orders
succeed together and make one of three cases true, and operands may change sides with the operator
mirrored. -/
theorem compare_coherent (l r : Value) :
    (∀ op, (∃ b, compare op l r = .ok (bool b) ∧ compare op.opposite l r = .ok (bool !b)) ∨
      (∃ e, compare op l r = .error e) ∧ ∃ e, compare op.opposite l r = .error e) ∧
    ((∃ v, compare .less l r = .ok v) ↔ ∃ v, compare .greater l r = .ok v) ∧
    (∀ op v, op.isEquality = false → compare op l r = .ok v →
      ∃ less equal greater, compare .less l r = .ok (bool less) ∧
        compare .equal l r = .ok (bool equal) ∧ compare .greater l r = .ok (bool greater) ∧
        [less, equal, greater].count true = 1) ∧
    (∀ op, (∃ b, compare op l r = .ok (bool b) ∧ compare op.mirror r l = .ok (bool b)) ∨
      (∃ e, compare op l r = .error e) ∧ ∃ e, compare op.mirror r l = .error e) := by
  have here := fun op => tells_compare op l r
  have back := fun op => tells_compare op r l
  have all : ∀ op v, op.isEquality = false → compare op l r = .ok v →
      ∃ o, standing l r = .ordered o := by
    intro op v order succeeds
    have given := here op
    rw [succeeds] at given
    obtain ⟨b, answer⟩ := given.answer_of_ok
    exact Standing.ordered_of_answer order answer
  have answers : ∀ o, standing l r = .ordered o → ∀ op,
      compare op l r = .ok (bool (accepts op o)) := by
    intro o ordered op
    exact (here op).of_answer (by rw [ordered]; rfl)
  refine ⟨fun op => ?_, ⟨?_, ?_⟩, ?_, fun op => ?_⟩
  · exact (here op).together (here op.opposite) (Standing.answer?_opposite op _)
  · rintro ⟨v, succeeds⟩
    obtain ⟨o, ordered⟩ := all .less v rfl succeeds
    exact ⟨_, answers o ordered .greater⟩
  · rintro ⟨v, succeeds⟩
    obtain ⟨o, ordered⟩ := all .greater v rfl succeeds
    exact ⟨_, answers o ordered .less⟩
  · intro op v order succeeds
    obtain ⟨o, ordered⟩ := all op v order succeeds
    refine ⟨_, _, _, answers o ordered .less, answers o ordered .equal,
      answers o ordered .greater, ?_⟩
    cases o <;> rfl
  · refine (here op).together (f := id) (back op.mirror) ?_
    rw [standing_swap, Standing.answer?_mirror, Option.map_id, id_eq]

/-- An integer below another one. -/
theorem compare_coherent_one_two : ∃ less equal greater,
    compare .less (int 1) (int 2) = .ok (bool less) ∧
      compare .equal (int 1) (int 2) = .ok (bool equal) ∧
      compare .greater (int 1) (int 2) = .ok (bool greater) ∧
      [less, equal, greater].count true = 1 :=
  (compare_coherent (int 1) (int 2)).2.2.1 .lessEqual (bool true) rfl rfl

end Value

end Rulebook
