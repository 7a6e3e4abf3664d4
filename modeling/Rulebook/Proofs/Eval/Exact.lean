import Mathlib
import Rulebook.Fact.Provided
import Rulebook.Proofs.Eval.Sequence

/-!
# Exact arithmetic

An expression of integers alone comes to a whole number that no range bounds, unless it divides by
zero. The evaluator has 64 bits for each number on the way. It gives the whole number as long as
every one of them fits, and otherwise stops at the first operator that cannot go on.
-/

namespace Rulebook

/-! ## Without a range -/

/-- What an operator comes to. Division and remainder truncate toward zero. -/
def ArithOp.amount? (op : ArithOp) (m n : Int) : Option Int :=
  match op with
  | .add => some (m + n)
  | .subtract => some (m - n)
  | .multiply => some (m * n)
  | .divide => if n = 0 then none else some (m.tdiv n)
  | .modulo => if n = 0 then none else some (m.tmod n)

namespace Expr

/-- Integers, minus signs and the five operators. -/
inductive Whole : Expr → Prop
  | literal (n : Int64) (span : Span) : Whole (.literal (.int n) span)
  | negate {e : Expr} (span : Span) : Whole e → Whole (.unary .negate e span)
  | arith {l r : Expr} (op : ArithOp) (span : Span) : Whole l → Whole r → Whole (.arith op l r span)

/-- What an expression of integers comes to. -/
def amount? : Expr → Option Int
  | .literal (.int n) _ => some n.toInt
  | .unary .negate e _ => e.amount?.map (- ·)
  | .arith op l r _ => do op.amount? (← l.amount?) (← r.amount?)
  | _ => none

/-- The operands from left to right, and then the operator that joins them. -/
def postorder : Expr → List Expr
  | e@(.unary _ operand _) => operand.postorder ++ [e]
  | e@(.arith _ l r _) | e@(.compare _ l r _) | e@(.logic _ l r _) =>
    l.postorder ++ (r.postorder ++ [e])
  | e => [e]

end Expr

/-! ## What 64 bits refuse -/

namespace Number

/-- Outside the range of 64 bits. -/
def Beyond (n : Int) : Prop := n < Int64.minValue.toInt ∨ Int64.maxValue.toInt < n

theorem beyond_iff {n : Int} : Beyond n ↔ toInt64? n = none := by
  have least : Int64.minValue.toInt = -0x8000000000000000 := rfl
  have greatest : Int64.maxValue.toInt = 0x7FFFFFFFFFFFFFFF := rfl
  unfold Beyond toInt64?
  rw [least, greatest, ite_eq_right_iff]
  constructor
  · intro out within
    omega
  · intro out
    by_contra within
    exact absurd (out (by omega)) (Option.some_ne_none _)

theorem not_beyond_toInt (n : Int64) : ¬ Beyond n.toInt := by
  rw [beyond_iff, toInt64?_toInt]
  exact Option.some_ne_none _

end Number

/-- An operator that cannot go on with two numbers of 64 bits, and what it says. -/
inductive ArithOp.Refuses : ArithOp → Int → Int → OperatorFault → Prop
  | division (m : Int) : Refuses .divide m 0 .divisionByZero
  | remainder (m : Int) : Refuses .modulo m 0 .moduloByZero
  | overflow {op : ArithOp} {m n k : Int} (value : op.amount? m n = some k)
    (out : Number.Beyond k) : Refuses op m n (.overflow op (.ofInt m) (.ofInt n))
  | least : Refuses .modulo Int64.minValue.toInt (-1) (.overflow .modulo .minValue (-1))

/-- An operator whose operands come to something that it cannot go on with. -/
inductive Expr.Offends : Expr → OperatorFault → Prop
  | arith {op : ArithOp} {l r : Expr} {span : Span} {m n : Int} {fault : OperatorFault}
    (left : l.amount? = some m) (right : r.amount? = some n) (refused : op.Refuses m n fault) :
    Offends (.arith op l r span) fault
  | negate {e : Expr} {span : Span} {n : Int} (value : e.amount? = some n)
    (out : Number.Beyond (-n)) : Offends (.unary .negate e span) (.negationOverflow (.ofInt n))

/-- An operator that goes on. -/
def Expr.Sound (e : Expr) : Prop := ∀ fault, ¬ e.Offends fault

/-- The first operator of an expression that cannot go on. -/
def Expr.FirstOffence (e node : Expr) (fault : OperatorFault) : Prop :=
  ∃ before after, e.postorder = before ++ node :: after ∧ (∀ b ∈ before, b.Sound) ∧
    node.Offends fault

namespace ArithOp.Refuses

variable {op : ArithOp} {m n : Int} {fault other : OperatorFault}

theorem of_toInt64? {l r : Int64} {k : Int} (value : op.amount? l.toInt r.toInt = some k)
    (out : Number.toInt64? k = none) : op.Refuses l.toInt r.toInt (.overflow op l r) := by
  have refused := overflow value (Number.beyond_iff.mpr out)
  rwa [Int64.ofInt_toInt, Int64.ofInt_toInt] at refused

/-- There is one thing to say. -/
theorem unique (h : op.Refuses m n fault) (h' : op.Refuses m n other) : fault = other := by
  rcases h with _ | _ | ⟨value, out⟩ | _ <;> rcases h' with _ | _ | ⟨value', out'⟩ | _
  all_goals first | rfl | simp [ArithOp.amount?] at value | simp [ArithOp.amount?] at value'

end ArithOp.Refuses

/-! ## Two numbers -/

namespace Number

variable (m n : Int64)

/-- No quotient but one is farther from zero than what is divided. -/
theorem beyond_tdiv_iff (nonzero : n.toInt ≠ 0) :
    Beyond (m.toInt.tdiv n.toInt) ↔ m.toInt = Int64.minValue.toInt ∧ n.toInt = -1 := by
  have least : Int64.minValue.toInt = -0x8000000000000000 := rfl
  have greatest : Int64.maxValue.toInt = 0x7FFFFFFFFFFFFFFF := rfl
  have low := m.le_toInt
  have high := m.toInt_lt
  unfold Beyond
  rw [least, greatest]
  constructor
  · intro out
    by_cases unit : n.toInt.natAbs = 1
    · rcases Int.natAbs_eq_iff.mp unit with one | one <;> rw [one, Nat.cast_one] at out
      · rw [Int.tdiv_one] at out
        omega
      · rw [Int.tdiv_neg, Int.tdiv_one] at out
        omega
    · have size : (m.toInt.tdiv n.toInt).natAbs = m.toInt.natAbs / n.toInt.natAbs :=
        Int.natAbs_tdiv ..
      have half : m.toInt.natAbs / n.toInt.natAbs ≤ m.toInt.natAbs / 2 :=
        Nat.div_le_div_left (by omega) (by omega)
      omega
  · rintro ⟨first, second⟩
    rw [first, second]
    decide

end Number

namespace ArithOp

variable {op : ArithOp} {m n : Int64}

/-- A result that fits is refused in one case only. -/
theorem not_refuses {k : Int64} (value : op.amount? m.toInt n.toInt = some k.toInt)
    (other : ¬ (op = .modulo ∧ m.toInt = Int64.minValue.toInt ∧ n.toInt = -1))
    (fault : OperatorFault) : ¬ op.Refuses m.toInt n.toInt fault := by
  intro refused
  generalize at_m : m.toInt = a, at_n : n.toInt = b at *
  cases refused with
  | division _ => simp [amount?] at value
  | remainder _ => simp [amount?] at value
  | overflow value' out =>
    rw [value, Option.some.injEq] at value'
    rw [← value'] at out
    exact Number.not_beyond_toInt k out
  | least => exact other ⟨rfl, rfl, rfl⟩

end ArithOp

namespace Value

/-- What an operator has for two integers: all that there is to it, or what refuses it. -/
def Settles (op : ArithOp) (m n : Int64) (r : Except OperatorFault Value) : Prop :=
  (∃ k : Int64, r = .ok (int k) ∧ op.amount? m.toInt n.toInt = some k.toInt ∧
    ∀ fault, ¬ op.Refuses m.toInt n.toInt fault) ∨
  ∃ fault, r = .error fault ∧ op.Refuses m.toInt n.toInt fault

variable {op : ArithOp} {m n : Int64}

theorem settles_inRange {k : Int} (value : op.amount? m.toInt n.toInt = some k)
    (other : ¬ (op = .modulo ∧ m.toInt = Int64.minValue.toInt ∧ n.toInt = -1)) :
    Settles op m n (inRange op m n k) := by
  unfold inRange
  split
  · next i within =>
    have same := Number.toInt_of_toInt64? within
    rw [← same] at value
    exact .inl ⟨i, rfl, value, ArithOp.not_refuses value other⟩
  · next out => exact .inr ⟨_, rfl, .of_toInt64? value out⟩

theorem settles_intArith (op : ArithOp) (m n : Int64) : Settles op m n (intArith op m n) := by
  cases op with
  | add => exact settles_inRange rfl (by simp)
  | subtract => exact settles_inRange rfl (by simp)
  | multiply => exact settles_inRange rfl (by simp)
  | divide =>
    unfold intArith
    by_cases zero : n.toInt = 0
    · refine .inr ⟨.divisionByZero, if_pos zero, ?_⟩
      rw [zero]
      exact .division _
    · simp only
      rw [if_neg zero]
      exact settles_inRange (if_neg zero) (by simp)
  | modulo =>
    unfold intArith
    by_cases zero : n.toInt = 0
    · refine .inr ⟨.moduloByZero, if_pos zero, ?_⟩
      rw [zero]
      exact .remainder _
    · simp only
      rw [if_neg zero]
      by_cases least : m.toInt = Int64.minValue.toInt ∧ n.toInt = -1
      · -- the quotient is out of range, and the remainder is not looked at
        have out := Number.beyond_iff.mp ((Number.beyond_tdiv_iff m n zero).mpr least)
        obtain rfl : m = .minValue := Int64.toInt_inj.mp least.1
        obtain rfl : n = -1 := Int64.toInt_inj.mp least.2
        exact .inr ⟨.overflow .modulo .minValue (-1), by rw [inRange, out]; rfl, .least⟩
      · have fits := mt (Number.beyond_tdiv_iff m n zero).mp least
        obtain ⟨q, quotient⟩ := Option.ne_none_iff_exists'.mp (mt Number.beyond_iff.mpr fits)
        have first : inRange .modulo m n (m.toInt.tdiv n.toInt) = .ok (int q) := by
          rw [inRange, quotient]
        rw [first]
        exact settles_inRange (if_neg zero) (by tauto)

theorem settles_arith (op : ArithOp) (m n : Int64) :
    Settles op m n (arith op (int m) (int n)) := by
  have same : arith op (int m) (int n) = intArith op m n := by cases op <;> rfl
  rw [same]
  exact settles_intArith op m n

end Value

/-! ## Expressions -/

namespace Expr

theorem sound_literal (v : Literal) (span : Span) : (literal v span).Sound := fun _ h => nomatch h

namespace FirstOffence

variable {e node other : Expr} {fault fault' : OperatorFault}

/-- An offence in the operand that is looked at after `before`. -/
theorem inside {operand : Expr} (before after : List Expr)
    (split : e.postorder = before ++ (operand.postorder ++ after)) (sound : ∀ b ∈ before, b.Sound)
    (h : operand.FirstOffence node fault) : e.FirstOffence node fault := by
  obtain ⟨first, rest, eq, earlier, offends⟩ := h
  refine ⟨before ++ first, rest ++ after, ?_, List.forall_mem_append.mpr ⟨sound, earlier⟩, offends⟩
  rw [split, eq]
  simp

theorem not_sound (h : e.FirstOffence node fault) : ¬ ∀ n ∈ e.postorder, n.Sound := by
  obtain ⟨before, after, eq, -, offends⟩ := h
  intro all
  exact all node (eq ▸ List.mem_append_right _ (.head _)) fault offends

end FirstOffence

theorem Offends.unique {e : Expr} {fault fault' : OperatorFault} (h : e.Offends fault)
    (h' : e.Offends fault') : fault = fault' := by
  cases h with
  | arith left right refused =>
    obtain ⟨left', right', refused'⟩ := h'
    rw [left, Option.some.injEq] at left'
    rw [right, Option.some.injEq] at right'
    subst left' right'
    exact refused.unique refused'
  | negate value out =>
    cases h' with
    | negate value' _ =>
      rw [value, Option.some.injEq] at value'
      rw [value']

theorem FirstOffence.unique {e node node' : Expr} {fault fault' : OperatorFault}
    (h : e.FirstOffence node fault) (h' : e.FirstOffence node' fault') :
    node = node' ∧ fault = fault' := by
  obtain ⟨before, after, eq, sound, offends⟩ := h
  obtain ⟨before', after', eq', sound', offends'⟩ := h'
  rw [eq] at eq'
  have same : node = node' := by
    rcases List.append_eq_append_iff.mp eq' with ⟨more, rfl, rest⟩ | ⟨more, rfl, rest⟩
    · cases more with
      | nil => exact (List.cons.inj rest).1
      | cons m more =>
        obtain ⟨rfl, -⟩ := List.cons.inj rest
        exact absurd offends (sound' node (by simp) fault)
    · cases more with
      | nil => exact (List.cons.inj rest).1.symm
      | cons m more =>
        obtain ⟨rfl, -⟩ := List.cons.inj rest
        exact absurd offends' (sound node' (by simp) fault')
  subst same
  exact ⟨rfl, offends.unique offends'⟩

end Expr

namespace Eval

variable {φ ω : Type} [FactOps φ]

theorem eval_unary (op : UnaryOp) (e : Expr) (span : Span) :
    (eval (.unary op e span) : Eval φ ω Value) =
      (do ofExcept .operator span (Value.unary op (← eval e))) := by
  unfold eval
  rw [place]
  simp only [bind_assoc, pure_bind]
  exact bind_congr fun p => bind_congr fun v => bind_pure _

theorem eval_arith (op : ArithOp) (l r : Expr) (span : Span) :
    (eval (.arith op l r span) : Eval φ ω Value) =
      (do
        let a ← eval l
        let b ← eval r
        ofExcept .operator span (Value.arith op a b)) := by
  unfold eval
  rw [place]
  simp only [bind_assoc, pure_bind]
  exact bind_congr fun p => bind_congr fun v => bind_congr fun q => bind_congr fun w => bind_pure _

/-- An expression comes to its number with no offence, or stops at the first one. The session stays
as it was. -/
def Comes (fr : Frame) (s : Session φ ω) (e : Expr) : Prop :=
  (∃ n : Int64, (eval e).runIn fr s = (.ok (.int n), s) ∧ e.amount? = some n.toInt ∧
    ∀ node ∈ e.postorder, node.Sound) ∨
  ∃ node fault, e.FirstOffence node fault ∧ (eval e).runIn fr s =
    (.error (.problem ⟨.eval (.operator fault), node.span, fr.rule, fr.ruleSet.source⟩), s)

variable {fr : Frame} {s : Session φ ω}

theorem comes_negate {e : Expr} (span : Span) (h : Comes fr s e) :
    Comes fr s (.unary .negate e span) := by
  unfold Comes
  rw [eval_unary]
  rcases h with ⟨n, ran, value, sound⟩ | ⟨node, fault, first, ran⟩
  · rw [runIn_bind_ok ran]
    have comes : (Expr.unary .negate e span).amount? = some (-n.toInt) := by
      rw [Expr.amount?, value]; rfl
    rcases fits : Number.toInt64? (-n.toInt) with _ | m
    · have offends : (Expr.unary .negate e span).Offends (.negationOverflow (.ofInt n.toInt)) :=
        .negate value (Number.beyond_iff.mpr fits)
      rw [Int64.ofInt_toInt] at offends
      refine .inr ⟨_, _, ⟨e.postorder, [], rfl, sound, offends⟩, ?_⟩
      simp [Value.unary, Value.negate, fits, ofExcept, Expr.span]
    · have same := Number.toInt_of_toInt64? fits
      refine .inl ⟨m, by simp [Value.unary, Value.negate, fits, ofExcept], by rw [comes, same], ?_⟩
      refine List.forall_mem_append.mpr ⟨sound, List.forall_mem_singleton.mpr ?_⟩
      intro fault offends
      cases offends with
      | negate value' out =>
        rw [value, Option.some.injEq] at value'
        subst value'
        rw [← same] at out
        exact Number.not_beyond_toInt m out
  · rw [runIn_bind_error ran]
    exact .inr ⟨node, fault, first.inside [] _ rfl (by simp), rfl⟩

theorem comes_arith {l r : Expr} (op : ArithOp) (span : Span) (hl : Comes fr s l)
    (hr : Comes fr s r) : Comes fr s (.arith op l r span) := by
  unfold Comes
  rw [eval_arith]
  rcases hl with ⟨m, ran, left, sound⟩ | ⟨node, fault, first, ran⟩
  · rw [runIn_bind_ok ran]
    rcases hr with ⟨n, ran', right, sound'⟩ | ⟨node, fault, first, ran'⟩
    · rw [runIn_bind_ok ran']
      have comes : (Expr.arith op l r span).amount? = op.amount? m.toInt n.toInt := by
        rw [Expr.amount?, left, right]; rfl
      rcases Value.settles_arith op m n with ⟨k, result, value, accepts⟩ | ⟨fault, result, refused⟩
      · rw [result]
        refine .inl ⟨k, rfl, comes.trans value, ?_⟩
        refine List.forall_mem_append.mpr ⟨sound, List.forall_mem_append.mpr ⟨sound', ?_⟩⟩
        refine List.forall_mem_singleton.mpr fun fault => ?_
        rintro ⟨left', right', refused⟩
        rw [left, Option.some.injEq] at left'
        rw [right, Option.some.injEq] at right'
        subst left' right'
        exact accepts fault refused
      · rw [result]
        refine .inr ⟨_, fault, ⟨l.postorder ++ r.postorder, [], ?_, ?_, .arith left right refused⟩,
          rfl⟩
        · exact (List.append_assoc ..).symm
        · exact List.forall_mem_append.mpr ⟨sound, sound'⟩
    · rw [runIn_bind_error ran']
      exact .inr ⟨node, fault, first.inside _ _ rfl sound, rfl⟩
  · rw [runIn_bind_error ran]
    exact .inr ⟨node, fault, first.inside [] _ rfl (by simp), rfl⟩

theorem comes {e : Expr} (h : e.Whole) (fr : Frame) (s : Session φ ω) : Comes fr s e := by
  induction h with
  | literal n span =>
    exact .inl ⟨n, rfl, rfl, List.forall_mem_singleton.mpr (Expr.sound_literal _ _)⟩
  | negate span _ ih => exact comes_negate span ih
  | arith op span _ _ left right => exact comes_arith op span left right

/-- An expression of integers gives a value exactly where no operator offends, and then the whole
number that it comes to; otherwise the first offence in postorder is what it fails with, at the
span of that operator. -/
theorem eval_whole {e : Expr} (h : e.Whole) (fr : Frame) (s : Session φ ω) :
    ((∃ v t, (eval e).runIn fr s = (.ok v, t)) ↔ ∀ node ∈ e.postorder, node.Sound) ∧
    (∀ v t, (eval e).runIn fr s = (.ok v, t) →
      t = s ∧ ∃ n : Int64, v = .int n ∧ e.amount? = some n.toInt) ∧
    (∀ p t, (eval e).runIn fr s = (.error p, t) ↔
      t = s ∧ ∃ node fault, e.FirstOffence node fault ∧
        p = .problem ⟨.eval (.operator fault), node.span, fr.rule, fr.ruleSet.source⟩) := by
  rcases comes h fr s with ⟨n, ran, value, sound⟩ | ⟨node, fault, first, ran⟩
  · rw [ran]
    refine ⟨⟨fun _ => sound, fun _ => ⟨_, _, rfl⟩⟩, ?_, fun p t => ⟨nofun, ?_⟩⟩
    · rintro v t ⟨⟩
      exact ⟨rfl, n, rfl, value⟩
    · rintro ⟨-, node, fault, first, -⟩
      exact absurd sound first.not_sound
  · rw [ran]
    refine ⟨⟨nofun, fun sound => absurd sound first.not_sound⟩, nofun, fun p t => ⟨?_, ?_⟩⟩
    · rintro ⟨⟩
      exact ⟨rfl, node, fault, first, rfl⟩
    · rintro ⟨rfl, node', fault', first', rfl⟩
      obtain ⟨rfl, rfl⟩ := first.unique first'
      rfl

/-- The least integer by minus one. -/
def leastRemainder : Expr :=
  .arith .modulo (.literal (.int .minValue) ⟨1, 21, 1, 2⟩) (.literal (.int (-1)) ⟨24, 26, 1, 25⟩)
    ⟨0, 27, 1, 1⟩

/-- The division by zero around the remainder is not the first offence. -/
theorem eval_whole_least_remainder :
    let e : Expr := .arith .divide leastRemainder (.literal (.int 0) ⟨30, 31, 1, 31⟩) ⟨0, 31, 1, 1⟩
    let fr : Frame := { ruleSet := { name := "", version := "", text := "", rules := [] } }
    let s : Session Fact Unit := .start { facts := [], world := () } #[]
    e.Whole ∧ (eval e).runIn fr s = (.error (.problem
      ⟨.eval (.operator (.overflow .modulo .minValue (-1))), ⟨0, 27, 1, 1⟩, none,
        fr.ruleSet.source⟩), s) := by
  intro e fr s
  have whole : e.Whole :=
    .arith _ _ (.arith _ _ (.literal ..) (.literal ..)) (.literal ..)
  have first : e.FirstOffence leastRemainder (.overflow .modulo .minValue (-1)) := by
    refine ⟨[_, _], _, rfl, ?_, .arith rfl rfl .least⟩
    simp only [List.forall_mem_cons]
    exact ⟨Expr.sound_literal _ _, Expr.sound_literal _ _, nofun⟩
  exact ⟨whole, ((eval_whole whole fr s).2.2 _ _).mpr ⟨rfl, leastRemainder, _, first, rfl⟩⟩

end Eval

end Rulebook
