import Mathlib
import Rulebook.Proofs.Eval.Composed
import Rulebook.Proofs.Fact.Tidy

/-!
# Evaluating over tidy facts

Without host functions, and over facts that accesses do not surprise, an expression changes nothing
that another one can see, and an action leaves such facts behind.
-/

namespace Rulebook

/-! ## Operators -/

namespace Value

variable {v w r : Value}

theorem sorted_inRange {op : ArithOp} {m n : Int64} {i : Int} (h : inRange op m n i = .ok r) :
    r.Sorted := by
  unfold inRange at h
  split at h <;> cases h
  exact .int

theorem sorted_intArith {op : ArithOp} {m n : Int64} (h : intArith op m n = .ok r) : r.Sorted := by
  unfold intArith at h
  split at h
  iterate 3 exact sorted_inRange h
  · split at h
    · cases h
    · exact sorted_inRange h
  · split at h
    · cases h
    · obtain ⟨_, -, rest⟩ := bind_eq_ok_iff.mp h
      exact sorted_inRange rest

theorem sorted_finite {op : ArithOp} {x y z : Float} (h : finite op x y z = .ok r) : r.Sorted := by
  unfold finite at h
  split at h <;> cases h
  exact .float

theorem sorted_floatArith {op : ArithOp} {x y : Float} (h : floatArith op x y = .ok r) :
    r.Sorted := by
  unfold floatArith at h
  split at h
  iterate 3 exact sorted_finite h
  · split at h
    · cases h
    · exact sorted_finite h
  · cases h

theorem sorted_arith {op : ArithOp} (h : arith op v w = .ok r) : r.Sorted := by
  unfold arith at h
  split at h
  · cases h
    exact .text
  · cases h
    exact .text
  · split at h
    · split at h
      · exact sorted_intArith h
      · cases h
    · cases h
  · exact sorted_intArith h
  · split at h
    · exact sorted_floatArith h
    · cases h

theorem sorted_compareNil {op : CompareOp} {equal : Bool} (h : compareNil op v w equal = .ok r) :
    r.Sorted := by
  unfold compareNil at h
  split at h <;> cases h <;> exact .bool

theorem sorted_compare {op : CompareOp} (h : compare op v w = .ok r) : r.Sorted := by
  unfold compare at h
  split at h
  · exact sorted_compareNil h
  · exact sorted_compareNil h
  · exact sorted_compareNil h
  · obtain ⟨_, -, rfl⟩ := map_eq_ok_iff.mp h
    exact .bool

theorem sorted_unary {op : UnaryOp} (h : unary op v = .ok r) : r.Sorted := by
  cases op with
  | negate =>
    change negate v = .ok r at h
    unfold negate at h
    split at h
    · split at h <;> cases h
      exact .int
    · cases h
      exact .float
    · cases h
  | not =>
    change not v = .ok r at h
    unfold not at h
    split at h <;> cases h
    exact .bool

end Value

/-- Facts with sorted maps that accesses do not surprise, and no host functions. -/
structure Context.Tidy {ω : Type} (c : Context Fact ω) : Prop where
  sorted : Entries.Sorted c.facts
  facts : ∀ e ∈ c.facts, e.2.Tidy
  functions : c.functions = []

namespace Eval

/-! ## Evaluations that keep an invariant -/

/-- From sessions of a kind the evaluation leads to such sessions, and what it gives satisfies
`Q`. -/
def Ensures {φ ω α : Type} (I : Session φ ω → Prop) (Q : α → Prop) (x : Eval φ ω α) : Prop :=
  ∀ fr s, I s → I (x.runIn fr s).2 ∧ ∀ a, (x.runIn fr s).1 = .ok a → Q a

namespace Ensures

variable {φ ω α β : Type} {I : Session φ ω → Prop} {Q : α → Prop} {R : β → Prop}

theorem pure {a : α} (h : Q a) : Ensures I Q (pure a : Eval φ ω α) := by
  refine fun fr s kept => ⟨kept, ?_⟩
  rintro _ ⟨⟩
  exact h

theorem fail (fault : EvalFault) (span : Span) : Ensures I Q (fail fault span : Eval φ ω α) :=
  fun _ _ kept => ⟨kept, nofun⟩

theorem bind {x : Eval φ ω α} {f : α → Eval φ ω β} (hx : Ensures I Q x)
    (hf : ∀ a, Q a → Ensures I R (f a)) : Ensures I R (x >>= f) := by
  intro fr s kept
  obtain ⟨after, given⟩ := hx fr s kept
  rcases ran : x.runIn fr s with ⟨e | a, t⟩
  · rw [ran] at after
    rw [runIn_bind_error ran]
    exact ⟨after, nofun⟩
  · rw [ran] at after given
    rw [runIn_bind_ok ran]
    exact hf a (given a rfl) fr t after

theorem ofExcept {ε : Type} (fault : ε → EvalFault) (span : Span) {r : Except ε α}
    (h : ∀ a, r = .ok a → Q a) : Ensures I Q (ofExcept fault span r : Eval φ ω α) := by
  cases r with
  | ok a => exact .pure (h a rfl)
  | error e => exact .fail _ _

theorem truth (op : LogicOp) (operand : Expr) (v : Value) :
    Ensures I (fun _ => True) (truth op operand v : Eval φ ω Bool) := by
  cases v
  case bool b => exact .pure trivial
  all_goals exact .fail _ _

end Ensures

variable {ω : Type} {c : Context Fact ω}

/-- In this context only, and without changing it. -/
abbrev Within (c : Context Fact ω) {α : Type} (Q : α → Prop) (x : Eval Fact ω α) : Prop :=
  Ensures (fun s => s.context = c) Q x

/-- A place in a fact, or a value with sorted maps. -/
def Place.Sorted (p : Place) : Prop := ∀ v, p.base = .value v → v.Sorted

theorem Place.sorted_ofValue {v : Value} (h : v.Sorted) : (Place.ofValue v).Sorted := by
  rintro w ⟨⟩
  exact h

/-! ## Expressions -/

section Expressions

variable (tidy : c.Tidy)

include tidy

theorem within_readPlace {p : Place} (sorted : p.Sorted) :
    Within c Value.Sorted (readPlace p : Eval Fact ω Value) := by
  rcases p with ⟨base, steps⟩
  cases base with
  | value v =>
    unfold readPlace
    dsimp only
    split
    · next read => exact .pure ((sorted v rfl).readValue read)
    · exact .fail _ _
  | fact name span =>
    rintro fr s rfl
    have plain : ∀ e ∈ s.context.facts, e.2.Plain := fun e mem => (tidy.facts e mem).plain
    refine ⟨?_, fun v given => ?_⟩
    · exact congrArg Session.context (still_readFact tidy.sorted plain name span _)
    · obtain ⟨f, found, read⟩ := (gives_readPlace (p := ⟨.fact name span, steps⟩) rfl).mp given
      exact Chain.sorted_readFact (tidy.facts _ (Entries.mem_of_get? found)) read

theorem within_call (name : String) (args : List Value) (span : Span) :
    Within c Value.Sorted (call name args span : Eval Fact ω Value) := by
  unfold call
  cases Intrinsic.ofName? name with
  | some i =>
    refine Ensures.bind (Q := fun _ => True) (fun fr s same => ?_) fun _ _ => .pure .nil
    exact ⟨(context_callIntrinsic i args span fr s).trans same, fun _ _ => trivial⟩
  | none =>
    intro fr s same
    unfold callHost
    rw [runIn_bind_ok (runIn_get fr s), same, tidy.functions]
    exact Ensures.fail (I := fun s => s.context = c) _ _ fr s same

mutual

theorem within_place : ∀ e : Expr, Within c Place.Sorted (place e : Eval Fact ω Place)
  | .literal v _ => .pure (Place.sorted_ofValue (Value.sorted_ofLiteral v))
  | .ident .. => .pure nofun
  | .unary op operand _ =>
    (within_place operand).bind fun _ sorted => (within_readPlace tidy sorted).bind fun _ _ =>
      (Ensures.ofExcept _ _ fun _ => Value.sorted_unary).bind fun _ sorted =>
        .pure (Place.sorted_ofValue sorted)
  | .arith op l r _ =>
    (within_place l).bind fun _ sorted => (within_readPlace tidy sorted).bind fun _ _ =>
      (within_place r).bind fun _ sorted => (within_readPlace tidy sorted).bind fun _ _ =>
        (Ensures.ofExcept _ _ fun _ => Value.sorted_arith).bind fun _ sorted =>
          .pure (Place.sorted_ofValue sorted)
  | .compare op l r _ =>
    (within_place l).bind fun _ sorted => (within_readPlace tidy sorted).bind fun _ _ =>
      (within_place r).bind fun _ sorted => (within_readPlace tidy sorted).bind fun _ _ =>
        (Ensures.ofExcept _ _ fun _ => Value.sorted_compare).bind fun _ sorted =>
          .pure (Place.sorted_ofValue sorted)
  | .logic op l r _ =>
    (within_place l).bind fun _ sorted => (within_readPlace tidy sorted).bind fun _ _ =>
      (Ensures.truth op l _).bind fun b _ => by
        cases decides op b with
        | true => exact .pure (Place.sorted_ofValue .bool)
        | false =>
          exact (within_place r).bind fun _ sorted => (within_readPlace tidy sorted).bind fun _ _ =>
            (Ensures.truth op r _).bind fun _ _ => .pure (Place.sorted_ofValue .bool)
  | .member object _ _ => (within_place object).bind fun _ sorted => .pure sorted
  | .index object key _ =>
    (within_place object).bind fun _ sorted => (within_place key).bind fun _ inner =>
      (within_readPlace tidy inner).bind fun _ _ => .pure sorted
  | .call name args span =>
    (within_values args).bind fun vs _ => (within_call tidy name vs span).bind fun _ sorted =>
      .pure (Place.sorted_ofValue sorted)
  | .method receiver _ args _ =>
    (within_place receiver).bind fun _ sorted => (within_values args).bind fun _ _ => .pure sorted

theorem within_values : ∀ es : List Expr,
    Within c (fun _ => True) (values es : Eval Fact ω (List Value))
  | [] => .pure trivial
  | e :: es =>
    (within_place e).bind fun _ sorted => (within_readPlace tidy sorted).bind fun _ _ =>
      (within_values es).bind fun _ _ => .pure trivial

end

theorem within_eval (e : Expr) : Within c Value.Sorted (eval e : Eval Fact ω Value) :=
  (within_place tidy e).bind fun _ sorted => within_readPlace tidy sorted

theorem within_condition (r : Rule) :
    Within c (fun _ => True) (condition r : Eval Fact ω Bool) := by
  refine (within_eval tidy r.condition).bind fun v _ => ?_
  cases v
  case bool b => exact .pure trivial
  all_goals exact .fail _ _

end Expressions

/-! ## Actions -/

/-- What stays within every tidy context leads from tidy contexts to tidy contexts. -/
theorem Ensures.of_within {α : Type} {Q : α → Prop} {x : Eval Fact ω α}
    (h : ∀ c : Context Fact ω, c.Tidy → Within c Q x) : Ensures (fun s => s.context.Tidy) Q x := by
  intro fr s tidy
  obtain ⟨same, given⟩ := h s.context tidy fr s rfl
  have kept : (x.runIn fr s).2.context.Tidy := same.symm ▸ tidy
  exact ⟨kept, given⟩

theorem ensures_write {v : Value} (sorted : v.Sorted) (name : String) (span : Span)
    (steps : List Step) : Ensures (fun s => s.context.Tidy) (fun _ => True)
      (accessFact name span (Chain.writeFact v steps) : Eval Fact ω Unit) := by
  refine fun fr s tidy => ⟨?_, fun _ _ => trivial⟩
  unfold accessFact
  rw [runIn_bind_ok (runIn_get fr s)]
  cases found : Entries.get? s.context.facts name with
  | none => exact tidy
  | some f =>
    have inside := tidy.facts _ (Entries.mem_of_get? found)
    have written : (s.setFact name (Chain.writeFact v steps f).2).context.Tidy :=
      { sorted := Entries.sorted_insert tidy.sorted name _
        facts := Entries.forall_insert tidy.facts (Chain.tidy_writeFact inside sorted steps) name
        functions := tidy.functions }
    dsimp only
    rw [runIn_bind_ok (runIn_modify _ fr s)]
    cases (Chain.writeFact v steps f).1 <;> exact written

theorem ensures_execute (a : Statement) : Ensures (fun s => s.context.Tidy) (fun _ => True)
    (execute a : Eval Fact ω Unit) := by
  have value (e : Expr) : Ensures (fun s => s.context.Tidy) Value.Sorted (eval e : Eval Fact ω _) :=
    .of_within fun _ tidy => within_eval tidy e
  cases a with
  | call e span => exact (value e).bind fun _ _ => .pure trivial
  | assign target e span =>
    refine (value e).bind fun v sorted => ?_
    unfold assign
    split
    · exact .fail _ _
    refine Ensures.bind (.of_within fun _ tidy => within_place tidy target) fun p _ => ?_
    match p with
    | ⟨.fact name _, []⟩ => exact .fail _ _
    | ⟨.fact name origin, step :: steps⟩ => exact ensures_write sorted name origin _
    | ⟨.value _, _⟩ => exact .fail _ _

/-! ### Failures -/

/-- Over tidy facts, a failure of the evaluation leaves the context as it was. -/
def Atomic {α : Type} (x : Eval Fact ω α) : Prop :=
  ∀ fr s, s.context.Tidy → ∀ e t, x.runIn fr s = (.error e, t) → t.context = s.context

theorem Atomic.of_within {α : Type} {Q : α → Prop} {x : Eval Fact ω α}
    (h : ∀ c : Context Fact ω, c.Tidy → Within c Q x) : Atomic x := by
  intro fr s tidy e t ran
  have same := (h s.context tidy fr s rfl).1
  rwa [ran] at same

/-- What changes something comes last. -/
theorem Atomic.bind {α β : Type} {Q : α → Prop} {x : Eval Fact ω α} {f : α → Eval Fact ω β}
    (hx : ∀ c : Context Fact ω, c.Tidy → Within c Q x) (hf : ∀ a, Atomic (f a)) :
    Atomic (x >>= f) := by
  intro fr s tidy e t ran
  have same := (hx s.context tidy fr s rfl).1
  rcases first : x.runIn fr s with ⟨e' | a, u⟩
  · rw [runIn_bind_error first] at ran
    rw [first] at same
    cases ran
    exact same
  · rw [runIn_bind_ok first] at ran
    rw [first] at same
    have kept : u.context.Tidy := same.symm ▸ tidy
    exact (hf a fr u kept e t ran).trans same

theorem Atomic.fail {α : Type} (fault : EvalFault) (span : Span) :
    Atomic (fail fault span : Eval Fact ω α) := by
  rintro fr s tidy e t ⟨⟩
  rfl

theorem atomic_write (v : Value) (name : String) (span : Span) (steps : List Step) :
    Atomic (accessFact name span (Chain.writeFact v steps) : Eval Fact ω Unit) := by
  intro fr s tidy e t ran
  unfold accessFact at ran
  rw [runIn_bind_ok (runIn_get fr s)] at ran
  cases found : Entries.get? s.context.facts name with
  | none =>
    rw [found] at ran
    cases ran
    rfl
  | some f =>
    rw [found] at ran
    dsimp only at ran
    rw [runIn_bind_ok (runIn_modify _ fr s)] at ran
    rcases written : Chain.writeFact v steps f with ⟨fault | ⟨⟩, f'⟩
    · have plain : f.Plain := (tidy.facts _ (Entries.mem_of_get? found)).plain
      rw [written, Chain.writeFact_error plain written] at ran
      cases ran
      change { s.context with facts := Entries.insert s.context.facts name f } = s.context
      rw [Entries.insert_of_get? tidy.sorted found]
    · rw [written] at ran
      cases ran

/-- An action that fails has changed no fact. -/
theorem atomic_execute (a : Statement) : Atomic (execute a : Eval Fact ω Unit) := by
  cases a with
  | call e span =>
    refine .bind (fun _ tidy => within_eval tidy e) fun _ => ?_
    exact .of_within (Q := fun _ => True) fun _ _ => .pure trivial
  | assign target e span =>
    refine .bind (fun _ tidy => within_eval tidy e) fun v => ?_
    unfold assign
    split
    · exact .fail _ _
    refine .bind (fun _ tidy => within_place tidy target) fun p => ?_
    match p with
    | ⟨.fact name _, []⟩ => exact .fail _ _
    | ⟨.fact name origin, step :: steps⟩ => exact atomic_write v name origin _
    | ⟨.value _, _⟩ => exact .fail _ _

/-! ### Actions one after another -/

theorem ensures_executeAll (as : List Statement) : Ensures (fun s => s.context.Tidy)
    (fun _ => True) (executeAll as : Eval Fact ω Unit) := by
  induction as with
  | nil => exact .pure trivial
  | cons a rest ih => exact (ensures_execute a).bind fun _ _ => ih

end Eval

end Rulebook
