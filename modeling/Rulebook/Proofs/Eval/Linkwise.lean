import Mathlib
import Rulebook.Proofs.Eval.Sequence
import Rulebook.Proofs.Expr.Links
import Rulebook.Proofs.Grammar.Derivation

/-!
# Evaluating link by link

Expressions and statements evaluated once more, by taking chains apart: first the base, then the key
or the arguments of one link after the other. Nothing in this says that an evaluation ends, and a
chain may turn out to be malformed: an assignment finds no link, or a call as the last one, or what
stands behind a base is no link at all. That ends everything, with an outcome that no error of an
evaluation is.

None of it ever happens to an expression, nor to a statement whose target is a member or an element.
-/

namespace Rulebook

/-- How a chain can be malformed. -/
inductive Malformed where
  | emptyPath
  | assignedCall
  | notLink (e : Expr)

/-- An evaluation that may find a malformed chain, or never end. -/
abbrev Linkwise (φ ω α : Type) :=
  ReaderT Frame (ExceptT Error (StateT (Session φ ω) (ExceptT Malformed Option))) α

namespace Linkwise

variable {φ ω α β : Type}

def malformed (m : Malformed) : Linkwise φ ω α := fun _ => ExceptT.mk fun _ => throw m

/-- An evaluation that ends, and finds no malformed chain. -/
def lift (x : Eval φ ω α) : Linkwise φ ω α :=
  fun frame => ExceptT.mk fun s => pure (x.runIn frame s)

/-- Evaluates on its own, with the session that results. -/
def on (x : Linkwise φ ω α) (frame : Frame) (s : Session φ ω) :
    Option (Except Malformed (Except Error α × Session φ ω)) :=
  ((x.run frame).run.run s).run

/-- Evaluates as part of a rule. -/
def inRule (name : String) (x : Linkwise φ ω α) : Linkwise φ ω α :=
  withReader (fun frame => { frame with rule := some name }) x

/-! ## Lifting -/

section

variable {fr : Frame} {s t : Session φ ω}

theorem on_lift (x : Eval φ ω α) (fr : Frame) (s : Session φ ω) :
    (lift x).on fr s = some (.ok (x.runIn fr s)) := rfl

theorem on_bind_ok {x : Linkwise φ ω α} {a : α} (h : x.on fr s = some (.ok (.ok a, t)))
    (f : α → Linkwise φ ω β) : (x >>= f).on fr s = (f a).on fr t := by
  unfold on at h ⊢
  simp only [ReaderT.run_bind, ExceptT.run_bind, StateT.run_bind]
  rw [Option.bind_eq_bind, h]
  rfl

theorem on_bind_error {x : Linkwise φ ω α} {e : Error} (h : x.on fr s = some (.ok (.error e, t)))
    (f : α → Linkwise φ ω β) : (x >>= f).on fr s = some (.ok (.error e, t)) := by
  unfold on at h ⊢
  simp only [ReaderT.run_bind, ExceptT.run_bind, StateT.run_bind]
  rw [Option.bind_eq_bind, h]
  rfl

theorem lift_pure (a : α) : (lift (pure a) : Linkwise φ ω α) = pure a := rfl

theorem lift_bind (x : Eval φ ω α) (f : α → Eval φ ω β) :
    lift (x >>= f) = lift x >>= fun a => lift (f a) := by
  funext fr
  refine ExceptT.ext (funext fun s => ?_)
  change (lift (x >>= f)).on fr s = (lift x >>= fun a => lift (f a)).on fr s
  have first := on_lift x fr s
  rcases ran : x.runIn fr s with ⟨e | a, t⟩ <;> rw [ran] at first
  · rw [on_bind_error first, on_lift, Eval.runIn_bind_error ran]
  · rw [on_bind_ok first, on_lift, on_lift, Eval.runIn_bind_ok ran]

theorem lift_read : (lift read : Linkwise φ ω Frame) = read := rfl

theorem lift_get : (lift get : Linkwise φ ω (Session φ ω)) = get := rfl

theorem lift_modify (f : Session φ ω → Session φ ω) :
    (lift (modify f) : Linkwise φ ω PUnit) = modify f := rfl

theorem lift_inRule (name : String) (x : Eval φ ω α) :
    lift (Eval.inRule name x) = inRule name (lift x) := rfl

end

end Linkwise

/-! ## Expressions -/

namespace Expr

open Linkwise (lift malformed)

variable {φ ω : Type} [FactOps φ]

mutual

/-- The value of an expression. -/
def linkwise (e : Expr) : Linkwise φ ω Value :=
  match e with
  | .literal v _ => return .ofLiteral v
  | .call name args span => do
    let vs ← args.mapM fun arg => arg |>.linkwise
    lift (Eval.call name vs span)
  | .unary op operand span => do
    let v ← operand |>.linkwise
    lift (Eval.ofExcept .operator span (Value.unary op v))
  | .arith op left right span => do
    let l ← left |>.linkwise
    let r ← right |>.linkwise
    lift (Eval.ofExcept .operator span (Value.arith op l r))
  | .compare op left right span => do
    let l ← left |>.linkwise
    let r ← right |>.linkwise
    lift (Eval.ofExcept .operator span (Value.compare op l r))
  | .logic op left right _ => do
    let l ← left |>.linkwise
    let l ← lift (Eval.truth op left l)
    if Eval.decides op l then return .bool l
    else
      let r ← right |>.linkwise
      let r ← lift (Eval.truth op right r)
      return .bool r
  | chain => do
    let p ← chain |>.located
    lift (Eval.readPlace p)
partial_fixpoint

/-- The place that a chain leads to. -/
def located (e : Expr) : Linkwise φ ω Eval.Place := do
  let (base, links) := e.split
  let origin ← base |>.origin
  let steps ← links.mapM fun link => link |>.step
  return ⟨origin, steps.reverse⟩
partial_fixpoint

def origin (base : Expr) : Linkwise φ ω Eval.Base :=
  match base with
  | .ident name span => return .fact name span
  | other => do
    let v ← other |>.linkwise
    return .value v
partial_fixpoint

def step (link : Expr) : Linkwise φ ω Step :=
  match link with
  | .member _ name span => return ⟨.member name, span⟩
  | .index _ key span => do
    let k ← key |>.linkwise
    return ⟨.index k, span⟩
  | .method _ name args span => do
    let vs ← args.mapM fun arg => arg |>.linkwise
    return ⟨.call name vs, span⟩
  | other => malformed (.notLink other)
partial_fixpoint

end

/-! ### Never a malformed chain -/

open Linkwise Eval

variable {e object : Expr}

theorem located_of_base (h : e.object? = none) (other : ∀ name span, e ≠ .ident name span) :
    (e.located : Linkwise φ ω Place) = do return .ofValue (← e.linkwise) := by
  have base : (e.origin : Linkwise φ ω Base) = do return .value (← e.linkwise) := by
    rw [origin.eq_def]
    split
    · next name span => exact absurd rfl (other name span)
    · rfl
  rw [located.eq_def, split_of_base h]
  simp [base, Place.ofValue]

theorem located_of_link (h : e.object? = some object) :
    (e.located : Linkwise φ ω Place) = do
      let p ← object.located
      let step ← e.step
      return p.step step.link step.span := by
  rw [located.eq_def e, split_of_link h, located.eq_def object]
  simp [Place.step]

theorem linkwise_eq_read (e : Expr) :
    (e.linkwise : Linkwise φ ω Value) = e.located >>= fun p => lift (readPlace p) := by
  cases e
  case ident | member | index | method => rw [linkwise.eq_def]
  all_goals
    rw [located_of_base rfl (by simp), bind_assoc]
    simp only [pure_bind]
    exact (bind_pure _).symm

theorem linkwise_eq_lift (h : (e.located : Linkwise φ ω Place) = lift (place e)) :
    (e.linkwise : Linkwise φ ω Value) = lift (eval e) := by
  rw [linkwise_eq_read, h, eval, lift_bind]

-- over the trees of both evaluators: one takes a chain apart first, the other goes down its objects
mutual

theorem located_eq : ∀ e : Expr, (e.located : Linkwise φ ω Place) = lift (place e)
  | .literal v s => by
    rw [located_of_base rfl (by simp), linkwise.eq_def]
    rfl
  | .ident name s => by
    rw [located.eq_def, split_of_base rfl]
    simp only [origin.eq_def]
    rfl
  | .unary op operand s => by
    rw [located_of_base rfl (by simp), linkwise.eq_def, place]
    simp only [linkwise_eq_lift (located_eq operand), eval, lift_bind, bind_assoc, lift_pure]
  | .arith op left right s | .compare op left right s => by
    rw [located_of_base rfl (by simp), linkwise.eq_def, place]
    simp only [linkwise_eq_lift (located_eq left), linkwise_eq_lift (located_eq right), eval,
      lift_bind, bind_assoc, lift_pure]
  | .logic op left right s => by
    rw [located_of_base rfl (by simp), linkwise.eq_def, place]
    simp only [linkwise_eq_lift (located_eq left), linkwise_eq_lift (located_eq right), eval,
      lift_bind, bind_assoc]
    refine bind_congr fun p => bind_congr fun v => bind_congr fun l => ?_
    split
    · rfl
    · simp only [lift_bind, bind_assoc, pure_bind, lift_pure]
  | .member object name s => by
    rw [located_of_link rfl, located_eq object, step.eq_def, place, lift_bind]
    rfl
  | .index object key s => by
    rw [located_of_link rfl, located_eq object, step.eq_def, place]
    simp only [linkwise_eq_lift (located_eq key), eval, lift_bind, bind_assoc, pure_bind, lift_pure]
  | .call name args s => by
    rw [located_of_base rfl (by simp), linkwise.eq_def, place]
    simp only [linkwise_args args, lift_bind, bind_assoc, lift_pure]
  | .method receiver name args s => by
    rw [located_of_link rfl, located_eq receiver, step.eq_def, place]
    simp only [linkwise_args args, lift_bind, bind_assoc, pure_bind, lift_pure]

theorem linkwise_args : ∀ args : List Expr,
    (args.mapM linkwise : Linkwise φ ω (List Value)) = lift (values args)
  | [] => rfl
  | e :: es => by
    rw [List.mapM_cons, values]
    simp only [linkwise_eq_lift (located_eq e), linkwise_args es, eval, lift_bind, bind_assoc,
      lift_pure]

end

theorem linkwise_eq (e : Expr) : (e.linkwise : Linkwise φ ω Value) = lift (eval e) :=
  linkwise_eq_lift (located_eq e)

end Expr

namespace Linkwise

variable {φ ω α β : Type} [FactOps φ]

/-! ## Assignments -/

/-- Navigates to the owner of the last link and assigns there. -/
def writeFact (v : Value) : List Step → φ → Except Malformed (Except StepFault Unit × φ)
  | [], _ => .error .emptyPath
  | [⟨.call .., _⟩], _ => .error .assignedCall
  | [step], f => .ok (Chain.writeFact v [step] f)
  | step :: rest, f =>
    match Chain.part? f step.link with
    | some (part, put) => (writeFact v rest part).map fun (result, part) => (result, put part)
    | none => .ok (.error ⟨Chain.blocked f step.link, step.span⟩, f)

def write (name : String) (span : Span) (v : Value) (steps : List Step) : Linkwise φ ω Unit := do
  match Entries.get? (← get).context.facts name with
  | none => lift (Eval.unknownFact name span)
  | some f =>
    match writeFact v steps f with
    | .error m => malformed m
    | .ok (result, f) =>
      modify (·.setFact name f)
      match result with
      | .ok () => return
      | .error e => lift (Eval.fail (.access e.error) e.span)

def assign (target : Expr) (v : Value) : Linkwise φ ω Unit :=
  match target.split with
  | (.ident _ _, []) => malformed .emptyPath
  | (.ident name span, links) => do
    let steps ← links.mapM Expr.step
    write name span v steps
  | _ => lift (Eval.fail (.assignElsewhere target) target.span)

/-! ### Never a malformed target -/

section

open Rulebook.Expr Grammar

variable {target : Expr} {last : Step}

theorem writeFact_concat (owned : ∀ name args, last.link ≠ .call name args) (v : Value)
    (front : List Step) (f : φ) :
    writeFact v (front ++ [last]) f = .ok (Chain.writeFact v (front ++ [last]) f) := by
  induction front generalizing f with
  | nil =>
    obtain ⟨link, span⟩ := last
    cases link with
    | member | index => rfl
    | call name args => exact absurd rfl (owned name args)
  | cons step front ih =>
    obtain ⟨next, rest, more⟩ : ∃ next rest, front ++ [last] = next :: rest :=
      List.exists_cons_of_ne_nil (by simp)
    rw [List.cons_append, more, writeFact, Chain.writeFact, ← more]
    · cases Chain.part? f step.link with
      | none => rfl
      | some part => simp only [ih, Except.map]
    all_goals simp

theorem write_concat (owned : ∀ name args, last.link ≠ .call name args) (name : String)
    (span : Span) (v : Value) (front : List Step) :
    (write name span v (front ++ [last]) : Linkwise φ ω Unit) =
      lift (Eval.accessFact name span (Chain.writeFact v (front ++ [last]))) := by
  unfold write Eval.accessFact
  rw [lift_bind, lift_get]
  refine bind_congr fun s => ?_
  cases Entries.get? s.context.facts name with
  | none => rfl
  | some f =>
    simp only [writeFact_concat owned, lift_bind, lift_modify]
    refine bind_congr fun _ => ?_
    rcases (Chain.writeFact v (front ++ [last]) f).1 with e | ⟨⟩ <;> rfl

/-- The last step to a member or an element is no call. -/
theorem step_bind_congr (place : isPlace target) {f g : Step → Linkwise φ ω β}
    (same : ∀ step : Step, (∀ name args, step.link ≠ .call name args) → f step = g step) :
    target.step >>= f = target.step >>= g := by
  rw [step.eq_def]
  cases target <;> first | exact place.elim | skip
  case member object name span =>
    simp only [pure_bind]
    exact same _ (by simp)
  case index object key span =>
    simp only [bind_assoc, pure_bind]
    exact bind_congr fun k => same _ (by simp)

theorem assign_elsewhere (root : target.root? = none) (v : Value) :
    (assign target v : Linkwise φ ω Unit) = lift (Eval.assign target v) := by
  have noFact (name span links) : target.split ≠ (.ident name span, links) := by
    intro split
    rw [root?_eq_some_iff.mpr ⟨span, congrArg Prod.fst split⟩] at root
    cases root
  unfold assign Eval.assign
  rw [root, Option.isNone_none, if_pos rfl]
  split
  · next split => exact (noFact _ _ _ split).elim
  · next split => exact (noFact _ _ _ split).elim
  · rfl

theorem assign_eq (place : isPlace target) (v : Value) :
    (assign target v : Linkwise φ ω Unit) = lift (Eval.assign target v) := by
  cases root : target.root? with
  | none => exact assign_elsewhere root v
  | some name =>
    obtain ⟨span, base⟩ := root?_eq_some_iff.mp root
    obtain ⟨object, link⟩ := exists_object_of_isPlace place
    have split : target.split = (.ident name span, object.split.2 ++ [target]) := by
      rw [← base, split_of_link link]
    unfold assign Eval.assign
    rw [root, if_neg (by simp), lift_bind, ← located_eq, located.eq_def, split]
    simp only [origin.eq_def, List.mapM_append, List.mapM_cons, List.mapM_nil, bind_assoc,
      pure_bind, List.reverse_concat]
    split
    · next split => simp at split
    · next split =>
      cases split
      simp only [List.mapM_append, List.mapM_cons, List.mapM_nil, bind_assoc, pure_bind]
      refine bind_congr fun front => step_bind_congr place fun last owned => ?_
      rw [write_concat owned, ← List.reverse_concat, List.reverse_reverse]
    · next none => exact absurd rfl (none _ _ _)

-- a bare name is no place, and nothing in the source of a rule assigns to one
example (v : Value) : (assign (.ident "F" {}) v : Linkwise φ ω Unit) = malformed .emptyPath := rfl

end

/-! ## Statements -/

def execute : Statement → Linkwise φ ω Unit
  | .assign target right _ => do
    let v ← right.linkwise
    assign target v
  | .call e _ => do
    let _ ← e.linkwise

def executeAll : List Statement → Linkwise φ ω Unit
  | [] => return
  | a :: rest => do
    execute a
    executeAll rest

def condition (r : Rule) : Linkwise φ ω Bool := do
  match ← r.condition.linkwise with
  | .bool b => return b
  | other => lift (Eval.fail (.condition other) r.condition.span)

theorem execute_eq {a : Statement} (h : a.WellFormed) :
    (execute a : Linkwise φ ω Unit) = lift (Eval.execute a) := by
  cases a with
  | assign target right span =>
    unfold execute Eval.execute
    simp only [Expr.linkwise_eq, assign_eq h.2.1, lift_bind]
  | call e span =>
    unfold execute Eval.execute
    simp only [Expr.linkwise_eq, lift_bind, lift_pure]

theorem executeAll_eq {actions : List Statement} (h : ∀ a ∈ actions, a.WellFormed) :
    (executeAll actions : Linkwise φ ω Unit) = lift (Eval.executeAll actions) := by
  induction actions with
  | nil => rfl
  | cons a rest ih =>
    obtain ⟨first, others⟩ := List.forall_mem_cons.mp h
    unfold executeAll Eval.executeAll
    rw [execute_eq first, ih others, lift_bind]

theorem condition_eq (r : Rule) :
    (condition r : Linkwise φ ω Bool) = lift (Eval.condition r) := by
  unfold condition Eval.condition
  rw [Expr.linkwise_eq, lift_bind]
  refine bind_congr fun v => ?_
  cases v <;> rfl

end Linkwise

end Rulebook
