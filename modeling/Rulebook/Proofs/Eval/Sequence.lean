import Mathlib
import Rulebook.Eval.Expr
import Rulebook.Proofs.Expr.Branch

/-!
# Evaluations one after another

What an evaluation does to a session is read off `runIn`. A property of evaluations that holds of
the elementary ones and is kept by sequencing holds of every expression and of every action.
-/

namespace Rulebook

/-- Only the functions that rules always have fail in this way. -/
def EvalFault.isIntrinsic : EvalFault → Bool
  | argumentCount .. | targetNotText _ | unknownTarget .. => true
  | _ => false

namespace Eval

variable {φ ω α β : Type}

/-! ## Running -/

@[simp] theorem runIn_pure (a : α) (fr : Frame) (s : Session φ ω) :
    (pure a : Eval φ ω α).runIn fr s = (.ok a, s) := rfl

theorem runIn_bind (x : Eval φ ω α) (f : α → Eval φ ω β) (fr : Frame) (s : Session φ ω) :
    (x >>= f).runIn fr s =
      match x.runIn fr s with
      | (.ok a, t) => (f a).runIn fr t
      | (.error e, t) => (.error e, t) := by
  unfold runIn
  simp only [ReaderT.run_bind, ExceptT.run_bind, StateT.run_bind]
  rcases (x.run fr).run.run s with ⟨r, t⟩
  cases r <;> rfl

theorem runIn_bind_ok {x : Eval φ ω α} {fr : Frame} {s t : Session φ ω} {a : α}
    (h : x.runIn fr s = (.ok a, t)) (f : α → Eval φ ω β) :
    (x >>= f).runIn fr s = (f a).runIn fr t := by
  rw [runIn_bind, h]

theorem runIn_bind_error {x : Eval φ ω α} {fr : Frame} {s t : Session φ ω} {e : Error}
    (h : x.runIn fr s = (.error e, t)) (f : α → Eval φ ω β) :
    (x >>= f).runIn fr s = (.error e, t) := by
  rw [runIn_bind, h]

theorem runIn_bind_eq_ok {x : Eval φ ω α} {f : α → Eval φ ω β} {fr : Frame} {s u : Session φ ω}
    {b : β} :
    (x >>= f).runIn fr s = (.ok b, u) ↔
      ∃ a t, x.runIn fr s = (.ok a, t) ∧ (f a).runIn fr t = (.ok b, u) := by
  rcases ran : x.runIn fr s with ⟨e | a, t⟩
  · rw [runIn_bind_error ran]
    simp
  · rw [runIn_bind_ok ran]
    simp

/-- A sequence ends where its first part does if that fails, and otherwise where the rest does. -/
theorem after_bind {P : Session φ ω → Prop} {x : Eval φ ω α} {f : α → Eval φ ω β} {fr : Frame}
    {s : Session φ ω} (first : P (x.runIn fr s).2)
    (rest : ∀ a t, x.runIn fr s = (.ok a, t) → P t → P ((f a).runIn fr t).2) :
    P ((x >>= f).runIn fr s).2 := by
  rcases ran : x.runIn fr s with ⟨e | a, t⟩
  · rw [ran] at first
    rwa [runIn_bind_error ran]
  · rw [ran] at first
    rw [runIn_bind_ok ran]
    exact rest a t ran first

@[simp] theorem runIn_fail (fault : EvalFault) (span : Span) (fr : Frame) (s : Session φ ω) :
    (fail fault span : Eval φ ω α).runIn fr s =
      (.error (.problem ⟨.eval fault, span, fr.rule, fr.ruleSet.source⟩), s) := rfl

@[simp] theorem runIn_throw (e : Error) (fr : Frame) (s : Session φ ω) :
    (throw e : Eval φ ω α).runIn fr s = (.error e, s) := rfl

@[simp] theorem runIn_get (fr : Frame) (s : Session φ ω) :
    (get : Eval φ ω (Session φ ω)).runIn fr s = (.ok s, s) := rfl

@[simp] theorem runIn_read (fr : Frame) (s : Session φ ω) :
    (read : Eval φ ω Frame).runIn fr s = (.ok fr, s) := rfl

@[simp] theorem runIn_modify (f : Session φ ω → Session φ ω) (fr : Frame) (s : Session φ ω) :
    (modify f : Eval φ ω PUnit).runIn fr s = (.ok ⟨⟩, f s) := rfl

@[simp] theorem runIn_inRule (name : String) (x : Eval φ ω α) (fr : Frame) (s : Session φ ω) :
    (inRule name x).runIn fr s = x.runIn { fr with rule := some name } s := rfl

theorem runIn_ofExcept {ε : Type} (fault : ε → EvalFault) (span : Span) (r : Except ε α)
    (fr : Frame) (s : Session φ ω) :
    ((ofExcept fault span r : Eval φ ω α).runIn fr s).2 = s := by
  cases r <;> rfl

theorem runIn_truth (op : LogicOp) (operand : Expr) (v : Value) (fr : Frame) (s : Session φ ω) :
    ((truth op operand v : Eval φ ω Bool).runIn fr s).2 = s := by
  cases v <;> rfl

/-! ## Properties of all evaluations -/

/-- Holds of what does not look at the session, and of a sequence if it holds of the first part and,
for each of its results that have to be reckoned with, of the rest. -/
structure Composes (Result : {α : Type} → Eval φ ω α → α → Prop)
    (P : {α : Type} → Eval φ ω α → Prop) : Prop where
  pure {α : Type} (a : α) : P (pure a : Eval φ ω α)
  fail {α : Type} (fault : EvalFault) (span : Span) :
    fault.isIntrinsic = false → P (fail fault span : Eval φ ω α)
  bind {α β : Type} {x : Eval φ ω α} {f : α → Eval φ ω β} :
    P x → (∀ a, Result x a → P (f a)) → P (x >>= f)

variable {Result : {α : Type} → Eval φ ω α → α → Prop} {P : {α : Type} → Eval φ ω α → Prop}

namespace Composes

theorem ofExcept (h : Composes Result P) {ε : Type} {fault : ε → EvalFault} (span : Span)
    (r : Except ε α) (other : ∀ e, (fault e).isIntrinsic = false) :
    P (ofExcept fault span r : Eval φ ω α) := by
  cases r with
  | ok a => exact h.pure a
  | error e => exact h.fail _ span (other e)

theorem truth (h : Composes Result P) (op : LogicOp) (operand : Expr) (v : Value) :
    P (truth op operand v : Eval φ ω Bool) := by
  cases v
  case bool b => exact h.pure b
  all_goals exact h.fail _ _ rfl

end Composes

variable [FactOps φ]

/-- Holds of reading the place that any of these expressions leads to, and of each call by a bare
name among them. -/
structure Covers (Result : {α : Type} → Eval φ ω α → α → Prop)
    (P : {α : Type} → Eval φ ω α → Prop) (es : List Expr) : Prop where
  read : ∀ e ∈ es, ∀ p, Result (place e) p → P (readPlace p : Eval φ ω Value)
  call : ∀ name args span, .call name args span ∈ es → ∀ vs, Result (values args) vs →
    P (call name vs span : Eval φ ω Value)

/-- Holds, besides, of the assignment that a statement makes. -/
structure CoversStatement (Result : {α : Type} → Eval φ ω α → α → Prop)
    (P : {α : Type} → Eval φ ω α → Prop) (a : Statement) : Prop where
  exprs : ∀ e ∈ a.exprs, Covers Result P e.nodes
  write : ∀ target value span, a = .assign target value span → ∀ v, Result (eval value) v →
    ∀ p, Result (place target) p → ∀ name origin, p.base = .fact name origin →
      P (accessFact name origin (Chain.writeFact v p.steps.reverse) : Eval φ ω Unit)

theorem Covers.mono {ds es : List Expr} (c : Covers Result P es) (sub : ds ⊆ es) :
    Covers Result P ds where
  read e mem := c.read e (sub mem)
  call name args span mem := c.call name args span (sub mem)

namespace Composes

mutual

theorem place (h : Composes Result P) :
    ∀ e : Expr, Covers Result P e.nodes → P (place e : Eval φ ω Place)
  | .literal .., _ => h.pure _
  | .ident .., _ => h.pure _
  | .unary _ operand _, c => by
    have inner : Covers Result P operand.nodes := c.mono fun _ m => .tail _ m
    exact h.bind (h.place operand inner) fun p ran =>
      h.bind (inner.read operand operand.self_mem_nodes p ran) fun v _ =>
        h.bind (h.ofExcept _ _ fun _ => rfl) fun _ _ => h.pure _
  | .arith _ l r _, c | .compare _ l r _, c => by
    have left : Covers Result P l.nodes := c.mono fun _ m => .tail _ (List.mem_append_left _ m)
    have right : Covers Result P r.nodes := c.mono fun _ m => .tail _ (List.mem_append_right _ m)
    exact h.bind (h.place l left) fun p ran =>
      h.bind (left.read l l.self_mem_nodes p ran) fun _ _ =>
        h.bind (h.place r right) fun q ran => h.bind (right.read r r.self_mem_nodes q ran) fun _ _ =>
          h.bind (h.ofExcept _ _ fun _ => rfl) fun _ _ => h.pure _
  | .logic op l r _, c => by
    have left : Covers Result P l.nodes := c.mono fun _ m => .tail _ (List.mem_append_left _ m)
    have right : Covers Result P r.nodes := c.mono fun _ m => .tail _ (List.mem_append_right _ m)
    refine h.bind (h.place l left) fun p ran => h.bind (left.read l l.self_mem_nodes p ran) fun v _ =>
      h.bind (h.truth op l v) fun b _ => ?_
    -- The right operand is not evaluated where the left one decides.
    cases decides op b with
    | true => exact h.pure _
    | false =>
      exact h.bind (h.place r right) fun q ran =>
        h.bind (right.read r r.self_mem_nodes q ran) fun w _ => h.bind (h.truth op r w)
          fun _ _ => h.pure _
  | .member object _ _, c =>
    h.bind (h.place object (c.mono fun _ m => .tail _ m)) fun _ _ => h.pure _
  | .index object key _, c => by
    have first := h.place object (c.mono fun _ m => .tail _ (List.mem_append_left _ m))
    have last : Covers Result P key.nodes := c.mono fun _ m => .tail _ (List.mem_append_right _ m)
    exact h.bind first fun _ _ => h.bind (h.place key last) fun q ran =>
      h.bind (last.read key key.self_mem_nodes q ran) fun _ _ => h.pure _
  | .call name args span, c => by
    have first := h.values args (c.mono fun _ m => .tail _ m)
    exact h.bind first fun vs ran => h.bind (c.call name args span (.head _) vs ran)
      fun _ _ => h.pure _
  | .method receiver _ args _, c => by
    have first := h.place receiver (c.mono fun _ m => .tail _ (List.mem_append_left _ m))
    have last := h.values args (c.mono fun _ m => .tail _ (List.mem_append_right _ m))
    exact h.bind first fun _ _ => h.bind last fun _ _ => h.pure _

theorem values (h : Composes Result P) :
    ∀ es : List Expr, Covers Result P (Expr.nodesOfAll es) → P (values es : Eval φ ω (List Value))
  | [], _ => h.pure _
  | e :: es, c => by
    have first : Covers Result P e.nodes := c.mono fun _ m => List.mem_append_left _ m
    have rest := h.values es (c.mono fun _ m => List.mem_append_right _ m)
    exact h.bind (h.place e first) fun p ran =>
      h.bind (first.read e e.self_mem_nodes p ran) fun _ _ => h.bind rest fun _ _ => h.pure _

end

theorem eval (h : Composes Result P) {e : Expr} (c : Covers Result P e.nodes) :
    P (eval e : Eval φ ω Value) :=
  h.bind (h.place e c) fun p ran => c.read e e.self_mem_nodes p ran

theorem condition (h : Composes Result P) {r : Rule} (c : Covers Result P r.condition.nodes) :
    P (condition r : Eval φ ω Bool) := by
  refine h.bind (h.eval c) fun v _ => ?_
  cases v
  case bool b _ => exact h.pure b
  all_goals exact h.fail _ _ rfl

theorem execute (h : Composes Result P) {a : Statement} (c : CoversStatement Result P a) :
    P (execute a : Eval φ ω Unit) := by
  cases a with
  | call e span => exact h.bind (h.eval (c.exprs e (.head _))) fun _ _ => h.pure _
  | assign target value span =>
    have inner := c.exprs target (.head _)
    refine h.bind (h.eval (c.exprs value (.tail _ (.head _)))) fun v given => ?_
    unfold assign
    split
    · exact h.fail _ _ rfl
    · refine h.bind (h.place target inner) fun p ran => ?_
      match p, ran with
      | ⟨.fact _ _, []⟩, _ => exact h.fail _ _ rfl
      | ⟨.fact name origin, step :: steps⟩, ran =>
        exact c.write target value span rfl v given _ ran name origin rfl
      | ⟨.value _, _⟩, _ => exact h.fail _ _ rfl

theorem executeAll (h : Composes Result P) {as : List Statement}
    (c : ∀ a ∈ as, CoversStatement Result P a) : P (executeAll as : Eval φ ω Unit) := by
  induction as with
  | nil => exact h.pure _
  | cons a rest ih =>
    exact h.bind (h.execute (c a (.head _))) fun _ _ => ih fun b mem => c b (.tail _ mem)

end Composes

/-- Holds of every evaluation that does not look at the session, of reading through a fact, and of
what is put together from such evaluations. -/
structure Closed (P : {α : Type} → Eval φ ω α → Prop) : Prop where
  pure {α : Type} (a : α) : P (pure a : Eval φ ω α)
  fail {α : Type} (fault : EvalFault) (span : Span) : P (fail fault span : Eval φ ω α)
  bind {α β : Type} {x : Eval φ ω α} {f : α → Eval φ ω β} : P x → (∀ a, P (f a)) → P (x >>= f)
  access (name : String) (span : Span) (steps : List Step) :
    P (accessFact name span (Chain.readFact steps) : Eval φ ω Value)

namespace Closed

/-- Whatever the first part of a sequence gives. -/
theorem composes (h : Closed P) : Composes (fun _ _ => True) P where
  pure := h.pure
  fail fault span _ := h.fail fault span
  bind hx hf := h.bind hx fun a => hf a trivial

theorem readPlace (h : Closed P) (p : Place) : P (readPlace p : Eval φ ω Value) := by
  rcases p with ⟨base, steps⟩
  cases base with
  | fact name span => exact h.access name span _
  | value v =>
    unfold Eval.readPlace
    dsimp only
    split
    · exact h.pure _
    · exact h.fail _ _

/-- Besides, the property must hold of the calls. -/
theorem covers (h : Closed P) {es : List Expr} (calls : ∀ name args span, .call name args span ∈ es →
    ∀ vs, P (call name vs span : Eval φ ω Value)) : Covers (fun _ _ => True) P es where
  read _ _ p _ := h.readPlace p
  call name args span mem vs _ := calls name args span mem vs

theorem place (h : Closed P) (e : Expr) (calls : ∀ name args span, .call name args span ∈ e.nodes →
    ∀ vs, P (call name vs span : Eval φ ω Value)) : P (place e : Eval φ ω Place) :=
  h.composes.place e (h.covers calls)

theorem eval (h : Closed P) (e : Expr) (calls : ∀ name args span, .call name args span ∈ e.nodes →
    ∀ vs, P (call name vs span : Eval φ ω Value)) : P (eval e : Eval φ ω Value) :=
  h.composes.eval (h.covers calls)

theorem condition (h : Closed P) (r : Rule)
    (calls : ∀ name args span, .call name args span ∈ r.condition.nodes →
      ∀ vs, P (call name vs span : Eval φ ω Value)) : P (condition r : Eval φ ω Bool) :=
  h.composes.condition (h.covers calls)

end Closed

end Eval

end Rulebook
