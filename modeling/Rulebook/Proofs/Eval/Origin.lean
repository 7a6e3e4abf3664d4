import Mathlib
import Rulebook.Proofs.Eval.Failure
import Rulebook.Proofs.Eval.Moments

/-!
# Where failures come from

Whatever fails while an expression is evaluated fails at the span of an expression in it. A place
takes the spans of its base and its steps with it until it is read.
-/

namespace Rulebook

/-! ## Chains -/

namespace Chain

variable {φ : Type} {S : Span → Prop} {steps : List Step} {e : StepFault}

theorem readValue_span {v : Value} (all : ∀ step ∈ steps, S step.span)
    (h : readValue steps v = .error e) : S e.span := by
  induction steps generalizing v with
  | nil => cases h
  | cons step rest ih =>
    obtain ⟨here, there⟩ := List.forall_mem_cons.mp all
    unfold readValue at h
    split at h
    · exact ih there h
    · cases h
      exact here

variable [FactOps φ]

theorem readFact_span {f : φ} (all : ∀ step ∈ steps, S step.span)
    (h : (readFact steps f).1 = .error e) : S e.span := by
  induction steps generalizing f with
  | nil => cases h
  | cons step rest ih =>
    obtain ⟨here, there⟩ := List.forall_mem_cons.mp all
    unfold readFact at h
    split at h
    · exact ih there h
    · split at h
      · exact readValue_span there h
      · cases h
        exact here

end Chain

/-- The links of a chain, the last one first, and what they start from. -/
def Expr.chain : Expr → List Expr
  | e@(.member object _ _) | e@(.index object _ _) | e@(.method object _ _ _) => e :: object.chain
  | e => [e]

namespace Eval

variable {φ ω α β : Type} {set : RuleSet} {S : Span → Prop}

/-- Whatever fails does so at one of these spans. -/
abbrev FailsAt (set : RuleSet) (S : Span → Prop) (x : Eval φ ω α) : Prop :=
  FailsOnly set (fun _ span => S span) x

namespace Base

/-- The span of a fact's name is that of a base. -/
def InSpans (S : Span → Prop) : Base → Prop
  | .fact _ span => S span
  | .value _ => True

end Base

/-- The spans of the base and of all steps. -/
structure Place.InSpans (S : Span → Prop) (p : Place) : Prop where
  base : p.base.InSpans S
  steps : ∀ step ∈ p.steps, S step.span

namespace Place.InSpans

theorem ofValue (v : Value) : (Place.ofValue v).InSpans S := ⟨trivial, by simp [Place.ofValue]⟩

theorem step {p : Place} (h : p.InSpans S) (link : Link) {span : Span} (at_span : S span) :
    (p.step link span).InSpans S :=
  ⟨h.base, List.forall_mem_cons.mpr ⟨at_span, h.steps⟩⟩

end Place.InSpans

/-! ### Accesses and calls -/

namespace FailsAt

variable {span : Span}

theorem ofExcept {ε : Type} (at_span : S span) (fault : ε → EvalFault) (r : Except ε α) :
    FailsAt set S (ofExcept fault span r : Eval φ ω α) := by
  cases r with
  | ok a => exact .pure a
  | error e => exact .fail at_span

theorem accessFact {access : φ → Except StepFault α × φ} (name : String) (at_span : S span)
    (faults : ∀ f e, (access f).1 = .error e → S e.span) :
    FailsAt set S (accessFact name span access : Eval φ ω α) := by
  refine .get_bind fun s => ?_
  split
  · exact .get_bind fun _ => .fail at_span
  · next f _ =>
    refine .modify_bind ?_
    rcases result : (access f).1 with e | a
    · simp only
      exact .fail (faults f e result)
    · exact .pure a

theorem call (name : String) (args : List Value) (at_span : S span) :
    FailsAt set S (call name args span : Eval φ ω Value) := by
  unfold Eval.call
  split
  · next i _ =>
    refine .bind ?_ fun _ _ => .pure _
    unfold callIntrinsic
    split
    · exact FailsOnly.log _
    · exact FailsOnly.retract _ fun _ _ => at_span
    · exact FailsOnly.complete span
    · exact .fail at_span
  · refine .get_bind fun s => ?_
    split
    · exact .fail at_span
    · exact .modify_bind (.get_bind fun _ => .modify_bind (ofExcept at_span _ _))

theorem truth {operand : Expr} (at_span : S operand.span) (op : LogicOp) (v : Value) :
    FailsAt set S (truth op operand v : Eval φ ω Bool) := by
  cases v with
  | bool b => exact .pure b
  | _ => exact .fail at_span

end FailsAt

/-! ### From one session -/

/-- From `s`, whatever fails is a problem of the rule at hand at one of these spans. -/
def FailsFrom (fr : Frame) (s : Session φ ω) (S : Span → Prop) (x : Eval φ ω α) : Prop :=
  ∀ e t, x.runIn fr s = (.error e, t) →
    ∃ fault span, e = .problem ⟨.eval fault, span, fr.rule, fr.ruleSet.source⟩ ∧ S span

theorem FailsAt.from {fr : Frame} {x : Eval φ ω α} (h : FailsAt fr.ruleSet S x) (s : Session φ ω) :
    FailsFrom fr s S x := h fr.rule s

namespace FailsFrom

variable {fr : Frame} {s : Session φ ω} {x : Eval φ ω α} {f : α → Eval φ ω β}

theorem pure (a : α) : FailsFrom fr s S (pure a : Eval φ ω α) := fun _ _ ran => nomatch ran

theorem bind (hx : FailsFrom fr s S x)
    (hf : ∀ a t, x.runIn fr s = (.ok a, t) → FailsFrom fr t S (f a)) :
    FailsFrom fr s S (x >>= f) := by
  intro e u ran
  rcases first : x.runIn fr s with ⟨e' | a, t⟩
  · rw [runIn_bind_error first] at ran
    cases ran
    exact hx _ _ first
  · rw [runIn_bind_ok first] at ran
    exact hf a t first e u ran

end FailsFrom

/-! ### Places -/

variable [FactOps φ]

/-- A place takes its spans from the chain that leads to it. -/
theorem places_inSpans : ∀ e : Expr, (∀ n ∈ e.chain, S n.span) →
    GivesOnly (Place.InSpans S) (place e : Eval φ ω Place)
  | .literal .., _ => .pure (.ofValue _)
  | .ident .., all => .pure ⟨all _ (.head _), by simp⟩
  | .unary .., _ => .rest fun _ => .rest fun _ => .rest fun _ => .pure (.ofValue _)
  | .arith .., _ | .compare .., _ =>
    .rest fun _ => .rest fun _ => .rest fun _ => .rest fun _ => .rest fun _ => .pure (.ofValue _)
  | .logic op _ _ _, _ => .rest fun _ => .rest fun _ => .rest fun b => by
    cases decides op b with
    | true => exact .pure (.ofValue _)
    | false => exact .rest fun _ => .rest fun _ => .rest fun _ => .pure (.ofValue _)
  | .member object _ _, all => by
    obtain ⟨here, inner⟩ := List.forall_mem_cons.mp all
    exact (places_inSpans object inner).bind fun _ p => .pure (p.step _ here)
  | .index object key _, all => by
    obtain ⟨here, inner⟩ := List.forall_mem_cons.mp all
    exact (places_inSpans object inner).bind fun _ p => .rest fun _ => .rest fun _ =>
      .pure (p.step _ here)
  | .call .., _ => .rest fun _ => .rest fun _ => .pure (.ofValue _)
  | .method receiver _ _ _, all => by
    obtain ⟨here, inner⟩ := List.forall_mem_cons.mp all
    exact (places_inSpans receiver inner).bind fun _ p => .rest fun _ => .pure (p.step _ here)

theorem FailsAt.readPlace {p : Place} (spans : p.InSpans S) :
    FailsAt set S (readPlace p : Eval φ ω Value) := by
  obtain ⟨base, steps⟩ := p
  obtain ⟨origin, linked⟩ := spans
  have all : ∀ step ∈ steps.reverse, S step.span := fun step mem =>
    linked step (List.mem_reverse.mp mem)
  unfold Eval.readPlace
  cases base with
  | fact name span => exact accessFact name origin fun f e fails => Chain.readFact_span all fails
  | value v =>
    simp only
    split
    · exact .pure _
    · next fails => exact .fail (Chain.readValue_span all fails)

mutual

/-- The expressions that an evaluation gets to, each before its parts. -/
def walked (fr : Frame) : Expr → Session φ ω → List Expr
  | e@(.literal ..), _ | e@(.ident ..), _ => [e]
  | e@(.unary _ operand _), s => e :: walked fr operand s
  | e@(.arith _ l r _), s | e@(.compare _ l r _), s =>
    e :: (walked fr l s ++ after (eval l) fr s fun _ t => walked fr r t)
  | e@(.logic op l r _), s =>
    e :: (walked fr l s ++ after (do truth op l (← eval l)) fr s fun b t =>
      if decides op b then [] else walked fr r t)
  | e@(.member object _ _), s => e :: walked fr object s
  | e@(.index object key _), s =>
    e :: (walked fr object s ++ after (place object) fr s fun _ t => walked fr key t)
  | e@(.call _ args _), s => e :: walkedAll fr args s
  | e@(.method receiver _ args _), s =>
    e :: (walked fr receiver s ++ after (place receiver) fr s fun _ t => walkedAll fr args t)

/-- The expressions that evaluating a list gets to. -/
def walkedAll (fr : Frame) : List Expr → Session φ ω → List Expr
  | [], _ => []
  | e :: es, s => walked fr e s ++ after (eval e) fr s fun _ t => walkedAll fr es t

end

/-- The expressions that an action gets to. Where the target starts with no fact, only its chain is
looked at. -/
def walkedIn (fr : Frame) : Statement → Session φ ω → List Expr
  | .assign target value _, s =>
    walked fr value s ++ after (eval value) fr s fun _ t =>
      if target.root?.isNone then target.chain else walked fr target t
  | .call e _, s => walked fr e s

section Walked

variable {fr : Frame}

omit [FactOps φ] in
theorem append_after_subset {γ : Type} {as cs ds : List γ} {next : α → Session φ ω → List γ}
    {x : Eval φ ω α} {s : Session φ ω} (first : as ⊆ cs) (rest : ∀ a t, next a t ⊆ ds) :
    as ++ after x fr s next ⊆ cs ++ ds := by
  refine List.append_subset.mpr ⟨List.subset_append_of_subset_left _ first, ?_⟩
  unfold after
  split
  · exact List.subset_append_of_subset_right _ (rest _ _)
  · exact List.nil_subset _

theorem chain_subset_walked : ∀ (e : Expr) (s : Session φ ω), e.chain ⊆ walked fr e s
  | .literal .., _ | .ident .., _ => List.Subset.refl _
  | .unary .., _ | .arith .., _ | .compare .., _ | .logic .., _ | .call .., _ =>
    List.cons_subset_cons _ (List.nil_subset _)
  | .member object _ _, s => List.cons_subset_cons _ (chain_subset_walked object s)
  | .index object _ _, s | .method object _ _ _, s =>
    List.cons_subset_cons _ (List.subset_append_of_subset_left _ (chain_subset_walked object s))

mutual

theorem walked_subset : ∀ (e : Expr) (s : Session φ ω), walked fr e s ⊆ e.nodes
  | .literal .., _ | .ident .., _ => List.Subset.refl _
  | .unary _ operand _, s => List.cons_subset_cons _ (walked_subset operand s)
  | .arith _ l r _, s | .compare _ l r _, s =>
    List.cons_subset_cons _ (append_after_subset (walked_subset l s) fun _ t => walked_subset r t)
  | .logic op l r _, s => by
    refine List.cons_subset_cons _ (append_after_subset (walked_subset l s) fun b t => ?_)
    split
    · exact List.nil_subset _
    · exact walked_subset r t
  | .member object _ _, s => List.cons_subset_cons _ (walked_subset object s)
  | .index object key _, s => by
    have first := walked_subset object s
    exact List.cons_subset_cons _ (append_after_subset first fun _ t => walked_subset key t)
  | .call _ args _, s => List.cons_subset_cons _ (walkedAll_subset args s)
  | .method receiver _ args _, s => by
    have first := walked_subset receiver s
    exact List.cons_subset_cons _ (append_after_subset first fun _ t => walkedAll_subset args t)

theorem walkedAll_subset : ∀ (es : List Expr) (s : Session φ ω),
    walkedAll fr es s ⊆ Expr.nodesOfAll es
  | [], _ => List.Subset.refl _
  | e :: es, s => append_after_subset (walked_subset e s) fun _ t => walkedAll_subset es t

end

end Walked

/-! ## Failures at what is walked -/

namespace FailsFrom

variable {fr : Frame} {s : Session φ ω}

/-- The place that an expression leads to is read. -/
theorem eval_of_place {e : Expr} (all : ∀ n ∈ walked fr e s, S n.span)
    (h : FailsFrom fr s S (place e : Eval φ ω Place)) :
    FailsFrom fr s S (eval e : Eval φ ω Value) := by
  have chain : ∀ n ∈ e.chain, S n.span := fun n mem => all n (chain_subset_walked e s mem)
  refine .bind h fun p t ran => ?_
  exact (FailsAt.readPlace (places_inSpans e chain fr s p t ran)).from t

/-- An operand must have a truth value. -/
theorem truth_of_eval {e : Expr} (at_span : S e.span)
    (h : FailsFrom fr s S (eval e : Eval φ ω Value)) (op : LogicOp) :
    FailsFrom fr s S (do truth op e (← eval e) : Eval φ ω Bool) :=
  .bind h fun v t _ => (FailsAt.truth at_span op v).from t

end FailsFrom

variable {fr : Frame}

theorem self_mem_walked (e : Expr) (s : Session φ ω) : e ∈ walked fr e s := by
  cases e <;> exact .head _

mutual

theorem failsFrom_place : ∀ (e : Expr) (s : Session φ ω), (∀ n ∈ walked fr e s, S n.span) →
    FailsFrom fr s S (place e : Eval φ ω Place)
  | .literal .., _, _ | .ident .., _, _ => .pure _
  | .unary _ operand _, s, all => by
    obtain ⟨here, inner⟩ := List.forall_mem_cons.mp all
    unfold place
    rw [eval_bind]
    exact .bind (.eval_of_place inner (failsFrom_place operand s inner)) fun _ t _ =>
      .bind ((FailsAt.ofExcept here _ _).from t) fun _ _ _ => .pure _
  | .arith _ l r _, s, all | .compare _ l r _, s, all => by
    obtain ⟨here, inner⟩ := List.forall_mem_cons.mp all
    obtain ⟨left, right⟩ := List.forall_mem_append.mp inner
    unfold place
    rw [eval_bind]
    refine .bind (.eval_of_place left (failsFrom_place l s left)) fun _ t ran => ?_
    rw [after_ok ran] at right
    rw [eval_bind]
    exact .bind (.eval_of_place right (failsFrom_place r t right)) fun _ u _ =>
      .bind ((FailsAt.ofExcept here _ _).from u) fun _ _ _ => .pure _
  | .logic op l r _, s, all => by
    obtain ⟨-, inner⟩ := List.forall_mem_cons.mp all
    obtain ⟨left, right⟩ := List.forall_mem_append.mp inner
    have first := FailsFrom.eval_of_place left (failsFrom_place l s left)
    unfold place
    rw [eval_bind, ← bind_assoc]
    refine .bind (.truth_of_eval (left l (self_mem_walked l s)) first op) fun b t ran => ?_
    rw [after_ok ran] at right
    -- The right operand is not walked where the left one decides.
    cases decided : decides op b with
    | true => exact .pure _
    | false =>
      rw [decided, if_neg Bool.false_ne_true] at right
      have last := FailsFrom.eval_of_place right (failsFrom_place r t right)
      rw [if_neg Bool.false_ne_true, eval_bind, ← bind_assoc]
      exact .bind (.truth_of_eval (right r (self_mem_walked r t)) last op) fun _ _ _ => .pure _
  | .member object _ _, s, all => by
    obtain ⟨-, inner⟩ := List.forall_mem_cons.mp all
    exact .bind (failsFrom_place object s inner) fun _ _ _ => .pure _
  | .index object key _, s, all => by
    obtain ⟨-, inner⟩ := List.forall_mem_cons.mp all
    obtain ⟨left, right⟩ := List.forall_mem_append.mp inner
    unfold place
    refine .bind (failsFrom_place object s left) fun _ t ran => ?_
    rw [after_ok ran] at right
    rw [eval_bind]
    exact .bind (.eval_of_place right (failsFrom_place key t right)) fun _ _ _ => .pure _
  | .call name args _, s, all => by
    obtain ⟨here, inner⟩ := List.forall_mem_cons.mp all
    exact .bind (failsFrom_values args s inner) fun vs t _ =>
      .bind ((FailsAt.call name vs here).from t) fun _ _ _ => .pure _
  | .method receiver _ args _, s, all => by
    obtain ⟨-, inner⟩ := List.forall_mem_cons.mp all
    obtain ⟨left, right⟩ := List.forall_mem_append.mp inner
    refine .bind (failsFrom_place receiver s left) fun _ t ran => ?_
    rw [after_ok ran] at right
    exact .bind (failsFrom_values args t right) fun _ _ _ => .pure _

theorem failsFrom_values : ∀ (es : List Expr) (s : Session φ ω),
    (∀ n ∈ walkedAll fr es s, S n.span) → FailsFrom fr s S (values es : Eval φ ω (List Value))
  | [], _, _ => .pure _
  | e :: es, s, all => by
    obtain ⟨first, rest⟩ := List.forall_mem_append.mp all
    unfold values
    rw [eval_bind]
    refine .bind (.eval_of_place first (failsFrom_place e s first)) fun _ t ran => ?_
    rw [after_ok ran] at rest
    exact .bind (failsFrom_values es t rest) fun _ _ _ => .pure _

end

end Eval

end Rulebook
