import Mathlib
import Rulebook.Proofs.Eval.Given
import Rulebook.Proofs.Eval.Trace

/-!
# The moments of an evaluation

The moments of an evaluation are the sessions right after each access to a fact and each call by a
bare name, in order; together with the session at the start they are all sessions that the
evaluation passes through. Each comes from the one before it by an elementary change, and the last
is the session at the end.
-/

namespace Rulebook

namespace Eval

variable {φ ω α β γ : Type} {fr : Frame}

/-! ## Putting moments together -/

/-- What comes after an evaluation, if that succeeds. -/
def after (x : Eval φ ω α) (fr : Frame) (s : Session φ ω) (next : α → Session φ ω → List γ) :
    List γ :=
  match x.runIn fr s with
  | (.ok a, t) => next a t
  | (.error _, _) => []

theorem after_ok {x : Eval φ ω α} {s t : Session φ ω} {a : α}
    (h : x.runIn fr s = (.ok a, t)) (next : α → Session φ ω → List γ) :
    after x fr s next = next a t := by
  unfold after; rw [h]

theorem after_error {x : Eval φ ω α} {s t : Session φ ω} {e : Error}
    (h : x.runIn fr s = (.error e, t)) (next : α → Session φ ω → List γ) :
    after x fr s next = [] := by
  unfold after; rw [h]

/-- The moment right after an elementary evaluation. -/
def once (x : Eval φ ω α) (fr : Frame) (s : Session φ ω)
    (call : Option (String × List Value) := none) : Moment φ ω :=
  ⟨(x.runIn fr s).2, call⟩

/-- From every session `moments` leads to where `x` ends, by changes as `R` allows them. -/
def Leads (R : Session φ ω → Option (String × List Value) → Session φ ω → Prop) (fr : Frame)
    (x : Eval φ ω α) (moments : Session φ ω → List (Moment φ ω)) : Prop :=
  ∀ s, Trace R s (moments s) (x.runIn fr s).2

/-- From every session `moments` leads to where `x` ends, by what accesses and calls can do. -/
abbrev Passes (fr : Frame) (x : Eval φ ω α) (moments : Session φ ω → List (Moment φ ω)) : Prop :=
  Leads (Change fr.ruleSet) fr x moments

namespace Leads

variable {R : Session φ ω → Option (String × List Value) → Session φ ω → Prop}
  {x : Eval φ ω α} {f : α → Eval φ ω β}
  {ms : Session φ ω → List (Moment φ ω)} {ns : α → Session φ ω → List (Moment φ ω)}

theorem once {call : Option (String × List Value)}
    (h : ∀ s, R s call (x.runIn fr s).2) :
    Leads R fr x fun s => [Eval.once x fr s call] := fun s => .one (h s)

/-- Evaluations that change nothing have no moments. -/
theorem still (h : ∀ s, (x.runIn fr s).2 = s) : Leads R fr x fun _ => [] := by
  intro s
  rw [h s]
  exact .none s

theorem bind (h : Leads R fr x ms) (k : ∀ a, Leads R fr (f a) (ns a)) :
    Leads R fr (x >>= f) fun s => ms s ++ after x fr s ns := by
  intro s
  have first := h s
  rcases hx : x.runIn fr s with ⟨r, t⟩
  rw [hx] at first
  cases r with
  | ok a =>
    simp only [after_ok hx, runIn_bind_ok hx]
    exact first.append (k a t)
  | error e =>
    simp only [after_error hx, runIn_bind_error hx, List.append_nil]
    exact first

theorem bind_still (h : Leads R fr x ms) (k : ∀ a s, ((f a).runIn fr s).2 = s) :
    Leads R fr (x >>= f) ms := by
  intro s
  have first := h s
  rcases hx : x.runIn fr s with ⟨r, t⟩
  rw [hx] at first
  cases r with
  | ok a => rw [runIn_bind_ok hx, k]; exact first
  | error e => rw [runIn_bind_error hx]; exact first

theorem get_bind {g : Session φ ω → Eval φ ω β}
    (h : ∀ s, Trace R s (ms s) ((g s).runIn fr s).2) : Leads R fr (get >>= g) ms := by
  intro s
  rw [runIn_bind_ok (runIn_get fr s)]
  exact h s

end Leads

/-- The calls among moments are all of these names. -/
def OnlyCalls (ms : List (Moment φ ω)) (allowed : String → Prop) : Prop :=
  ∀ m ∈ ms, ∀ name args, m.call = some (name, args) → allowed name

/-- The calls among moments are all allowed with their arguments. -/
def AllCalls (ms : List (Moment φ ω)) (allowed : String → List Value → Prop) : Prop :=
  ∀ m ∈ ms, ∀ name args, m.call = some (name, args) → allowed name args

namespace AllCalls

variable {m : Moment φ ω} {ms ns : List (Moment φ ω)} {allowed : String → List Value → Prop}

theorem nil : AllCalls ([] : List (Moment φ ω)) allowed := by
  intro m mem
  cases mem

theorem append (h : AllCalls ms allowed) (k : AllCalls ns allowed) :
    AllCalls (ms ++ ns) allowed := by
  intro m mem
  rcases List.mem_append.mp mem with mem | mem
  · exact h m mem
  · exact k m mem

theorem single (h : ∀ name args, m.call = some (name, args) → allowed name args) :
    AllCalls [m] allowed := by
  intro n mem
  obtain rfl := List.mem_singleton.mp mem
  exact h

/-- A moment that is no call. -/
theorem quiet (h : m.call = none) : AllCalls [m] allowed := by
  refine single fun name args call => ?_
  rw [h] at call
  cases call

theorem cons_quiet (h : m.call = none) (k : AllCalls ms allowed) : AllCalls (m :: ms) allowed :=
  (quiet h).append k

theorem after {x : Eval φ ω α} {s : Session φ ω} {next : α → Session φ ω → List (Moment φ ω)}
    (h : ∀ a t, x.runIn fr s = (.ok a, t) → AllCalls (next a t) allowed) :
    AllCalls (Eval.after x fr s next) allowed := by
  unfold Eval.after
  split
  · next ran => exact h _ _ ran
  · exact nil

end AllCalls

/-! ## Calls and accesses -/

theorem change_retract (target : Value) (span : Span) (s : Session φ ω) :
    Change fr.ruleSet s (some ("Retract", [target]))
      ((retract target span : Eval φ ω Unit).runIn fr s).2 := by
  unfold retract
  rw [runIn_bind_ok (runIn_read fr s)]
  cases target
  case text name =>
    dsimp only
    split
    · next i h => exact .retract h
    · next h =>
      refine .around (.refl s) (by simp) ?_
      rintro _ ⟨⟩
      exact h
  all_goals exact .around (.refl s) (by simp) (by simp)

theorem change_callIntrinsic (i : Intrinsic) (args : List Value) (span : Span)
    (s : Session φ ω) :
    Change fr.ruleSet s (some (i.name, args))
      ((callIntrinsic i args span : Eval φ ω Unit).runIn fr s).2 := by
  match i, args with
  | .log, args =>
    exact .around ⟨s.context, _, rfl⟩ (by simp [Intrinsic.name]) (by simp [Intrinsic.name])
  | .retract, [target] => exact change_retract target span s
  | .retract, [] | .retract, _ :: _ :: _ =>
    exact .around (.refl s) (by simp [Intrinsic.name]) (by simp)
  | .complete, [] => exact .complete
  | .complete, _ :: _ => exact .around (.refl s) (by simp) (by simp [Intrinsic.name])

theorem change_callHost (name : String) (args : List Value) (span : Span)
    (host : Intrinsic.ofName? name = none) (s : Session φ ω) :
    Change fr.ruleSet s (some (name, args))
      ((callHost name args span : Eval φ ω Value).runIn fr s).2 := by
  have other : some (name, args) ≠ some ("Complete", []) := by
    rintro ⟨⟩
    cases host
  have stray (target : String) (call : some (name, args) = some ("Retract", [.text target])) :
      fr.ruleSet.position? target = none := by
    cases call
    cases host
  unfold callHost
  rw [runIn_bind_ok (runIn_get fr s)]
  split
  · exact .around (.refl s) other stray
  · next f _ =>
    simp only [runIn_bind, runIn_modify, runIn_get, runIn_ofExcept]
    exact .around ⟨{ s.context with world := (f args s.context.world).2 },
      s.events.push (.called name args), rfl⟩ other stray

theorem change_call (name : String) (args : List Value) (span : Span) (s : Session φ ω) :
    Change fr.ruleSet s (some (name, args))
      ((call name args span : Eval φ ω Value).runIn fr s).2 := by
  unfold call
  cases h : Intrinsic.ofName? name with
  | none => exact change_callHost name args span h s
  | some i =>
    have change : Change fr.ruleSet s (some (i.name, args))
        ((callIntrinsic i args span : Eval φ ω Unit).runIn fr s).2 :=
      change_callIntrinsic i args span s
    rw [← Intrinsic.eq_name_of_ofName? h] at change
    dsimp only
    rw [runIn_bind]
    split
    · next eq => rw [eq] at change; exact change
    · next eq => rw [eq] at change; exact change

theorem runIn_accessFact (fr : Frame) (name : String) (span : Span)
    (access : φ → Except StepFault α × φ) (s : Session φ ω) :
    ∃ c, ((accessFact name span access : Eval φ ω α).runIn fr s).2 = { s with context := c } := by
  unfold accessFact
  rw [runIn_bind_ok (runIn_get fr s)]
  split
  · exact ⟨s.context, rfl⟩
  · next f _ =>
    rcases access f with ⟨r, f'⟩
    cases r <;> exact ⟨_, rfl⟩

theorem change_accessFact (name : String) (span : Span) (access : φ → Except StepFault α × φ)
    (s : Session φ ω) :
    Change fr.ruleSet s none ((accessFact name span access : Eval φ ω α).runIn fr s).2 := by
  obtain ⟨c, h⟩ := runIn_accessFact fr name span access s
  rw [h]
  exact .around ⟨c, s.events, rfl⟩ (by simp) (by simp)

variable [FactOps φ]

theorem change_readPlace (p : Place) (s : Session φ ω) :
    Change fr.ruleSet s none ((readPlace p : Eval φ ω Value).runIn fr s).2 := by
  rcases p with ⟨base, steps⟩
  cases base with
  | fact name span => exact change_accessFact name span _ s
  | value v =>
    have : ((readPlace ⟨.value v, steps⟩ : Eval φ ω Value).runIn fr s).2 = s := by
      unfold readPlace
      dsimp only
      split <;> rfl
    rw [this]
    exact .around (.refl s) (by simp) (by simp)

/-! ## Expressions -/

/-- Reading an expression, once the place that it leads to is known. -/
def readMoments (fr : Frame) (e : Expr) (s : Session φ ω) : List (Moment φ ω) :=
  after (place e) fr s fun p t => [once (readPlace p) fr t]

mutual

/-- The moments of `Eval.place`. -/
def placeMoments (fr : Frame) : Expr → Session φ ω → List (Moment φ ω)
  | .literal .., _ | .ident .., _ => []
  | .unary _ operand _, s => placeMoments fr operand s ++ readMoments fr operand s
  | .arith _ l r _, s | .compare _ l r _, s =>
    placeMoments fr l s ++ readMoments fr l s
      ++ after (eval l) fr s fun _ t => placeMoments fr r t ++ readMoments fr r t
  | .logic op l r _, s =>
    placeMoments fr l s ++ readMoments fr l s
      ++ after (do truth op l (← eval l)) fr s fun b t =>
        if decides op b then [] else placeMoments fr r t ++ readMoments fr r t
  | .member object _ _, s => placeMoments fr object s
  | .index object key _, s =>
    placeMoments fr object s
      ++ after (place object) fr s fun _ t => placeMoments fr key t ++ readMoments fr key t
  | .call name args span, s =>
    valuesMoments fr args s
      ++ after (values args) fr s fun vs t => [once (call name vs span) fr t (some (name, vs))]
  | .method receiver _ args _, s =>
    placeMoments fr receiver s
      ++ after (place receiver) fr s fun _ t => valuesMoments fr args t

/-- The moments of `Eval.values`. -/
def valuesMoments (fr : Frame) : List Expr → Session φ ω → List (Moment φ ω)
  | [], _ => []
  | e :: es, s =>
    placeMoments fr e s ++ readMoments fr e s
      ++ after (eval e) fr s fun _ t => valuesMoments fr es t

end

/-- The moments of `Eval.eval`. -/
def moments (fr : Frame) (e : Expr) (s : Session φ ω) : List (Moment φ ω) :=
  placeMoments fr e s ++ readMoments fr e s

theorem passes_eval_of_place {e : Expr} (h : Passes fr (place e : Eval φ ω Place) (placeMoments fr e)) :
    Passes fr (eval e : Eval φ ω Value) (moments fr e) :=
  h.bind fun p => .once (change_readPlace p)

/-- Evaluating an expression and going on. -/
theorem eval_bind (e : Expr) (f : Value → Eval φ ω α) :
    (do let v ← readPlace (← place e); f v) = (do let v ← eval e; f v) := by
  unfold eval
  rw [bind_assoc]

mutual

theorem passes_place : ∀ e : Expr, Passes fr (place e : Eval φ ω Place) (placeMoments fr e)
  | .literal .. | .ident .. => .still fun _ => rfl
  | .unary op operand span => by
    have operand := passes_place operand
    unfold place
    rw [eval_bind]
    refine (passes_eval_of_place operand).bind_still fun v s => ?_
    cases Value.unary op v <;> rfl
  | .arith op l r span | .compare op l r span => by
    have left := passes_eval_of_place (passes_place l)
    have right := passes_eval_of_place (passes_place r)
    unfold place
    rw [eval_bind]
    refine left.bind fun v => ?_
    rw [eval_bind]
    refine right.bind_still fun w s => ?_
    first
    | cases Value.arith op v w <;> rfl
    | cases Value.compare op v w <;> rfl
  | .logic op l r span => by
    have left := passes_eval_of_place (passes_place l)
    have right := passes_eval_of_place (passes_place r)
    have decided := left.bind_still fun v => runIn_truth op l v fr
    unfold place
    rw [eval_bind, ← bind_assoc]
    refine decided.bind fun b => ?_
    cases decides op b with
    | true => exact .still fun _ => rfl
    | false =>
      rw [if_neg Bool.false_ne_true, eval_bind]
      refine right.bind_still fun w s => ?_
      cases w <;> rfl
  | .member object name span => (passes_place object).bind_still fun _ _ => rfl
  | .index object key span => by
    have key := passes_eval_of_place (passes_place key)
    unfold place
    refine (passes_place object).bind fun p => ?_
    rw [eval_bind]
    exact key.bind_still fun _ _ => rfl
  | .call name args span => by
    unfold place
    refine (passes_values args).bind fun vs => ?_
    exact (Leads.once (change_call name vs span)).bind_still fun _ _ => rfl
  | .method receiver name args span => by
    unfold place
    refine (passes_place receiver).bind fun p => ?_
    exact (passes_values args).bind_still fun _ _ => rfl

theorem passes_values : ∀ es : List Expr,
    Passes fr (values es : Eval φ ω (List Value)) (valuesMoments fr es)
  | [] => .still fun _ => rfl
  | e :: es => by
    have first := passes_eval_of_place (passes_place e)
    unfold values
    rw [eval_bind]
    refine first.bind fun v => ?_
    exact (passes_values es).bind_still fun _ _ => rfl

end

theorem passes_eval (fr : Frame) (e : Expr) : Passes fr (eval e : Eval φ ω Value) (moments fr e) :=
  passes_eval_of_place (passes_place e)

theorem passes_condition (fr : Frame) (r : Rule) :
    Passes fr (condition r : Eval φ ω Bool) (moments fr r.condition) := by
  refine (passes_eval fr r.condition).bind_still fun v s => ?_
  cases v <;> rfl

/-! ## Actions -/

/-- The moments of `Eval.assign`. -/
def assignMoments (fr : Frame) (target : Expr) (v : Value) (s : Session φ ω) :
    List (Moment φ ω) :=
  if target.root?.isNone then []
  else
    placeMoments fr target s
      ++ after (place target) fr s fun p t =>
        match p with
        | ⟨.fact name span, step :: steps⟩ =>
          [once (accessFact name span (Chain.writeFact v (step :: steps).reverse)) fr t]
        | _ => []

/-- The moments of `Eval.execute`. -/
def executeMoments (fr : Frame) : Statement → Session φ ω → List (Moment φ ω)
  | .assign target value _, s =>
    moments fr value s ++ after (eval value) fr s fun v t => assignMoments fr target v t
  | .call e _, s => moments fr e s

/-- The moments of `Eval.executeAll`. -/
def executeAllMoments (fr : Frame) : List Statement → Session φ ω → List (Moment φ ω)
  | [], _ => []
  | a :: rest, s =>
    executeMoments fr a s ++ after (execute a) fr s fun _ t => executeAllMoments fr rest t

theorem passes_assign (target : Expr) (v : Value) :
    Passes fr (assign target v : Eval φ ω Unit) (assignMoments fr target v) := by
  unfold assign assignMoments
  split
  · exact .still fun _ => rfl
  · refine (passes_place target).bind fun p => ?_
    match p with
    | ⟨.fact name span, []⟩ => exact .still fun _ => rfl
    | ⟨.fact name span, step :: steps⟩ => exact .once (change_accessFact name span _)
    | ⟨.value _, _⟩ => exact .still fun _ => rfl

theorem passes_execute (a : Statement) :
    Passes fr (execute a : Eval φ ω Unit) (executeMoments fr a) := by
  cases a with
  | assign target value span => exact (passes_eval fr value).bind fun v => passes_assign target v
  | call e span => exact (passes_eval fr e).bind_still fun _ _ => rfl

theorem passes_executeAll (fr : Frame) (as : List Statement) :
    Passes fr (executeAll as : Eval φ ω Unit) (executeAllMoments fr as) := by
  induction as with
  | nil => exact .still fun _ => rfl
  | cons a rest ih => exact (passes_execute a).bind fun _ => ih

/-! ## Where calls come from -/

/-- One of the expressions is a call of this name whose arguments can give these values. -/
def CallOf (φ ω : Type) [FactOps φ] (es : List Expr) (name : String) (vs : List Value) : Prop :=
  ∃ args span set, .call name args span ∈ es ∧ Given set (values args : Eval φ ω (List Value)) vs

namespace AllCalls

variable {es : List Expr}

theorem read (e : Expr) (s : Session φ ω) : AllCalls (readMoments fr e s) (CallOf φ ω es) :=
  after fun _ _ _ => quiet rfl

mutual

theorem place : ∀ (e : Expr) (s : Session φ ω), e.nodes ⊆ es →
    AllCalls (placeMoments fr e s) (CallOf φ ω es)
  | .literal .., _, _ | .ident .., _, _ => nil
  | .unary _ operand _, s, sub =>
    (place operand s fun _ m => sub (.tail _ m)).append (read operand s)
  | .arith _ l r _, s, sub | .compare _ l r _, s, sub | .logic _ l r _, s, sub => by
    have left := place l s fun _ m => sub (.tail _ (List.mem_append_left _ m))
    have right t := place r t fun _ m => sub (.tail _ (List.mem_append_right _ m))
    refine (left.append (read l s)).append (after fun b t _ => ?_)
    first
    | exact (right t).append (read r t)
    | split
      · exact nil
      · exact (right t).append (read r t)
  | .member object _ _, s, sub => place object s fun _ m => sub (.tail _ m)
  | .index object key _, s, sub => by
    have first := place object s fun _ m => sub (.tail _ (List.mem_append_left _ m))
    have last t := place key t fun _ m => sub (.tail _ (List.mem_append_right _ m))
    exact first.append (after fun _ t _ => (last t).append (read key t))
  | .call name args span, s, sub => by
    have first := values args s fun _ m => sub (.tail _ m)
    refine first.append (after fun vs t ran => single ?_)
    rintro _ _ ⟨⟩
    exact ⟨args, span, fr.ruleSet, sub (.head _), fr.rule, s, t, ran⟩
  | .method receiver _ args _, s, sub => by
    have first := place receiver s fun _ m => sub (.tail _ (List.mem_append_left _ m))
    have last t := values args t fun _ m => sub (.tail _ (List.mem_append_right _ m))
    exact first.append (after fun _ t _ => last t)

theorem values : ∀ (ds : List Expr) (s : Session φ ω), Expr.nodesOfAll ds ⊆ es →
    AllCalls (valuesMoments fr ds s) (CallOf φ ω es)
  | [], _, _ => nil
  | e :: ds, s, sub => by
    have first := place e s fun _ m => sub (List.mem_append_left _ m)
    have last t := values ds t fun _ m => sub (List.mem_append_right _ m)
    exact (first.append (read e s)).append (after fun _ t _ => last t)

end

theorem eval {e : Expr} (sub : e.nodes ⊆ es) (s : Session φ ω) :
    AllCalls (moments fr e s) (CallOf φ ω es) :=
  (place e s sub).append (read e s)

theorem assign {target : Expr} (sub : target.nodes ⊆ es) (v : Value) (s : Session φ ω) :
    AllCalls (assignMoments fr target v s) (CallOf φ ω es) := by
  unfold assignMoments
  split
  · exact nil
  · refine (place target s sub).append (after fun p t _ => ?_)
    split
    · exact quiet rfl
    · exact nil

theorem execute {a : Statement} (sub : ∀ e ∈ a.exprs, e.nodes ⊆ es) (s : Session φ ω) :
    AllCalls (executeMoments fr a s) (CallOf φ ω es) := by
  cases a with
  | assign target value span =>
    have first : AllCalls (moments fr value s) (CallOf φ ω es) :=
      eval (sub value (.tail _ (.head _))) s
    exact first.append (after fun v t _ => assign (sub target (.head _)) v t)
  | call e span => exact eval (sub e (.head _)) s

theorem executeAll {as : List Statement} (sub : ∀ a ∈ as, ∀ e ∈ a.exprs, e.nodes ⊆ es)
    (s : Session φ ω) : AllCalls (executeAllMoments fr as s) (CallOf φ ω es) := by
  induction as generalizing s with
  | nil => exact nil
  | cons a rest ih =>
    have first : AllCalls (executeMoments fr a s) (CallOf φ ω es) :=
      execute (sub a (.head _)) s
    exact first.append (after fun _ t _ => ih (fun b mem => sub b (.tail _ mem)) t)

end AllCalls

theorem OnlyCalls.eval {allowed : String → Prop} (e : Expr) (s : Session φ ω)
    (h : ∀ name args span, .call name args span ∈ e.nodes → allowed name) :
    OnlyCalls (moments fr e s) allowed := by
  intro m mem name vs call
  obtain ⟨args, span, -, listed, -⟩ := AllCalls.eval (List.Subset.refl e.nodes) s m mem name vs call
  exact h name args span listed

end Eval

end Rulebook
