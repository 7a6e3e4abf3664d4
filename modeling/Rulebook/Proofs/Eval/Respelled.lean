import Mathlib
import Rulebook.Proofs.Eval.Composed
import Rulebook.Proofs.Fact.Respelled

/-!
# Expressions with members spelled as indexes

Two expressions may differ in how they spell the links of their chains, as long as these start with
the name of a document or are behind a call. Evaluating the one or the other gives the same and does
the same, and so does assigning to what they lead to.
-/

namespace Rulebook

namespace Expr

variable (docs : String → Bool)

/-- What the expression leads to is in one of the documents, or goes on from a plain value. -/
def isFree : Expr → Bool
  | ident name _ => docs name
  | member object _ _ | index object _ _ => object.isFree
  | _ => true

mutual

/-- The tree without spans, and with an index by its text for each member that may be spelled so. -/
def indexed : Expr → Expr
  | literal v _ => literal v {}
  | ident name _ => ident name {}
  | unary op operand _ => unary op operand.indexed {}
  | arith op l r _ => arith op l.indexed r.indexed {}
  | compare op l r _ => compare op l.indexed r.indexed {}
  | logic op l r _ => logic op l.indexed r.indexed {}
  | member object name _ =>
    if object.isFree docs then index object.indexed (literal (.text name) {}) {}
    else member object.indexed name {}
  | index object key _ => index object.indexed key.indexed {}
  | call name args _ => call name (indexedAll args) {}
  | method receiver name args _ => method receiver.indexed name (indexedAll args) {}

def indexedAll : List Expr → List Expr
  | [] => []
  | e :: es => e.indexed :: indexedAll es

end

variable {docs}

theorem indexed_index {o : Expr} (free : o.isFree docs = true) (name : String) (s t u : Span) :
    (index o (literal (.text name) s) t).indexed docs = (member o name u).indexed docs := by
  rw [indexed, indexed, indexed, if_pos free]

theorem root?_indexed : ∀ e : Expr, (e.indexed docs).root? = e.root?
  | literal .. | ident .. | unary .. | arith .. | compare .. | logic .. | call .. => rfl
  | member object name _ => by
    rw [indexed]
    split
    · exact root?_indexed object
    · exact root?_indexed object
  | index object _ _ | method object _ _ _ => root?_indexed object

end Expr

def Statement.indexed (docs : String → Bool) : Statement → Statement
  | assign target value _ => assign (target.indexed docs) (value.indexed docs) {}
  | call e _ => call (e.indexed docs) {}

namespace Eval

variable {φ ω α β γ δ : Type}

/-! ## Evaluations that are alike -/

/-- From sessions of a kind both evaluations fail or give related results, and lead to the same
session, which is of that kind again. -/
def Alike (I : Session φ ω → Prop) (R : α → β → Prop) (x : Eval φ ω α) (y : Eval φ ω β) : Prop :=
  ∀ fr s, I s → I (x.runIn fr s).2 ∧ (y.runIn fr s).2 = (x.runIn fr s).2 ∧
    Option.Rel R (x.runIn fr s).1.toOption (y.runIn fr s).1.toOption

namespace Alike

variable {I : Session φ ω → Prop} {R : α → β → Prop} {S : γ → δ → Prop}

theorem pure {a : α} {b : β} (related : R a b) : Alike I R (pure a) (pure b) :=
  fun _ _ kept => ⟨kept, rfl, .some related⟩

theorem fail {fault fault' : EvalFault} {span span' : Span} :
    Alike I R (fail fault span) (fail fault' span') :=
  fun _ _ kept => ⟨kept, rfl, .none⟩

theorem bind {x : Eval φ ω α} {y : Eval φ ω β} {f : α → Eval φ ω γ} {g : β → Eval φ ω δ}
    (first : Alike I R x y) (rest : ∀ a b, R a b → Alike I S (f a) (g b)) :
    Alike I S (x >>= f) (y >>= g) := by
  intro fr s kept
  obtain ⟨kept, same, related⟩ := first fr s kept
  rcases ran : x.runIn fr s with ⟨e | a, t⟩ <;>
    rcases ran' : y.runIn fr s with ⟨e' | b, t'⟩ <;> rw [ran, ran'] at same related <;>
      rw [ran] at kept <;> cases related <;> cases same
  · rw [runIn_bind_error ran, runIn_bind_error ran']
    exact ⟨kept, rfl, .none⟩
  · next related =>
    rw [runIn_bind_ok ran, runIn_bind_ok ran']
    exact rest a b related fr _ kept

theorem bind_same {x y : Eval φ ω α} {f : α → Eval φ ω γ} {g : α → Eval φ ω δ}
    (first : Alike I Eq x y) (rest : ∀ a, Alike I S (f a) (g a)) :
    Alike I S (x >>= f) (y >>= g) := by
  refine first.bind fun a b same => ?_
  subst same
  exact rest a

theorem get_bind {f : Session φ ω → Eval φ ω γ} {g : Session φ ω → Eval φ ω δ}
    (rest : ∀ s, I s → Alike I S (f s) (g s)) : Alike I S (get >>= f) (get >>= g) := by
  intro fr s kept
  rw [runIn_bind_ok (runIn_get fr s), runIn_bind_ok (runIn_get fr s)]
  exact rest s kept fr s kept

/-- What gives the same as another evaluation, after the same session, is like it. -/
theorem of_agree {x y : Eval φ ω α} (kept : ∀ fr s, I s → I (x.runIn fr s).2)
    (agree : ∀ fr s, I s → Agree (y.runIn fr s) (x.runIn fr s)) : Alike I Eq x y := by
  intro fr s is
  obtain ⟨result, same⟩ := agree fr s is
  refine ⟨kept fr s is, same, ?_⟩
  rw [result]
  cases (x.runIn fr s).1.toOption with
  | none => exact .none
  | some a => exact .some rfl

theorem agree {x y : Eval φ ω α} (alike : Alike I Eq x y) (fr : Frame) {s : Session φ ω}
    (is : I s) : Agree (y.runIn fr s) (x.runIn fr s) := by
  obtain ⟨-, same, related⟩ := alike fr s is
  refine ⟨?_, same⟩
  generalize (x.runIn fr s).1.toOption = r at related
  generalize (y.runIn fr s).1.toOption = r' at related
  cases related with
  | none => rfl
  | some eq => rw [eq]

/-- What is like one and the same evaluation agrees. -/
theorem agree_of_same {T : Type} {spelling : T → T} {f : T → Eval φ ω α}
    (alike : ∀ t, Alike I Eq (f t) (f (spelling t))) {t t' : T} (same : spelling t' = spelling t)
    {fr : Frame} {s : Session φ ω} (is : I s) : Agree ((f t').runIn fr s) ((f t).runIn fr s) := by
  obtain ⟨result, next⟩ := (alike t).agree fr is
  obtain ⟨result', next'⟩ := (alike t').agree fr is
  rw [same] at result' next'
  exact ⟨result'.symm.trans result, next'.symm.trans next⟩

theorem ofExcept {ε : Type} {fault : ε → EvalFault} {span span' : Span} {r : Except ε α} :
    Alike I Eq (ofExcept fault span r) (ofExcept fault span' r) := by
  cases r with
  | ok a => exact .pure rfl
  | error e => exact .fail

theorem truth {op : LogicOp} {operand operand' : Expr} {v : Value} :
    Alike I Eq (truth op operand v) (truth op operand' v) := by
  cases v
  case bool b => exact .pure rfl
  all_goals exact .fail

end Alike

/-! ## Sessions over documents -/

section
variable (docs : String → Bool) (P : φ → Prop)

/-- The facts with these names are of a kind. -/
def Holds (s : Session φ ω) : Prop :=
  ∀ name f, docs name = true → Entries.get? s.context.facts name = some f → P f

end

variable {docs : String → Bool} {P : φ → Prop}

theorem Holds.of_facts {s t : Session φ ω} (h : Holds docs P s)
    (same : t.context.facts = s.context.facts) : Holds docs P t := by
  unfold Holds
  rw [same]
  exact h

theorem Holds.setFact {s : Session φ ω} (h : Holds docs P s) {name : String} {f : φ}
    (kind : docs name = true → P f) : Holds docs P (s.setFact name f) := by
  intro other g is found
  rw [Session.setFact, Entries.get?_insert] at found
  split at found
  · next same =>
    cases found
    exact kind (same ▸ is)
  · exact h other g is found

theorem agree_callIntrinsic (i : Intrinsic) (args : List Value) (span span' : Span) (fr : Frame)
    (s : Session φ ω) :
    Agree ((callIntrinsic i args span').runIn fr s) ((callIntrinsic i args span).runIn fr s) := by
  match i, args with
  | .retract, [.text name] =>
    change Agree ((retract (.text name) span').runIn fr s) ((retract (.text name) span).runIn fr s)
    unfold retract
    rw [runIn_bind_ok (runIn_read fr s), runIn_bind_ok (runIn_read fr s)]
    dsimp only
    cases fr.ruleSet.position? name <;> exact ⟨rfl, rfl⟩
  | .retract, [.nil] | .retract, [.bool _] | .retract, [.int _] | .retract, [.float _]
  | .retract, [.list _] | .retract, [.map _] => exact ⟨rfl, rfl⟩
  | .log, _ | .complete, [] | .retract, [] | .retract, _ :: _ :: _ | .complete, _ :: _ =>
    exact ⟨rfl, rfl⟩

theorem agree_callHost (name : String) (args : List Value) (span span' : Span) (fr : Frame)
    (s : Session φ ω) :
    Agree ((callHost name args span').runIn fr s) ((callHost name args span).runIn fr s) := by
  unfold callHost
  rw [runIn_bind_ok (runIn_get fr s), runIn_bind_ok (runIn_get fr s)]
  cases Entries.get? s.context.functions name with
  | none => exact ⟨rfl, rfl⟩
  | some f =>
    simp only [runIn_bind, runIn_modify, runIn_get]
    cases (f args (s.record (.called name args)).context.world).1 <;> exact ⟨rfl, rfl⟩

theorem alike_call (name : String) (args : List Value) (span span' : Span) :
    Alike (ω := ω) (Holds docs P) Eq (call name args span) (call name args span') := by
  have kept (fr : Frame) (s : Session φ ω) (h : Holds docs P s) :=
    h.of_facts (facts_call name args span fr s)
  unfold call at kept ⊢
  cases intrinsic : Intrinsic.ofName? name with
  | none =>
    simp only [intrinsic] at kept
    exact .of_agree kept fun fr s _ => agree_callHost name args span span' fr s
  | some i =>
    refine .bind_same (.of_agree (fun fr s h => ?_) fun fr s _ => ?_) fun _ => .pure rfl
    · exact h.of_facts (congrArg Context.facts (context_callIntrinsic i args span fr s))
    · exact agree_callIntrinsic i args span span' fr s

/-- Accesses that agree on the facts that the name can have. -/
theorem alike_accessFact {access access' : φ → Except StepFault α × φ} {name : String}
    (agree : ∀ f, (docs name = true → P f) → Agree (access' f) (access f))
    (kept : ∀ f, P f → P (access f).2) (span span' : Span) :
    Alike (ω := ω) (Holds docs P) Eq (accessFact name span access)
      (accessFact name span' access') := by
  refine .get_bind fun s h => ?_
  cases found : Entries.get? s.context.facts name with
  | none => exact .get_bind fun _ _ => .fail
  | some f =>
    have kind : docs name = true → P f := fun is => h name f is found
    obtain ⟨result, next⟩ := agree f kind
    dsimp only
    rw [next]
    refine .bind_same ?_ fun _ => ?_
    · exact fun fr s h => ⟨h.setFact fun is => kept f (kind is), rfl, .some rfl⟩
    · obtain ⟨e, e', ran, ran'⟩ | ⟨a, ran, ran'⟩ := cases_of_toOption_eq result <;> rw [ran, ran']
      · exact .fail
      · exact .pure rfl

/-! ## Places -/

/-- The chain is in one of the documents, or goes on from a plain value. -/
def Place.isFree (docs : String → Bool) (p : Place) : Bool :=
  match p.base with
  | .fact name _ => docs name || p.steps.any fun m => m.link.isCall
  | .value _ => true

/-- The same place, but for spans and for how the free part of its chain is spelled. -/
inductive Place.Respelled (docs : String → Bool) : Place → Place → Prop
  | fact {name span span' steps} :
      Respelled docs ⟨.fact name span, steps⟩
        ⟨.fact name span', (Chain.indexed (docs name) steps.reverse).reverse⟩
  | value {v steps} :
      Respelled docs ⟨.value v, steps⟩ ⟨.value v, (Chain.indexed true steps.reverse).reverse⟩

theorem Place.Respelled.step {p q : Place} (h : p.Respelled docs q) (l : Link) (span : Span) :
    (p.step l span).Respelled docs (q.step (l.spelled (p.isFree docs)) {}) := by
  cases h with
  | @fact name span₁ span₂ steps =>
    have longer := Chain.reverse_indexed_cons (docs name) ⟨l, span⟩ steps
    unfold Place.step Place.isFree
    dsimp only at longer ⊢
    rw [← longer]
    exact .fact
  | @value v steps =>
    have longer := Chain.reverse_indexed_cons true ⟨l, span⟩ steps
    rw [Bool.true_or] at longer
    unfold Place.step Place.isFree
    dsimp only at longer ⊢
    rw [← longer]
    exact .value

variable [FactOps φ]

theorem alike_readPlace (uniform : Chain.Uniform P) {p q : Place} (h : p.Respelled docs q) :
    Alike (ω := ω) (Holds docs P) Eq (readPlace p) (readPlace q) := by
  cases h with
  | @fact name span span' steps =>
    unfold readPlace
    dsimp only
    rw [List.reverse_reverse]
    have kept (f : φ) (kind : P f) := uniform.kept_readFact steps.reverse kind
    exact alike_accessFact (fun f kind => uniform.readFact_indexed steps.reverse kind) kept
      span span'
  | @value v steps =>
    unfold readPlace
    dsimp only
    rw [List.reverse_reverse]
    obtain ⟨e, e', ran, ran'⟩ | ⟨w, ran, ran'⟩ :=
      cases_of_toOption_eq (Chain.readValue_indexed true steps.reverse v) <;> rw [ran, ran']
    · exact .fail
    · exact .pure rfl

/-- An index by a text that stands there leads where its text says. -/
theorem place_index_text (o : Expr) (name : String) (span span' : Span) :
    (place (.index o (.literal (.text name) span) span') : Eval φ ω Place) = do
      let p ← place o
      return p.step (.index (.text name)) span' := rfl

/-- What the two spellings of an expression lead to. -/
abbrev Placed (docs : String → Bool) (e : Expr) (p q : Place) : Prop :=
  p.isFree docs = e.isFree docs ∧ p.Respelled docs q

section
variable {e o : Expr} {p q : Place}

theorem Placed.ofValue (free : e.isFree docs = true) (v : Value) :
    Placed docs e (.ofValue v) (.ofValue v) := ⟨free.symm, .value⟩

theorem Placed.member (h : Placed docs o p q) (name : String) (span : Span) :
    Placed docs (.member o name span) (p.step (.member name) span)
      (q.step ((Link.member name).spelled (o.isFree docs)) {}) := by
  obtain ⟨same, respelled⟩ := h
  refine ⟨?_, same ▸ respelled.step _ span⟩
  rw [Expr.isFree, ← same]
  rfl

theorem Placed.index (h : Placed docs o p q) (key : Expr) (k : Value) (span : Span) :
    Placed docs (.index o key span) (p.step (.index k) span) (q.step (.index k) {}) := by
  obtain ⟨same, respelled⟩ := h
  have step := respelled.step (.index k) span
  rw [Link.spelled_index] at step
  refine ⟨?_, step⟩
  rw [Expr.isFree, ← same]
  rfl

theorem Placed.method (h : Placed docs o p q) (name : String) (args : List Expr)
    (vs : List Value) (span : Span) :
    Placed docs (.method o name args span) (p.step (.call name vs) span)
      (q.step (.call name vs) {}) := by
  have step := h.2.step (.call name vs) span
  rw [Link.spelled_call] at step
  refine ⟨?_, step⟩
  rcases p with ⟨base, steps⟩
  cases base with
  | fact name => exact Bool.or_true (docs name)
  | value => rfl

end

/-- Reading what an expression leads to and going on. -/
theorem Alike.read (uniform : Chain.Uniform P) {e e' : Expr} {S : γ → δ → Prop}
    {f : Value → Eval φ ω γ} {g : Value → Eval φ ω δ}
    (placed : Alike (ω := ω) (Holds docs P) (Placed docs e) (place e) (place e'))
    (rest : ∀ v, Alike (Holds docs P) S (f v) (g v)) :
    Alike (Holds docs P) S (do let v ← readPlace (← place e); f v)
      (do let v ← readPlace (← place e'); g v) :=
  placed.bind fun _ _ h => (alike_readPlace uniform h.2).bind_same rest

mutual

theorem alike_place (uniform : Chain.Uniform P) : ∀ e : Expr,
    Alike (ω := ω) (Holds docs P) (Placed docs e) (place e) (place (e.indexed docs))
  | .literal .. => .pure (.ofValue rfl _)
  | .ident name _ => .pure ⟨Bool.or_false (docs name), .fact⟩
  | .unary _ operand _ =>
    .read uniform (alike_place uniform operand) fun _ => Alike.ofExcept.bind_same fun _ =>
      .pure (.ofValue rfl _)
  | .arith _ l r _ | .compare _ l r _ =>
    .read uniform (alike_place uniform l) fun _ => .read uniform (alike_place uniform r) fun _ =>
      Alike.ofExcept.bind_same fun _ => .pure (.ofValue rfl _)
  | .logic op l r _ =>
    .read uniform (alike_place uniform l) fun _ => Alike.truth.bind_same fun b => by
      split
      · exact .pure (.ofValue rfl _)
      · exact .read uniform (alike_place uniform r) fun _ => Alike.truth.bind_same fun _ =>
          .pure (.ofValue rfl _)
  | .member object name span => by
    have first := alike_place uniform object
    rw [Expr.indexed]
    split
    · next free =>
      rw [place_index_text]
      refine first.bind fun p q h => .pure ?_
      have member := h.member name span
      rwa [free] at member
    · next bound =>
      refine first.bind fun p q h => .pure ?_
      have member := h.member name span
      rwa [eq_false_of_ne_true bound] at member
  | .index object key span =>
    (alike_place uniform object).bind fun _ _ h => .read uniform (alike_place uniform key) fun k =>
      .pure (h.index key k span)
  | .call name args span =>
    (alike_values uniform args).bind_same fun vs => (alike_call name vs span {}).bind_same fun _ =>
      .pure (.ofValue rfl _)
  | .method receiver name args span =>
    (alike_place uniform receiver).bind fun _ _ h => (alike_values uniform args).bind_same fun vs =>
      .pure (h.method name args vs span)

theorem alike_values (uniform : Chain.Uniform P) : ∀ es : List Expr,
    Alike (ω := ω) (Holds docs P) Eq (values es) (values (Expr.indexedAll docs es))
  | [] => .pure rfl
  | e :: es =>
    .read uniform (alike_place uniform e) fun _ => (alike_values uniform es).bind_same fun _ =>
      .pure rfl

end

theorem alike_eval (uniform : Chain.Uniform P) (e : Expr) :
    Alike (ω := ω) (Holds docs P) Eq (eval e) (eval (e.indexed docs)) :=
  (alike_place uniform e).bind fun _ _ h => alike_readPlace uniform h.2

/-! ## Assignments -/

theorem alike_assign (uniform : Chain.Uniform P) (target : Expr) (v : Value) :
    Alike (ω := ω) (Holds docs P) Eq (assign target v) (assign (target.indexed docs) v) := by
  unfold assign
  rw [Expr.root?_indexed]
  split
  · exact .fail
  refine (alike_place uniform target).bind fun p q h => ?_
  cases h.2 with
  | value => exact .fail
  | @fact name span span' steps =>
    cases steps with
    | nil => exact .fail
    | cons m ms =>
      -- A respelled chain has a step for each step, so it is assigned through as well.
      have agree (f : φ) (kind : docs name = true → P f) :=
        uniform.writeFact_indexed v (m :: ms).reverse kind
      have kept (f : φ) (kind : P f) := uniform.kept_writeFact v (m :: ms).reverse kind
      have there := Chain.reverse_indexed_cons (docs name) m ms
      rw [← List.reverse_reverse (Chain.indexed _ _), there] at agree
      rw [there]
      exact alike_accessFact agree kept span span'

theorem alike_execute (uniform : Chain.Uniform P) (a : Statement) :
    Alike (ω := ω) (Holds docs P) Eq (execute a) (execute (a.indexed docs)) := by
  cases a with
  | assign target value span =>
    exact (alike_eval uniform value).bind_same fun v => alike_assign uniform target v
  | call e span => exact (alike_eval uniform e).bind_same fun _ => .pure rfl

/-- Where names stand for documents, it does not matter how the links of their chains are spelled:
reading gives the same value or fails, an assignment succeeds or fails, and the documents are the
same afterwards. How links behind a call are spelled matters for no facts. -/
theorem spelling_of_members {ω : Type} (fr : Frame) :
    (∀ (docs : String → Bool) (s : Session Fact ω), Holds docs Chain.IsDocument s →
      (∀ e e' : Expr, e'.indexed docs = e.indexed docs →
        Agree ((eval e').runIn fr s) ((eval e).runIn fr s)) ∧
      ∀ a a' : Statement, a'.indexed docs = a.indexed docs →
        Agree ((execute a').runIn fr s) ((execute a).runIn fr s)) ∧
    ∀ {φ : Type} [FactOps φ] (s : Session φ ω) (e e' : Expr),
      e'.indexed (fun _ => false) = e.indexed (fun _ => false) →
        Agree ((eval e').runIn fr s) ((eval e).runIn fr s) := by
  refine ⟨fun docs s holds => ⟨fun e e' same => ?_, fun a a' same => ?_⟩, fun s e e' same => ?_⟩
  · exact Alike.agree_of_same (alike_eval Chain.uniform_document) same holds
  · exact Alike.agree_of_same (alike_execute Chain.uniform_document) same holds
  · exact Alike.agree_of_same (alike_eval Chain.Uniform.none) same fun _ _ => nofun

/-- The second item of a document has the same at `.x` and at `["x"]`, and so has the map that a
function gives. -/
theorem spelling_of_members_second_item :
    let item := Expr.index (.ident "F" {}) (.literal (.int 1) {}) {}
    let x := Expr.index item (.literal (.text "x") {}) {}
    let five : HostFunction Unit := fun _ w => (.ok (.map [("x", .int 5)]), w)
    let given : Session Fact Unit := .start { functions := [("G", five)], world := () } #[]
    let called := Expr.index (.call "G" [] {}) (.literal (.text "x") {}) {}
    ((eval x).runIn pairFrame pairSession).1.toOption = some (.int 5) ∧
      ((execute (.assign x (.literal (.int 7) {}) {})).runIn pairFrame pairSession).1.toOption =
        some () ∧
      ((eval called).runIn pairFrame given).1.toOption = some (.int 5) := by
  intro item x five given called
  have holds : Holds (fun _ => true) Chain.IsDocument pairSession := by
    intro name f _ found
    obtain ⟨j, is, -⟩ := pairSession_documents.document _ (Entries.mem_of_get? found)
    exact ⟨j, is⟩
  have documents := (spelling_of_members pairFrame).1 _ pairSession holds
  refine ⟨?_, ?_, ?_⟩
  · have read : ((eval (.member item "x" {})).runIn pairFrame pairSession).1.toOption =
        some (.int 5) := rfl
    exact (documents.1 (.member item "x" {}) x (Expr.indexed_index rfl "x" {} {} {})).1.trans read
  · let store (target : Expr) := Statement.assign target (.literal (.int 7) {}) {}
    have stored : ((execute (store (.member item "x" {}))).runIn pairFrame pairSession).1.toOption =
        some () := rfl
    exact (documents.2 (store (.member item "x" {})) (store x) rfl).1.trans stored
  · have read : ((eval (.member (.call "G" [] {}) "x" {})).runIn pairFrame given).1.toOption =
        some (.int 5) := rfl
    exact ((spelling_of_members pairFrame).2 given (.member (.call "G" [] {}) "x" {}) called
      rfl).1.trans read

end Eval

end Rulebook
