import Mathlib
import Rulebook.Proofs.Engine.Harmless
import Rulebook.Proofs.Rule.Bare

/-!
# Two sets of the same rules

Two rule sets can have the same rules in another order and read from other places. Evaluating a rule
as part of the one or of the other does the same to the facts and retracts the same names, although
the flags of the rules stand in another order, and fails in both or in none.
-/

namespace Rulebook

/-! ## Places without spans -/

def Step.bare (step : Step) : Step := ⟨step.link, {}⟩

def Eval.Base.bare : Eval.Base → Eval.Base
  | .fact name _ => .fact name {}
  | .value v => .value v

def Eval.Place.bare (p : Eval.Place) : Eval.Place := ⟨p.base.bare, p.steps.map Step.bare⟩

@[simp] theorem Step.bare_link (step : Step) : step.bare.link = step.link := rfl

namespace Chain

variable {φ : Type} [FactOps φ]

theorem readValue_bare (steps : List Step) (v : Value) :
    (readValue (steps.map Step.bare) v).toOption = (readValue steps v).toOption := by
  induction steps generalizing v with
  | nil => rfl
  | cons step rest ih =>
    rw [List.map_cons, readValue, readValue, Step.bare_link]
    cases follow v step.link with
    | ok w => exact ih w
    | error e => rfl

theorem readFact_bare (steps : List Step) (f : φ) :
    (readFact (steps.map Step.bare) f).2 = (readFact steps f).2 ∧
      (readFact (steps.map Step.bare) f).1.toOption = (readFact steps f).1.toOption := by
  induction steps generalizing f with
  | nil => exact ⟨rfl, rfl⟩
  | cons step rest ih =>
    rw [List.map_cons, readFact, readFact, List.isEmpty_map, Step.bare_link]
    rcases (if rest.isEmpty then none else part? f step.link) with _ | ⟨part, put⟩
    · rcases leave step.link f with ⟨e | v, f'⟩
      · exact ⟨rfl, rfl⟩
      · exact ⟨rfl, readValue_bare rest v⟩
    · obtain ⟨same, result⟩ := ih part
      exact ⟨congrArg put same, result⟩

theorem writeFact_bare (v : Value) (steps : List Step) (f : φ) :
    (writeFact v (steps.map Step.bare) f).2 = (writeFact v steps f).2 ∧
      (writeFact v (steps.map Step.bare) f).1.toOption = (writeFact v steps f).1.toOption := by
  induction steps generalizing f with
  | nil => exact ⟨rfl, rfl⟩
  | cons step rest ih =>
    cases rest with
    | nil =>
      rw [List.map_cons, List.map_nil, writeFact, writeFact, Step.bare_link]
      rcases store step.link v f with ⟨e | ⟨⟩, f'⟩ <;> exact ⟨rfl, rfl⟩
    | cons next rest =>
      rw [List.map_cons, List.map_cons, writeFact, writeFact, Step.bare_link]
      rcases part? f step.link with _ | ⟨part, put⟩
      · exact ⟨rfl, rfl⟩
      · obtain ⟨same, result⟩ := ih part
        exact ⟨congrArg put same, result⟩
      all_goals simp

end Chain

theorem Expr.root?_bare : ∀ e : Expr, e.bare.root? = e.root?
  | .literal .. | .ident .. | .unary .. | .arith .. | .compare .. | .logic .. | .call .. => rfl
  | .member object _ _ | .index object _ _ | .method object _ _ _ => object.root?_bare

namespace Engine

/-- The same rules in another order, apart from where they were read. -/
structure Shuffled (set set' : RuleSet) : Prop where
  compiled : set.Compiled
  compiled' : set'.Compiled
  perm : (set.rules.map Rule.bare).Perm (set'.rules.map Rule.bare)

variable {set set' : RuleSet}

theorem Shuffled.symm (sh : Shuffled set set') : Shuffled set' set :=
  ⟨sh.compiled', sh.compiled, sh.perm.symm⟩

theorem Shuffled.refl (h : set.Compiled) : Shuffled set set := ⟨h, h, .refl _⟩

/-- Every rule of the one set has its counterpart in the other. -/
theorem Shuffled.exists_counterpart (sh : Shuffled set set') {n : Numbered}
    (mem : n ∈ numbered set) : ∃ n' ∈ numbered set', n'.2.bare = n.2.bare := by
  have listed : n.2.bare ∈ set'.rules.map Rule.bare :=
    sh.perm.subset (List.mem_map_of_mem (rule_mem_of_numbered mem))
  obtain ⟨r, inside, same⟩ := List.mem_map.mp listed
  obtain ⟨i, at_i⟩ := List.mem_iff_getElem?.mp inside
  exact ⟨(i, r), mem_numbered.mpr at_i, same⟩

theorem name_eq_of_bare {r r' : Rule} (same : r'.bare = r.bare) : r'.name = r.name := by
  have names := congrArg Rule.name same
  exact names

theorem salience_eq_of_bare {r r' : Rule} (same : r'.bare = r.bare) : r'.salience = r.salience := by
  have saliences := congrArg Rule.salience same
  exact saliences

/-- A name that stands for a rule of the one set does so in the other. -/
theorem Shuffled.position? (sh : Shuffled set set') {name : String} {i : Nat}
    (pos : set.position? name = some i) : ∃ i', set'.position? name = some i' := by
  obtain ⟨r, at_i, rfl⟩ := (RuleSet.position?_eq_some_iff sh.compiled name i).mp pos
  have listed : (i, r) ∈ numbered set := mem_numbered.mpr at_i
  obtain ⟨n', mem, same⟩ := sh.exists_counterpart listed
  have names : n'.2.name = r.name := name_eq_of_bare same
  exact ⟨n'.1, (RuleSet.position?_eq_some_iff sh.compiled' r.name n'.1).mpr
    ⟨n'.2, mem_numbered.mp mem, names⟩⟩

theorem Shuffled.position?_eq_none (sh : Shuffled set set') {name : String}
    (none : set.position? name = none) : set'.position? name = .none := by
  refine Option.eq_none_iff_forall_ne_some.mpr fun i' pos' => ?_
  obtain ⟨i, pos⟩ := sh.symm.position? pos'
  rw [none] at pos
  cases pos

variable {φ ω α β γ δ : Type} {s s' t t' : Session φ ω}

/-- Sessions over the two sets with the same facts, in which the same rules have been retracted. -/
structure Twin (set set' : RuleSet) (s s' : Session φ ω) : Prop where
  context_eq : s'.context = s.context
  retracted_eq : s'.retracted = s.retracted
  complete_eq : s'.complete = s.complete
  tracks : Tracks set s
  tracks' : Tracks set' s'

namespace Twin

theorem refl (tracks : Tracks set s) : Twin set set s s := ⟨rfl, rfl, rfl, tracks, tracks⟩

theorem trans {set'' : RuleSet} {s'' : Session φ ω} (h : Twin set set' s s')
    (k : Twin set' set'' s' s'') : Twin set set'' s s'' where
  context_eq := k.context_eq.trans h.context_eq
  retracted_eq := k.retracted_eq.trans h.retracted_eq
  complete_eq := k.complete_eq.trans h.complete_eq
  tracks := h.tracks
  tracks' := k.tracks'

theorem symm (h : Twin set set' s s') : Twin set' set s' s where
  context_eq := h.context_eq.symm
  retracted_eq := h.retracted_eq.symm
  complete_eq := h.complete_eq.symm
  tracks := h.tracks'
  tracks' := h.tracks

/-- What the same change of the facts makes of both. -/
theorem withContext (h : Twin set set' s s') (c : Context φ ω) :
    Twin set set' { s with context := c } { s' with context := c } where
  context_eq := rfl
  retracted_eq := h.retracted_eq
  complete_eq := h.complete_eq
  tracks := h.tracks.of_eq rfl rfl
  tracks' := h.tracks'.of_eq rfl rfl

theorem record (h : Twin set set' s s') (e e' : Event) :
    Twin set set' (s.record e) (s'.record e') where
  context_eq := h.context_eq
  retracted_eq := h.retracted_eq
  complete_eq := h.complete_eq
  tracks := h.tracks.of_eq rfl rfl
  tracks' := h.tracks'.of_eq rfl rfl

theorem counted (h : Twin set set' s s') : Twin set set' (counted s) (counted s') where
  context_eq := h.context_eq
  retracted_eq := h.retracted_eq
  complete_eq := h.complete_eq
  tracks := h.tracks.of_eq rfl rfl
  tracks' := h.tracks'.of_eq rfl rfl

/-- Rules of one name are both on or both off. -/
theorem on_iff (sh : Shuffled set set') (h : Twin set set' s s') {n n' : Numbered}
    (mem : n ∈ numbered set) (mem' : n' ∈ numbered set') (same : n'.2.name = n.2.name) :
    s'.active.getD n'.1 false = true ↔ s.active.getD n.1 false = true := by
  rw [h.tracks'.on_iff sh.compiled' mem', h.tracks.on_iff sh.compiled mem, same, h.retracted_eq]

theorem retract (sh : Shuffled set set') (h : Twin set set' s s') {name : String} {i i' : Nat}
    (pos : set.position? name = some i) (pos' : set'.position? name = some i') :
    Twin set set' (s.retract i name) (s'.retract i' name) := by
  refine ⟨?_, ?_, ?_, h.tracks.retract sh.compiled pos, h.tracks'.retract sh.compiled' pos'⟩
  · rw [Session.context_retract, Session.context_retract, h.context_eq]
  · obtain ⟨r, at_i, named⟩ := (RuleSet.position?_eq_some_iff sh.compiled name i).mp pos
    obtain ⟨r', at_i', named'⟩ := (RuleSet.position?_eq_some_iff sh.compiled' name i').mp pos'
    have listed : (i, r) ∈ numbered set := mem_numbered.mpr at_i
    have listed' : (i', r') ∈ numbered set' := mem_numbered.mpr at_i'
    have both := h.on_iff sh listed listed' (named'.trans named.symm)
    unfold Session.retract
    by_cases on : s.active.getD i false = true
    · rw [if_pos on, if_pos (both.mpr on), h.retracted_eq]
    · rw [if_neg on, if_neg (mt both.mp on), h.retracted_eq]
  · rw [Session.complete_retract, Session.complete_retract, h.complete_eq]

end Twin

/-! ## Evaluating as part of either set -/

open Eval

/-- From twin sessions `y`, as part of the other set, fails if `x` does and else gives what `view`
makes of its result, and leads to twin sessions. -/
def Mirrors (set set' : RuleSet) (view : α → β) (x : Eval φ ω α) (y : Eval φ ω β) : Prop :=
  ∀ rule s s', Twin set set' s s' →
    (y.runIn ⟨set', rule⟩ s').1.toOption = (x.runIn ⟨set, rule⟩ s).1.toOption.map view ∧
      Twin set set' (x.runIn ⟨set, rule⟩ s).2 (y.runIn ⟨set', rule⟩ s').2

namespace Mirrors

theorem pure {view : α → β} {a : α} {b : β} (same : b = view a) :
    Mirrors (φ := φ) (ω := ω) set set' view (pure a) (pure b) := by
  intro rule s s' twin
  exact ⟨congrArg some same, twin⟩

theorem fail {view : α → β} {fault fault' : EvalFault} {span span' : Span} :
    Mirrors (φ := φ) (ω := ω) set set' view (fail fault span) (fail fault' span') := by
  intro rule s s' twin
  exact ⟨rfl, twin⟩

theorem bind {view : α → β} {view' : γ → δ} {x : Eval φ ω α} {y : Eval φ ω β}
    {f : α → Eval φ ω γ} {g : β → Eval φ ω δ} (first : Mirrors set set' view x y)
    (rest : ∀ a, Mirrors set set' view' (f a) (g (view a))) :
    Mirrors set set' view' (x >>= f) (y >>= g) := by
  intro rule s s' twin
  obtain ⟨result, after⟩ := first rule s s' twin
  rcases ran : x.runIn ⟨set, rule⟩ s with ⟨e | a, t⟩ <;>
    rcases ran' : y.runIn ⟨set', rule⟩ s' with ⟨e' | b, t'⟩ <;> rw [ran, ran'] at result after
  · rw [runIn_bind_error ran, runIn_bind_error ran']
    exact ⟨rfl, after⟩
  · cases result
  · cases result
  · obtain rfl : b = view a := Option.some.inj result
    rw [runIn_bind_ok ran, runIn_bind_ok ran']
    exact rest a rule t t' after

/-- Evaluations that read the session go on alike from twin sessions. -/
theorem get_bind {view : α → β} {f : Session φ ω → Eval φ ω α} {g : Session φ ω → Eval φ ω β}
    (rest : ∀ s s', Twin set set' s s' → Mirrors set set' view (f s) (g s')) :
    Mirrors set set' view (get >>= f) (get >>= g) := by
  intro rule s s' twin
  rw [runIn_bind_ok (runIn_get _ s), runIn_bind_ok (runIn_get _ s')]
  exact rest s s' twin rule s s' twin

theorem update {f g : Session φ ω → Session φ ω}
    (keep : ∀ s s', Twin set set' s s' → Twin set set' (f s) (g s')) :
    Mirrors set set' id (modify f : Eval φ ω PUnit) (modify g) := by
  intro rule s s' twin
  exact ⟨rfl, keep s s' twin⟩

theorem update_bind {view : α → β} {f g : Session φ ω → Session φ ω} {x : Eval φ ω α}
    {y : Eval φ ω β} (keep : ∀ s s', Twin set set' s s' → Twin set set' (f s) (g s'))
    (rest : Mirrors set set' view x y) :
    Mirrors set set' view (do modify f; x) (do modify g; y) :=
  .bind (.update keep) fun _ => rest

theorem read_bind {view : α → β} {f : Frame → Eval φ ω α} {g : Frame → Eval φ ω β}
    (rest : ∀ rule, Mirrors set set' view (f ⟨set, rule⟩) (g ⟨set', rule⟩)) :
    Mirrors set set' view (read >>= f) (read >>= g) := by
  intro rule s s' twin
  rw [runIn_bind_ok (runIn_read _ s), runIn_bind_ok (runIn_read _ s')]
  exact rest rule rule s s' twin

theorem ofExcept {ε : Type} {fault : ε → EvalFault} {span span' : Span} {r : Except ε α} :
    Mirrors (φ := φ) (ω := ω) set set' id (ofExcept fault span r) (ofExcept fault span' r) := by
  cases r with
  | ok a => exact .pure rfl
  | error e => exact .fail

theorem truth {op : LogicOp} {operand operand' : Expr} {v : Value} :
    Mirrors (φ := φ) (ω := ω) set set' id (truth op operand v) (truth op operand' v) := by
  cases v
  case bool b => exact .pure rfl
  all_goals exact .fail

/-- Two evaluations that are the same apart from spans as a third are so as each other. -/
theorem of_bare {x y z : Eval φ ω α} (hx : Mirrors set set' id x z) (hy : Mirrors set' set' id y z) :
    Mirrors set set' id x y := by
  intro rule s s' twin
  obtain ⟨result, after⟩ := hx rule s s' twin
  obtain ⟨result', after'⟩ := hy rule s' s' (.refl twin.tracks')
  rw [Option.map_id_fun, id_eq] at result result'
  exact ⟨by rw [Option.map_id_fun, id_eq, ← result, result'], after.trans after'.symm⟩

/-- Accesses that differ in spans only. -/
theorem accessFact {access access' : φ → Except StepFault α × φ}
    (alike : ∀ f, (access' f).2 = (access f).2 ∧ (access' f).1.toOption = (access f).1.toOption)
    (name : String) (span span' : Span) :
    Mirrors (ω := ω) set set' id (accessFact name span access)
      (accessFact name span' access') := by
  refine .get_bind fun s s' twin => ?_
  rw [twin.context_eq]
  cases Entries.get? s.context.facts name with
  | none => exact .get_bind fun _ _ _ => .fail
  | some f =>
    obtain ⟨next, result⟩ := alike f
    dsimp only
    rw [next]
    refine .update_bind (fun u u' twin => ?_) ?_
    · unfold Session.setFact
      rw [twin.context_eq]
      exact twin.withContext _
    · obtain ⟨e, e', ran, ran'⟩ | ⟨a, ran, ran'⟩ := cases_of_toOption_eq result <;>
        rw [ran, ran']
      · exact .fail
      · exact .pure rfl

theorem callIntrinsic (sh : Shuffled set set') (i : Intrinsic) (args : List Value)
    (span span' : Span) : Mirrors (φ := φ) (ω := ω) set set' id (callIntrinsic i args span)
      (callIntrinsic i args span') := by
  match i, args with
  | .log, args => exact .read_bind fun rule => .update fun _ _ twin => twin.record _ _
  | .complete, [] =>
    refine .update fun u u' twin => ?_
    exact ⟨twin.context_eq, twin.retracted_eq, rfl, twin.tracks.of_eq rfl rfl,
      twin.tracks'.of_eq rfl rfl⟩
  | .retract, [.text name] =>
    refine .read_bind fun rule => ?_
    dsimp only
    cases pos : set.position? name with
    | some i =>
      obtain ⟨i', pos'⟩ := sh.position? pos
      rw [pos']
      exact .update fun _ _ twin => twin.retract sh pos pos'
    | none =>
      rw [sh.position?_eq_none pos]
      exact .fail
  | .retract, [.nil] | .retract, [.bool _] | .retract, [.int _] | .retract, [.float _]
  | .retract, [.list _] | .retract, [.map _] => exact .read_bind fun _ => .fail
  | .retract, [] | .retract, _ :: _ :: _ | .complete, _ :: _ => exact .fail

theorem callHost (name : String) (args : List Value) (span span' : Span) :
    Mirrors (φ := φ) (ω := ω) set set' id (callHost name args span) (callHost name args span') := by
  refine .get_bind fun s s' twin => ?_
  rw [twin.context_eq]
  cases Entries.get? s.context.functions name with
  | none => exact .fail
  | some f =>
    refine .update_bind (fun _ _ twin => twin.record _ _) ?_
    refine .get_bind fun t t' twin => ?_
    rw [twin.context_eq]
    refine .update_bind (fun u u' twin => ?_) .ofExcept
    unfold Session.setWorld
    rw [twin.context_eq]
    exact twin.withContext _

theorem call (sh : Shuffled set set') (name : String) (args : List Value) (span span' : Span) :
    Mirrors (φ := φ) (ω := ω) set set' id (call name args span) (call name args span') := by
  unfold Eval.call
  cases Intrinsic.ofName? name with
  | none => exact .callHost name args span span'
  | some i => exact (Mirrors.callIntrinsic sh i args span span').bind fun _ => .pure rfl

variable [FactOps φ]

theorem readPlace (p : Place) :
    Mirrors (φ := φ) (ω := ω) set set' id (readPlace p) (readPlace p.bare) := by
  rcases p with ⟨base, steps⟩
  cases base with
  | fact name span =>
    change Mirrors set set' id _
      (Eval.accessFact name {} (Chain.readFact (steps.map Step.bare).reverse))
    rw [← List.map_reverse]
    exact .accessFact (Chain.readFact_bare steps.reverse) name span {}
  | value v =>
    have same := Chain.readValue_bare steps.reverse v
    rw [List.map_reverse] at same
    unfold Eval.readPlace Place.bare Base.bare
    dsimp only
    obtain ⟨e, e', ran, ran'⟩ | ⟨a, ran, ran'⟩ := cases_of_toOption_eq same <;> rw [ran, ran']
    · exact .fail
    · exact .pure rfl

mutual

theorem place (sh : Shuffled set set') : ∀ e : Expr,
    Mirrors (φ := φ) (ω := ω) set set' Place.bare (place e) (place e.bare)
  | .literal .. | .ident .. => .pure rfl
  | .unary _ operand _ =>
    (place sh operand).bind fun p => (readPlace p).bind fun _ => (Mirrors.ofExcept).bind fun _ =>
      .pure rfl
  | .arith _ l r _ | .compare _ l r _ =>
    (place sh l).bind fun p => (readPlace p).bind fun _ => (place sh r).bind fun q =>
      (readPlace q).bind fun _ => (Mirrors.ofExcept).bind fun _ => .pure rfl
  | .logic op l r _ =>
    (place sh l).bind fun p => (readPlace p).bind fun v => Mirrors.truth.bind fun b => by
      dsimp only [id]
      split
      · exact .pure rfl
      · exact (place sh r).bind fun q => (readPlace q).bind fun _ => Mirrors.truth.bind fun _ =>
          .pure rfl
  | .member object _ _ => (place sh object).bind fun _ => .pure rfl
  | .index object key _ =>
    (place sh object).bind fun _ => (place sh key).bind fun q => (readPlace q).bind fun _ =>
      .pure rfl
  | .call name args span =>
    (values sh args).bind fun vs => (Mirrors.call sh name vs span {}).bind fun _ => .pure rfl
  | .method receiver _ args _ =>
    (place sh receiver).bind fun _ => (values sh args).bind fun _ => .pure rfl

theorem values (sh : Shuffled set set') : ∀ es : List Expr,
    Mirrors (φ := φ) (ω := ω) set set' id (values es) (values (Expr.bareAll es))
  | [] => .pure rfl
  | e :: es =>
    (place sh e).bind fun p => (readPlace p).bind fun _ => (values sh es).bind fun _ => .pure rfl

end

theorem eval (sh : Shuffled set set') (e : Expr) :
    Mirrors (φ := φ) (ω := ω) set set' id (eval e) (eval e.bare) :=
  (place sh e).bind fun p => readPlace p

theorem condition (sh : Shuffled set set') (r : Rule) :
    Mirrors (φ := φ) (ω := ω) set set' id (condition r) (condition r.bare) := by
  refine (eval sh r.condition).bind fun v => ?_
  cases v
  case bool b => exact .pure rfl
  all_goals exact .fail

theorem assign (sh : Shuffled set set') (target : Expr) (v : Value) :
    Mirrors (φ := φ) (ω := ω) set set' id (assign target v) (assign target.bare v) := by
  unfold Eval.assign
  rw [target.root?_bare]
  split
  · exact .fail
  · refine (place sh target).bind fun p => ?_
    match p with
    | ⟨.fact _ _, []⟩ | ⟨.value _, _⟩ => exact .fail
    | ⟨.fact name span, step :: steps⟩ =>
      change Mirrors set set' id _
        (Eval.accessFact name {} (Chain.writeFact v ((step :: steps).map Step.bare).reverse))
      rw [← List.map_reverse]
      exact .accessFact (Chain.writeFact_bare v _) name span {}

theorem execute (sh : Shuffled set set') (a : Statement) :
    Mirrors (φ := φ) (ω := ω) set set' id (Eval.execute a) (Eval.execute a.bare) := by
  cases a with
  | call e span => exact (eval sh e).bind fun _ => .pure rfl
  | assign target value span => exact (eval sh value).bind fun v => assign sh target v

theorem executeAll (sh : Shuffled set set') (as : List Statement) :
    Mirrors (φ := φ) (ω := ω) set set' id (executeAll as) (executeAll (as.map Statement.bare)) := by
  induction as with
  | nil => exact .pure rfl
  | cons a rest ih => exact (execute sh a).bind fun _ => ih

end Mirrors

end Engine

end Rulebook
