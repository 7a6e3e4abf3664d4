import Mathlib
import Rulebook.Proofs.Engine.Fetch
import Rulebook.Proofs.Eval.Composed

/-!
# Plain facts are only read

Evaluating an expression leaves a plain fact as it is, and so does finding the rules that match,
whatever the other facts are like. In a run only an assignment can change it, and only one through a
chain that starts at its name.
-/

namespace Rulebook.Eval

variable {φ ω α : Type} {name : String} {fr : Frame}

/-- The name stands for this fact. -/
def Has (name : String) (f : φ) (s : Session φ ω) : Prop :=
  Entries.get? s.context.facts name = some f

/-- The name keeps standing for this fact. -/
def Leaves (name : String) (f : φ) (x : Eval φ ω α) : Prop :=
  ∀ fr s, Has name f s → Has name f (x.runIn fr s).2

/-- An access puts back one fact only. -/
theorem Has.accessFact {f : φ} {s : Session φ ω} (has : Has name f s) {other : String}
    {access : φ → Except StepFault α × φ} (kept : other = name → (access f).2 = f) (span : Span) :
    Has name f ((accessFact other span access : Eval φ ω α).runIn fr s).2 := by
  unfold Eval.accessFact
  rw [runIn_bind_ok (runIn_get fr s)]
  rcases found : Entries.get? s.context.facts other with _ | g
  · exact has
  have put : Has name f (s.setFact other (access g).2) := by
    unfold Has Session.setFact
    dsimp only
    rw [Entries.get?_insert]
    split
    · next same =>
      subst same
      obtain rfl : f = g := Option.some.inj (has.symm.trans found)
      rw [kept rfl]
    · exact has
  dsimp only
  rw [runIn_bind_ok (runIn_modify _ fr s)]
  cases (access g).1 <;> exact put

theorem runIn_accessFact_ok {f f' : φ} {s : Session φ ω} (has : Has name f s)
    {access : φ → Except StepFault α × φ} {a : α} (ran : access f = (.ok a, f')) (span : Span) :
    ((accessFact name span access : Eval φ ω α).runIn fr s).1 = .ok a := by
  unfold Eval.accessFact
  rw [runIn_bind_ok (runIn_get fr s), has]
  dsimp only
  rw [ran]
  rfl

variable {f : Fact}

theorem Leaves.closed (plain : f.Plain) : Closed (φ := Fact) (ω := ω) (Leaves name f) where
  pure _ _ _ has := has
  fail _ _ _ _ has := has
  bind hx hf fr s has := after_bind (P := Has name f) (hx fr s has) fun a t _ => hf a fr t
  access _ span steps _ _ has := has.accessFact (fun _ => Chain.readFact_plain plain steps) span

theorem Leaves.call (name : String) (f : φ) (function : String) (args : List Value) (span : Span) :
    Leaves name f (call function args span : Eval φ ω Value) := by
  intro fr s has
  unfold Has
  rwa [facts_call]

theorem Leaves.place (plain : f.Plain) (e : Expr) :
    Leaves name f (place e : Eval Fact ω Place) :=
  (Leaves.closed plain).place e fun function _ span _ vs => .call name f function vs span

theorem Leaves.eval (plain : f.Plain) (e : Expr) : Leaves name f (eval e : Eval Fact ω Value) :=
  (Leaves.closed plain).eval e fun function _ span _ vs => .call name f function vs span

theorem Leaves.condition (plain : f.Plain) (r : Rule) :
    Leaves name f (condition r : Eval Fact ω Bool) :=
  (Leaves.closed plain).condition r fun function _ span _ vs => .call name f function vs span

/-! ## Actions -/

variable {s : Session Fact ω}

/-- An assignment can change the fact only if its chain starts there, and if it succeeds. -/
theorem Has.assign (plain : f.Plain) (has : Has name f s) (target : Expr) (v : Value) :
    Has name f ((assign target v).runIn fr s).2 ∨
      ((assign target v).runIn fr s).1 = .ok () ∧ target.root? = some name := by
  unfold Eval.assign
  split
  · exact .inl has
  have kept := Leaves.place plain target fr s has
  rcases placed : (place target : Eval Fact ω Place).runIn fr s with ⟨e | ⟨base, steps⟩, t⟩ <;>
    rw [placed] at kept
  · rw [runIn_bind_error placed]
    exact .inl kept
  rw [runIn_bind_ok placed]
  have root := places_root target fr s _ t placed
  match base, steps with
  | .value _, _ => exact .inl kept
  | .fact _ _, [] => exact .inl kept
  | .fact other span, step :: steps =>
    dsimp only
    by_cases same : other = name
    · subst same
      rcases written : Chain.writeFact v (step :: steps).reverse f with ⟨e | ⟨⟩, f'⟩
      · have back : (Chain.writeFact v (step :: steps).reverse f).2 = f := by
          rw [written]
          exact Chain.writeFact_error plain written
        exact .inl (kept.accessFact (fun _ => back) span)
      · exact .inr ⟨runIn_accessFact_ok kept written span, root.symm⟩
    · exact .inl (kept.accessFact (fun is => absurd is same) span)

theorem Has.execute (plain : f.Plain) (has : Has name f s) (a : Statement) (fr : Frame) :
    Has name f ((execute a).runIn fr s).2 ∨
      ((execute a).runIn fr s).1 = .ok () ∧
        ∃ target value span, a = .assign target value span ∧ target.root? = some name := by
  cases a with
  | call e span =>
    exact .inl (after_bind (P := Has name f) (Leaves.eval plain e fr s has) fun _ _ _ kept => kept)
  | assign target value span =>
    unfold Eval.execute
    have kept := Leaves.eval plain value fr s has
    rcases ran : (eval value : Eval Fact ω Value).runIn fr s with ⟨e | v, t⟩ <;> rw [ran] at kept
    · rw [runIn_bind_error ran]
      exact .inl kept
    · rw [runIn_bind_ok ran]
      exact (kept.assign plain target v).imp_right fun ⟨ok, root⟩ =>
        ⟨ok, target, value, span, rfl, root⟩

end Rulebook.Eval

namespace Rulebook.Engine

open Rulebook.Eval (Has Leaves)

variable {ω : Type} {set : RuleSet} {name : String} {f : Fact} {s t : Session Fact ω}

/-! ## Finding rules -/

theorem leaves_holding (plain : f.Plain) (rules : List Numbered) :
    Leaves name f (holding rules : Eval Fact ω (List Numbered)) := by
  have closed : Eval.Closed (φ := Fact) (ω := ω) (Leaves name f) := Leaves.closed plain
  induction rules with
  | nil => exact closed.pure _
  | cons n rest ih =>
    unfold holding
    refine closed.bind (fun _ _ has => has) fun s => ?_
    split
    · have tried : Leaves name f (Eval.inRule n.2.name (Eval.condition n.2) : Eval Fact ω Bool) :=
        fun fr => Leaves.condition plain n.2 { fr with rule := some n.2.name }
      exact closed.bind tried fun holds => closed.bind ih fun others => closed.pure _
    · exact ih

theorem leaves_matching (plain : f.Plain) :
    Leaves name f (matching : Eval Fact ω (List Numbered)) := by
  have closed : Eval.Closed (φ := Fact) (ω := ω) (Leaves name f) := Leaves.closed plain
  exact closed.bind (fun _ _ has => has) fun _ => closed.bind (leaves_holding plain _) fun _ =>
    closed.pure _

theorem Matches.has (plain : f.Plain) {active : Array Bool} {rules : List Numbered}
    {result : Except Error (List Numbered)} (m : Matches set active rules s result t)
    (has : Has name f s) : Has name f t := by
  have kept (r : Rule) (u : Session Fact ω) (has : Has name f u) :
      Has name f (tryRule set r u).2 := Leaves.condition plain r ⟨set, some r.name⟩ u has
  induction m with
  | nil => exact has
  | inactive _ _ ih => exact ih has
  | @holds _ r _ s _ _ _ _ tried _ ih | @lacks _ r _ s _ _ _ _ tried _ ih =>
    have here := kept r s has
    rw [tried] at here
    exact ih here
  | @fails _ r _ s _ _ _ tried =>
    have here := kept r s has
    rwa [tried] at here

/-! ## Runs -/

/-- The firing came to an action and performed it, which led from `u` to `v`. -/
def Firing.Executes (set : RuleSet) (g : Firing Fact ω) (a : Statement) (u v : Session Fact ω) :
    Prop :=
  ∃ done rest, g.chosen.2.actions = done ++ a :: rest ∧
    Performs set g.chosen.2 done g.begun (.ok ()) u ∧
    (Eval.execute a).runIn ⟨set, some g.name⟩ u = (.ok (), v)

/-- The firing changed the fact by an assignment to one of its parts. -/
def Firing.Assigns (set : RuleSet) (name : String) (f : Fact) (g : Firing Fact ω) : Prop :=
  ∃ target value span u v, target.root? = some name ∧
    g.Executes set (.assign target value span) u v ∧ Has name f u ∧ ¬ Has name f v

/-- The first action after which the fact is another one is an assignment to it. -/
theorem Performs.has_or_assigns (plain : f.Plain) {r : Rule} {as : List Statement}
    {result : Except Error Unit} (h : Performs set r as s result t) (has : Has name f s) :
    Has name f t ∨ ∃ done target value span rest u v,
      as = done ++ .assign target value span :: rest ∧ target.root? = some name ∧
      Performs set r done s (.ok ()) u ∧
      (Eval.execute (.assign target value span)).runIn ⟨set, some r.name⟩ u = (.ok (), v) ∧
      Has name f u ∧ ¬ Has name f v := by
  induction h with
  | nil => exact .inl has
  | @next a rest s u _ _ ran _ ih =>
    by_cases kept : Has name f u
    · refine (ih kept).imp_right ?_
      rintro ⟨done, target, value, span, rest, v, w, rfl, root, before, executed, changes⟩
      exact ⟨a :: done, target, value, span, rest, v, w, rfl, root, .next ran before, executed,
        changes⟩
    · have here := has.execute plain a ⟨set, some r.name⟩
      rw [ran] at here
      obtain kept' | ⟨-, target, value, span, rfl, root⟩ := here
      · exact absurd kept' kept
      · exact .inr ⟨[], target, value, span, rest, s, u, rfl, root, .nil s, ran, has, kept⟩
  | @fails a _ s _ _ ran =>
    have here := has.execute plain a ⟨set, some r.name⟩
    rw [ran] at here
    obtain kept | ⟨ok, -⟩ := here
    · exact .inl kept
    · cases ok

theorem Firing.Valid.has_or_assigns (plain : f.Plain) {g : Firing Fact ω} (valid : g.Valid set)
    (has : Has name f g.before) : Has name f g.finish ∨ g.Assigns set name f := by
  have matched : Has name f g.matched := valid.found.has plain has
  have begun : Has name f g.begun := matched
  refine (valid.performed.has_or_assigns plain begun).imp_right ?_
  rintro ⟨done, target, value, span, rest, u, v, split, root, before, executed, changes⟩
  exact ⟨target, value, span, u, v, root, ⟨done, rest, split, before, executed⟩, changes⟩

theorem Forward.has_or_assigns (plain : f.Plain) {maxCycles count : Nat} {last : String}
    {e : Ending Fact ω} (run : Forward set maxCycles count last s e) (has : Has name f s) :
    Has name f e.session ∨ ∃ g ∈ e.firings, g.Assigns set name f := by
  induction run with
  | quiescent matched | conditionFails matched => exact .inl (matched.has plain has)
  | limit matched =>
    have kept := matched.has plain has
    exact .inl kept
  | completed before valid | actionFails before valid =>
    subst before
    exact (valid.has_or_assigns plain has).imp_right fun assigns => ⟨_, .head _, assigns⟩
  | next before valid _ _ _ _ ih =>
    subst before
    obtain kept | assigns := valid.has_or_assigns plain has
    · refine (ih kept).imp_right ?_
      rintro ⟨g, mem, assigns⟩
      exact ⟨g, .tail _ mem, assigns⟩
    · exact .inr ⟨_, .head _, assigns⟩

/-- Evaluating leaves a table of plain facts as it is, and whatever the other facts are like, a plain
one stays until it is assigned to. -/
theorem plain_facts_read_only :
    (∀ (e : Expr) (fr : Frame) (s : Session Fact ω), Entries.Sorted s.context.facts →
      (∀ b ∈ s.context.facts, b.2.Plain) →
        ((Eval.eval e).runIn fr s).2.context.facts = s.context.facts) ∧
    ∀ (name : String) (f : Fact), f.Plain →
      (∀ (e : Expr) (fr : Frame) (s : Session Fact ω),
        Entries.get? s.context.facts name = some f →
          Entries.get? ((Eval.eval e).runIn fr s).2.context.facts name = some f) ∧
      (∀ (kb : KnowledgeBase) (c : Context Fact ω), Entries.get? c.facts name = some f →
        Entries.get? (fetchMatching c kb).session.context.facts name = some f) ∧
      ∀ (kb : KnowledgeBase) (maxCycles : Nat) (c : Context Fact ω), kb.ruleSet.Compiled →
        Entries.get? c.facts name = some f →
        ∃ e, Forward kb.ruleSet maxCycles 0 "" (start kb.ruleSet c) e ∧
          execute maxCycles c kb = ⟨e.outcome.map (e.report kb.ruleSet), e.final⟩ ∧
          (Entries.get? (execute maxCycles c kb).session.context.facts name ≠ some f →
            ∃ g ∈ e.firings, ∃ target value span u v, target.root? = some name ∧
              g.Executes kb.ruleSet (.assign target value span) u v ∧
              Entries.get? u.context.facts name = some f ∧
              Entries.get? v.context.facts name ≠ some f) := by
  refine ⟨fun e fr s sorted plain => ?_, fun name f plain => ⟨fun e => Leaves.eval plain e,
    fun kb c has => ?_, fun kb maxCycles c compiled has => ?_⟩⟩
  · have closed := Eval.Keeps.closed (ω := ω) sorted plain
    exact closed.eval e (fun _ _ _ _ _ => .call _ _ _) fr s rfl
  · have closed : Eval.Closed (φ := Fact) (ω := ω) (Leaves name f) := Leaves.closed plain
    exact closed.bind (leaves_matching plain) (fun _ => closed.pure _) ⟨kb.ruleSet, none⟩
      (.start c kb.active) has
  · obtain ⟨e, run, executed⟩ := execute_eq compiled maxCycles c
    refine ⟨e, run, executed, fun changed => ?_⟩
    rw [executed, Ending.final_context] at changed
    exact (run.has_or_assigns plain has).resolve_left changed

/-- The document that counts is changed by the assignment to its member. -/
theorem plain_facts_read_only_counting :
    ∃ e, Forward counting.ruleSet 5 0 "" (start counting.ruleSet counter) e ∧
      ∃ g ∈ e.firings, ∃ target value span u v, target.root? = some "D" ∧
        g.Executes counting.ruleSet (.assign target value span) u v := by
  have plain : (Fact.document (.object [("n", .ofInt64 0)])).Plain :=
    .document (.object (List.pairwise_singleton ..) (by simpa using .number))
  have shown : ((Entries.get? (execute 5 counter counting).session.context.facts "D").bind
      (·.get? "n")).map Value.shown = some "2" := by
    decide +kernel
  obtain ⟨-, -, runs⟩ := (plain_facts_read_only (ω := Unit)).2 "D" _ plain
  obtain ⟨e, run, -, changes⟩ := runs counting 5 counter counting_compiled rfl
  refine ⟨e, run, ?_⟩
  have changed : Entries.get? (execute 5 counter counting).session.context.facts "D" ≠
      some (.document (.object [("n", .ofInt64 0)])) := by
    intro same
    rw [same] at shown
    revert shown
    decide +kernel
  obtain ⟨g, mem, target, value, span, u, v, root, executed, -⟩ := changes changed
  exact ⟨g, mem, target, value, span, u, v, root, executed⟩

end Rulebook.Engine
