import Mathlib
import Rulebook.Proofs.Engine.History
import Rulebook.Proofs.Eval.Linkwise
import Rulebook.Proofs.RuleSet.Shown
import Rulebook.Proofs.RuleSet.Spans

/-!
# Chains that cannot break

What parses has chains with a name or a call at their base, and assigns to members and elements
only. A run of compiled rules that takes every chain apart therefore never finds a malformed one. It
ends as the run does that follows chains from link to link, with the same result and the same
session.
-/

namespace Rulebook

namespace Linkwise

open Engine (Numbered)

variable {φ ω α β : Type}

/-! ## Agreement -/

/-- Whatever session it starts from, it finds no malformed chain, and ends with the result and the
session that the other evaluation has. -/
def Agrees (fr : Frame) (x : Linkwise φ ω α) (y : Eval φ ω α) : Prop :=
  ∀ s, x.on fr s = some (.ok (y.runIn fr s))

namespace Agrees

variable {fr : Frame} {x : Linkwise φ ω α} {y : Eval φ ω α}

theorem of_eq (h : x = lift y) : Agrees fr x y := fun s => h ▸ on_lift y fr s

theorem bind {f : α → Linkwise φ ω β} {g : α → Eval φ ω β} (h : Agrees fr x y)
    (rest : ∀ a s t, y.runIn fr s = (.ok a, t) → Agrees fr (f a) (g a)) :
    Agrees fr (x >>= f) (y >>= g) := by
  intro s
  have first := h s
  rcases ran : y.runIn fr s with ⟨e | a, t⟩ <;> rw [ran] at first
  · rw [on_bind_error first, Eval.runIn_bind_error ran]
  · rw [on_bind_ok first, Eval.runIn_bind_ok ran, rest a s t ran t]

end Agrees

/-! ## Runs -/

def runWith (x : Linkwise φ ω α) (s : RuleSet) (active : Array Bool) (c : Context φ ω) :
    Option (Except Malformed (Run φ ω α)) :=
  (x.on ⟨s, none⟩ (.start c active)).map (·.map fun (result, final) => ⟨result, final⟩)

theorem Agrees.runWith {x : Linkwise φ ω α} {y : Eval φ ω α} {s : RuleSet}
    (h : Agrees ⟨s, none⟩ x y) (active : Array Bool) (c : Context φ ω) :
    runWith x s active c = some (.ok (Engine.runWith y s active c)) := by
  unfold Linkwise.runWith
  rw [h]
  rfl

variable [FactOps φ]

def holding : List Numbered → Linkwise φ ω (List Numbered)
  | [] => return []
  | (i, r) :: rest => do
    if (← get).active.getD i false then
      let holds ← inRule r.name (condition r)
      let others ← holding rest
      return if holds then (i, r) :: others else others
    else holding rest

def matching : Linkwise φ ω (List Numbered) := do
  let rules ← holding (Engine.numbered (← read).ruleSet)
  return Engine.byPriority rules

def fireNext (r : Rule) (count : Nat) : Linkwise φ ω Unit := do
  modify fun s => s.record (.firing (s.cycle + 1) count r.name r.salience)
  inRule r.name (executeAll r.actions)
  modify fun s => { s with cycle := s.cycle + 1 }

def cycles (maxCycles : Nat) :
    (left : Nat) → (fired : List String) → Linkwise φ ω (Outcome × List String)
  | 0, fired => do
    match ← matching with
    | [] => return (.quiescent, fired)
    | _ :: _ => lift (Engine.giveUp maxCycles fired)
  | left + 1, fired => do
    match ← matching with
    | [] => return (.quiescent, fired)
    | (_, r) :: others =>
      fireNext r (others.length + 1)
      if (← get).complete then return (.completed, r.name :: fired)
      else cycles maxCycles left (r.name :: fired)

def session (maxCycles : Nat) : Linkwise φ ω Report := do
  let (outcome, fired) ← cycles maxCycles maxCycles []
  let s ← get
  modify (·.record (.finished outcome s.cycle))
  let frame ← read
  return ⟨frame.ruleSet.name, frame.ruleSet.version, outcome, s.cycle, fired.reverse, s.retracted⟩

/-- Runs the rules of a knowledge base, all of them active at first. -/
def run (maxCycles : Nat) (c : Context φ ω) (kb : KnowledgeBase) :
    Option (Except Malformed (Run φ ω Report)) :=
  runWith (session maxCycles) kb.ruleSet kb.reset.active c

/-- The active rules of a knowledge base that match, in the order in which they would fire. -/
def fetch (c : Context φ ω) (kb : KnowledgeBase) :
    Option (Except Malformed (Run φ ω (List Rule))) :=
  runWith (do return (← matching).map Prod.snd) kb.ruleSet kb.active c

/-! ## Never a malformed chain in them -/

theorem holding_eq (rules : List Numbered) :
    (holding rules : Linkwise φ ω (List Numbered)) = lift (Engine.holding rules) := by
  induction rules with
  | nil => rfl
  | cons n rest ih =>
    obtain ⟨i, r⟩ := n
    unfold holding Engine.holding
    rw [lift_bind, lift_get]
    refine bind_congr fun s => ?_
    split
    · simp only [condition_eq, ih, lift_bind, lift_pure, lift_inRule]
    · exact ih

theorem matching_eq : (matching : Linkwise φ ω (List Numbered)) = lift Engine.matching := by
  unfold matching Engine.matching
  simp only [holding_eq, lift_bind, lift_read, lift_pure]

theorem fireNext_eq {r : Rule} (h : ∀ a ∈ r.actions, a.WellFormed) (count : Nat) :
    (fireNext r count : Linkwise φ ω Unit) = lift (Engine.fireNext r count) := by
  unfold fireNext Engine.fireNext Engine.fireRule
  simp only [executeAll_eq h, lift_bind, lift_modify, lift_inRule]

theorem cycles_agrees {fr : Frame} (h : ∀ r ∈ fr.ruleSet.rules, r.WellFormed)
    (maxCycles left : Nat) (fired : List String) :
    Agrees (φ := φ) (ω := ω) fr (cycles maxCycles left fired)
      (Engine.cycles maxCycles left fired) := by
  induction left generalizing fired with
  | zero =>
    refine .bind (.of_eq matching_eq) fun rules _ _ _ => ?_
    cases rules with
    | nil => exact .of_eq rfl
    | cons n others => exact .of_eq rfl
  | succ left ih =>
    refine .bind (.of_eq matching_eq) fun rules s t ran => ?_
    cases rules with
    | nil => exact .of_eq rfl
    | cons n others =>
      -- what fires is a rule of the set, so its targets are places
      have rule := h _ (Engine.mem_rules_of_matching ran (.head _))
      refine .bind (.of_eq (fireNext_eq rule.actions _)) fun _ _ _ _ => ?_
      refine .bind (.of_eq lift_get.symm) fun u _ _ _ => ?_
      split
      · exact .of_eq rfl
      · exact ih _

theorem session_agrees {fr : Frame} (h : ∀ r ∈ fr.ruleSet.rules, r.WellFormed) (maxCycles : Nat) :
    Agrees (φ := φ) (ω := ω) fr (session maxCycles) (Engine.session maxCycles) :=
  .bind (cycles_agrees h maxCycles maxCycles []) fun _ _ _ _ => .of_eq rfl

end Linkwise

open Linkwise (Agrees)

/-! ## Parsed and compiled rules -/

/-- What the chains in rules look like. -/
structure Chained (rules : List Rule) : Prop where
  base : ∀ r ∈ rules, ∀ e ∈ r.nodes, e.isLink → e.split.1.isHead
  links : ∀ r ∈ rules, ∀ e ∈ r.nodes, ∀ link ∈ e.split.2, link.isLink
  rebuilt : ∀ r ∈ rules, ∀ e ∈ r.nodes, e.split.2.foldl Expr.attach e.split.1 = e
  root : ∀ r ∈ rules, ∀ e ∈ r.nodes, ∀ name,
    e.root? = some name ↔ ∃ span, e.split.1 = .ident name span
  targets : ∀ r ∈ rules, ∀ target value span, .assign target value span ∈ r.actions →
    ∃ before last, target.split.2 = before ++ [last] ∧ Grammar.isPlace last

/-- Nothing that is evaluated link by link finds a malformed chain. -/
structure Unbroken {φ ω : Type} [FactOps φ] (kb : KnowledgeBase) (c : Context φ ω) : Prop where
  conditions : ∀ r ∈ kb.ruleSet.rules, ∀ fr,
    Agrees (φ := φ) (ω := ω) fr (Linkwise.condition r) (Eval.condition r)
  actions : ∀ r ∈ kb.ruleSet.rules, ∀ fr,
    Agrees (φ := φ) (ω := ω) fr (Linkwise.executeAll r.actions) (Eval.executeAll r.actions)
  run : ∀ maxCycles, Linkwise.run maxCycles c kb = some (.ok (Engine.execute maxCycles c kb))
  fetch : Linkwise.fetch c kb = some (.ok (Engine.fetchMatching c kb))

theorem Rule.WellFormed.of_mem_nodes {r : Rule} (h : r.WellFormed) {e : Expr} (node : e ∈ r.nodes) :
    e.WellFormed := by
  rcases List.mem_append.mp node with node | node
  · exact h.condition.of_mem_nodes node
  · obtain ⟨part, listed, node⟩ := List.mem_flatMap.mp node
    obtain ⟨a, act, listed⟩ := List.mem_flatMap.mp listed
    have action := h.actions a act
    cases a with
    | assign target value span =>
      simp only [Statement.exprs, List.mem_cons, List.not_mem_nil, or_false] at listed
      rcases listed with rfl | rfl
      · exact action.1.of_mem_nodes node
      · exact action.2.2.of_mem_nodes node
    | call call span =>
      obtain rfl := List.mem_singleton.mp listed
      exact action.1.of_mem_nodes node

theorem chained_of_wellFormed {rules : List Rule} (h : ∀ r ∈ rules, r.WellFormed) :
    Chained rules where
  base r mem e node link := by
    have chain : e.isChain := by cases e <;> trivial
    exact ((h r mem).of_mem_nodes node).isHead_base chain
  links r mem e node link := Expr.isLink_of_mem_split
  rebuilt r mem e node := e.foldl_attach_split
  root r mem e node name := Expr.root?_eq_some_iff
  targets r mem target value span act := by
    have place : Grammar.isPlace target := ((h r mem).actions _ act).2.1
    obtain ⟨object, link⟩ := Expr.exists_object_of_isPlace place
    exact ⟨object.split.2, target, congrArg Prod.snd (Expr.split_of_link link), place⟩

theorem unbroken_of_wellFormed {φ ω : Type} [FactOps φ] {kb : KnowledgeBase}
    (h : ∀ r ∈ kb.ruleSet.rules, r.WellFormed) (c : Context φ ω) : Unbroken kb c where
  conditions r _ _ := .of_eq (Linkwise.condition_eq r)
  actions r mem _ := .of_eq (Linkwise.executeAll_eq (h r mem).actions)
  run maxCycles := (Linkwise.session_agrees h maxCycles).runWith kb.reset.active c
  fetch :=
    Agrees.runWith (.bind (.of_eq Linkwise.matching_eq) fun _ _ _ _ => .of_eq rfl) kb.active c

/-- In the rules of any text a chain has a name or a call by a bare name at its base, and attaching
its links to that builds it again; assignments lead to a member or an element. Whatever compiles is
therefore evaluated, rule by rule and over whole runs, without an empty path, an assigned call or a
link that is none. -/
theorem chained_and_unbroken :
    (∀ {source text : String} {limits : Limits} {rules : List Rule},
      RuleSet.parse source limits text = .ok rules → Chained rules) ∧
    ∀ {φ ω : Type} [FactOps φ] {kb : KnowledgeBase}, kb.ruleSet.Compiled →
      ∀ c : Context φ ω, Unbroken kb c := by
  refine ⟨fun parsed => chained_of_wellFormed (RuleSet.wellFormed_of_parse parsed), ?_⟩
  intro φ ω _ kb compiled c
  obtain ⟨limits, text, parsed⟩ := compiled.exists_parse
  exact unbroken_of_wellFormed (RuleSet.wellFormed_of_parse parsed) c

/-- Chains on names and calls, some in parentheses, and a target with two elements. -/
def reaching : KnowledgeBase :=
  .ofRuleSet ((RuleSet.compile {} "reach" "1"
    ("rule A \x7b when !(D.a[2 - 1].f(G(-1).b)) then "
      ++ "D.a[0][D.b].c = F().d; D.g(); \x7d").toUTF8).toOption.getD ⟨"", "", "", []⟩)

theorem reaching_compiled : reaching.ruleSet.Compiled :=
  RuleSet.compiled_of_isSome (by decide +kernel)

theorem chained_and_unbroken_reaching : Chained reaching.ruleSet.rules ∧
    Unbroken reaching ({ world := () } : Context Fact Unit) := by
  obtain ⟨limits, text, parsed⟩ := reaching_compiled.exists_parse
  exact ⟨chained_and_unbroken.1 parsed, chained_and_unbroken.2 reaching_compiled _⟩

end Rulebook
