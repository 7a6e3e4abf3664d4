import Mathlib
import Rulebook.Proofs.Engine.History
import Rulebook.Proofs.Eval.Failure

/-!
# Runs of rules that were checked

The checks on a rule set look at its expressions before any of them is evaluated. They are enough
for every run: conditions leave rules and completion alone, `Log`, `Retract` and `Complete` get the
arguments that they need, and `Retract` can fail only on a target that is computed.
-/

namespace Rulebook.Engine

variable {φ ω : Type} [FactOps φ] {set : RuleSet} {r : Rule}

/-! ## What can still go wrong -/

/-- A fault that the checks do not exclude at a place in a rule: one of an access, an operator or a
host function, or a target of `Retract` that is computed. -/
inductive Excused (r : Rule) : EvalFault → Span → Prop
  | other {fault span} : fault.isIntrinsic = false → Excused r fault span
  | target {fault span arg} : fault.isTarget = true → .call "Retract" [arg] span ∈ r.nodes →
      (∀ l at_l, arg ≠ .literal l at_l) → Excused r fault span

/-- The error is a fault in a rule that the checks do not exclude. -/
def Accounted (set : RuleSet) (e : Error) : Prop :=
  ∃ r ∈ set.rules, ∃ fault span, e = .problem ⟨.eval fault, span, some r.name, set.source⟩ ∧
    Excused r fault span

open Eval (FailsOnly Covers Given)

theorem values_literal (l : Literal) (at_l : Span) :
    Eval.GivesOnly (· = [.ofLiteral l])
      (Eval.values [.literal l at_l] : Eval φ ω (List Value)) := by
  rintro fr s _ t ⟨⟩
  rfl

theorem fails_call (h : set.Compiled) (mem : r ∈ set.rules) {name : String} {args : List Expr}
    {span : Span} (call : .call name args span ∈ r.nodes) {vs : List Value}
    (given : Given set (Eval.values args : Eval φ ω (List Value)) vs) :
    FailsOnly set (Excused r) (Eval.call name vs span : Eval φ ω Value) := by
  have length := (Eval.values_length args).of_given given
  unfold Eval.call
  cases named : Intrinsic.ofName? name with
  | none => exact .callHost (fun _ _ => .other) name vs span
  | some i =>
    obtain rfl := Intrinsic.eq_name_of_ofName? named
    refine .bind ?_ fun _ _ => .pure _
    cases i with
    | log => exact .log vs
    | complete =>
      rw [RuleSet.complete_args h mem call] at length
      obtain rfl := List.length_eq_zero_iff.mp length
      exact .complete span
    | retract =>
      obtain ⟨arg, rfl, literal⟩ := RuleSet.retract_args h mem call
      obtain ⟨v, rfl⟩ := List.length_eq_one_iff.mp length
      by_cases computed : ∀ l at_l, arg ≠ .literal l at_l
      · exact .retract v fun fault is => .target is call computed
      · push Not at computed
        obtain ⟨l, at_l, rfl⟩ := computed
        obtain ⟨target, i, rfl, pos⟩ := literal l at_l rfl
        have same := (values_literal (.text target) at_l).of_given given
        cases same
        exact .of_ok fun rule s => ⟨(), _, Eval.runIn_retract pos span rule s⟩

theorem fails_covers (h : set.Compiled) (mem : r ∈ set.rules) :
    Covers (φ := φ) (ω := ω) (Given set) (FailsOnly set (Excused r)) r.nodes where
  read _ _ p _ := .readPlace (fun _ _ => .other) p
  call _ _ _ call _ given := fails_call h mem call given

theorem fails_condition (h : set.Compiled) (mem : r ∈ set.rules) :
    FailsOnly set (Excused r) (Eval.condition r : Eval φ ω Bool) :=
  (FailsOnly.composes fun _ _ => .other).condition ((fails_covers h mem).mono r.nodes_condition)

theorem fails_actions (h : set.Compiled) (mem : r ∈ set.rules) :
    FailsOnly set (Excused r) (Eval.executeAll r.actions : Eval φ ω Unit) :=
  (FailsOnly.composes fun _ _ => .other).executeAll fun _ ha =>
    { exprs := fun _ he => (fails_covers h mem).mono (Rule.nodes_action ha he)
      write := fun _ _ _ _ _ _ _ _ name origin _ => .accessFact (fun _ _ => .other) name origin _ }

theorem accounted_of_tryRule (h : set.Compiled) (mem : r ∈ set.rules) {s t : Session φ ω}
    {e : Error} (tried : tryRule set r s = (.error e, t)) : Accounted set e :=
  ⟨r, mem, fails_condition h mem (some r.name) s e t tried⟩

theorem accounted_of_matches (h : set.Compiled) {s t : Session φ ω} {active : Array Bool}
    {e : Error} (fails : Matches set active (numbered set) s (.error e) t) : Accounted set e := by
  obtain ⟨n, mem, u, tried⟩ := fails.exists_error
  exact accounted_of_tryRule h (rule_mem_of_numbered mem) tried

theorem Firing.Valid.accounted (h : set.Compiled) {f : Firing φ ω} (hf : f.Valid set) {e : Error}
    (fails : f.result = .error e) : Accounted set e := by
  have mem := rule_mem_of_numbered hf.mem
  have ran := hf.executed
  rw [fails] at ran
  exact ⟨f.chosen.2, mem, fails_actions h mem (some f.name) f.begun e f.finish ran⟩

/-- Apart from the limit on cycles, a run fails only as the checks could not tell. -/
theorem Forward.accounted (h : set.Compiled) {maxCycles count : Nat} {last : String}
    {s : Session φ ω} {e : Ending φ ω} (run : Forward set maxCycles count last s e) {error : Error}
    (ends : e.outcome = .error error) :
    (∃ name, error = .cycleLimit maxCycles name) ∨ Accounted set error := by
  obtain limit | ⟨n, mem, u, tried⟩ | ⟨f, valid, fails⟩ := run.exists_error ends
  · exact .inl limit
  · exact .inr (accounted_of_tryRule h (rule_mem_of_numbered mem) tried)
  · exact .inr (valid.accounted h fails)

/-! ## Calls -/

/-- The functions that rules always have are called with as many arguments as they take. -/
theorem length_of_callOf (h : set.Compiled) {i : Intrinsic} {vs : List Value}
    (call : Eval.CallOf φ ω set.nodes i.name vs) {n : Nat} (arity : i.arity? = some n) :
    vs.length = n := by
  obtain ⟨args, span, _, listed, given⟩ := call
  obtain ⟨r, mem, inside⟩ := List.mem_flatMap.mp listed
  rw [(Eval.values_length args).of_given given]
  cases i with
  | log => cases arity
  | retract =>
    obtain ⟨arg, rfl, -⟩ := RuleSet.retract_args h mem inside
    exact Option.some.inj arity
  | complete =>
    rw [RuleSet.complete_args h mem inside]
    exact Option.some.inj arity

/-- `Retract` of a literal retracts the rule of that name. -/
theorem eval_retract_literal {target : String} {i : Nat} (pos : set.position? target = some i)
    (at_l span : Span) (rule : Option String) (s : Session φ ω) :
    (Eval.eval (.call "Retract" [.literal (.text target) at_l] span)).runIn ⟨set, rule⟩ s =
      (.ok .nil, s.retract i target) := by
  have argument : (Eval.values [.literal (.text target) at_l] : Eval φ ω (List Value)).runIn
      ⟨set, rule⟩ s = (.ok [.text target], s) := rfl
  have called : (Eval.call "Retract" [.text target] span : Eval φ ω Value).runIn ⟨set, rule⟩ s =
      (.ok .nil, s.retract i target) :=
    Eval.runIn_bind_ok (Eval.runIn_retract pos span rule s) _
  unfold Eval.eval Eval.place
  rw [bind_assoc, Eval.runIn_bind_ok argument, bind_assoc, Eval.runIn_bind_ok called]
  rfl

/-! ## Runs -/

/-- What the checks guarantee of running the rules of a knowledge base and of finding those that
match. -/
structure Checked (kb : KnowledgeBase) (maxCycles : Nat) (c : Context φ ω) : Prop where
  conditions : ∀ r ∈ kb.ruleSet.rules, ∀ s : Session φ ω, Around s (tryRule kb.ruleSet r s).2 ∧
    ∀ m ∈ Eval.moments ⟨kb.ruleSet, some r.name⟩ r.condition s, Around s m.session
  arguments : ∀ m ∈ sessionMoments ⟨kb.ruleSet, none⟩ maxCycles (start kb.ruleSet c) ++
      matchingMoments ⟨kb.ruleSet, none⟩ (.start c kb.active),
    ∀ (i : Intrinsic) args n, m.call = some (i.name, args) → i.arity? = some n → args.length = n
  execute_error : ∀ e, (execute maxCycles c kb).result = .error e →
    (∃ last, e = .cycleLimit maxCycles last) ∨ Accounted kb.ruleSet e
  fetch_error : ∀ e, (fetchMatching c kb).result = .error e → Accounted kb.ruleSet e
  literals : ∀ r ∈ kb.ruleSet.rules, ∀ l at_l span,
    .call "Retract" [.literal l at_l] span ∈ r.nodes → ∃ target i, l = .text target ∧
      kb.ruleSet.position? target = some i ∧ ∀ rule (s : Session φ ω),
        (Eval.eval (.call "Retract" [.literal l at_l] span)).runIn ⟨kb.ruleSet, rule⟩ s =
          (.ok .nil, s.retract i target)

theorem fetch_accounted {kb : KnowledgeBase} (h : kb.ruleSet.Compiled) (c : Context φ ω) {e : Error}
    (fails : (fetchMatching c kb).result = .error e) : Accounted kb.ruleSet e := by
  obtain ⟨t, step⟩ := (fetch_eq_error_iff h).mp fails
  exact accounted_of_matches h step

/-- What compiles is checked for every run, over all facts and host functions. -/
theorem checked_of_compiled {kb : KnowledgeBase} (h : kb.ruleSet.Compiled) (maxCycles : Nat)
    (c : Context φ ω) : Checked kb maxCycles c where
  conditions r mem s := by
    refine ⟨around_tryRule h mem s, fun m inside => ?_⟩
    exact each_around_tryRule h mem s _ (.tail _ (List.mem_map_of_mem inside))
  arguments := by
    have run := calls_session ⟨kb.ruleSet, none⟩ maxCycles (start kb.ruleSet c)
    have calls := run.append (calls_matching ⟨kb.ruleSet, none⟩ (.start c kb.active))
    intro m mem i args n call arity
    exact length_of_callOf h (calls m mem i.name args call) arity
  execute_error e fails := by
    obtain ⟨ending, run, executed⟩ := execute_eq h maxCycles c
    rw [executed] at fails
    cases ends : ending.outcome with
    | ok o =>
      rw [ends] at fails
      cases fails
    | error e' =>
      rw [ends] at fails
      cases fails
      exact run.accounted h ends
  fetch_error e fails := fetch_accounted h c fails
  literals r mem l at_l span call := by
    obtain ⟨arg, eq, literal⟩ := RuleSet.retract_args h mem call
    cases eq
    obtain ⟨target, i, rfl, pos⟩ := literal l at_l rfl
    exact ⟨target, i, rfl, pos, eval_retract_literal pos at_l span⟩

/-- The second `Retract` has a computed target, and there is no rule of that name. -/
def misnaming : KnowledgeBase :=
  .ofRuleSet ((RuleSet.compile {} "misname" "1"
    ("rule A \x7b when true then Log(); Retract(\"B\"); Retract(\"A\" + 1); \x7d "
      ++ "rule B \x7b when true then Log(1, 2); Complete(); \x7d").toUTF8).toOption.getD
        ⟨"", "", "", []⟩)

theorem misnaming_compiled : misnaming.ruleSet.Compiled :=
  RuleSet.compiled_of_isSome (by decide +kernel)

theorem checked_of_compiled_misnaming :
    Checked misnaming 3 ({ world := () } : Context Fact Unit) :=
  checked_of_compiled misnaming_compiled 3 _

end Rulebook.Engine
