import Mathlib
import Rulebook.Proofs.Engine.History
import Rulebook.Proofs.Eval.Unread
import Rulebook.Sample.Records

/-!
# Facts that no rule mentions

A fact whose name starts no chain in any rule takes no part in a run: the run leaves it alone, and
goes the same way whatever the fact is.
-/

namespace Rulebook.Engine

open Eval (Respects Unnamed)

variable {φ ω : Type} [FactOps φ] {set : RuleSet} {name : String} {f g : φ}

theorem apart_holding {rules : List Numbered} (h : ∀ n ∈ rules, Unnamed name n.2.nodes) :
    Respects set (Session.Apart name f g) (holding rules : Eval φ ω (List Numbered)) := by
  induction rules with
  | nil => exact .pure _
  | cons n rest ih =>
    obtain ⟨i, r⟩ := n
    have others := ih fun m mem => h m (.tail _ mem)
    have condition : Unnamed name r.condition.nodes :=
      fun e mem => h (i, r) (.head _) e (r.nodes_condition mem)
    refine .get_bind (fun apart => by rw [apart.active]) fun s => ?_
    split
    · refine .bind (.inRule (Eval.apart_condition condition)) fun holds _ => ?_
      exact others.bind fun _ _ => .pure _
    · exact others

theorem apart_matching (h : Unnamed name set.nodes) :
    Respects set (Session.Apart name f g) (matching : Eval φ ω (List Numbered)) := by
  refine .read_bind fun rule => .bind (apart_holding fun n mem => ?_) fun _ _ => .pure _
  exact fun e inside => h e (RuleSet.nodes_rule (rule_mem_of_numbered mem) inside)

theorem apart_fireNext {r : Rule} (h : Unnamed name r.nodes) (count : Nat) :
    Respects set (Session.Apart name f g) (fireNext r count : Eval φ ω Unit) := by
  have acts : Respects set (Session.Apart name f g) (fireRule r : Eval φ ω Unit) :=
    .inRule (Eval.apart_executeAll fun a ha e he d mem => h d (Rule.nodes_action ha he mem))
  refine .update_bind (fun apart => ?_) (acts.bind fun _ _ => .update fun apart => ?_)
  · rw [apart.cycle]
    exact apart.record _
  · exact { apart with cycle := congrArg (· + 1) apart.cycle }

omit [FactOps φ] in
theorem apart_giveUp {α : Type} (maxCycles : Nat) (fired : List String) :
    Respects set (Session.Apart name f g) (giveUp maxCycles fired : Eval φ ω α) :=
  .update_bind (fun apart => apart.record _) (.throw _)

theorem apart_cycles (h : Unnamed name set.nodes) (maxCycles left : Nat) (fired : List String) :
    Respects set (Session.Apart name f g)
      (cycles maxCycles left fired : Eval φ ω (Outcome × List String)) := by
  induction left generalizing fired with
  | zero =>
    refine (apart_matching h).bind fun rules _ => ?_
    cases rules with
    | nil => exact .pure _
    | cons => exact apart_giveUp maxCycles fired
  | succ left ih =>
    refine (apart_matching h).bind fun rules given => ?_
    cases rules with
    | nil => exact .pure _
    | cons n others =>
      obtain ⟨_, _, _, ran⟩ := given
      have mem := mem_rules_of_matching ran (.head _)
      have unnamed : Unnamed name n.2.nodes := fun e inside => h e (RuleSet.nodes_rule mem inside)
      refine .bind (apart_fireNext unnamed _) fun _ _ => ?_
      refine .get_bind (fun apart => by rw [apart.complete]) fun s => ?_
      split
      · exact .pure _
      · exact ih _

theorem apart_session (h : Unnamed name set.nodes) (maxCycles : Nat) :
    Respects set (Session.Apart name f g) (session maxCycles : Eval φ ω Report) := by
  refine (apart_cycles h maxCycles maxCycles []).bind fun ⟨o, fired⟩ _ => ?_
  refine .get_bind (fun apart => by rw [apart.cycle, apart.retracted]) fun s => ?_
  exact .update_bind (fun apart => apart.record _) (.read_bind fun _ => .pure _)

theorem execute_apart {kb : KnowledgeBase} (h : Unnamed name kb.ruleSet.nodes) (maxCycles : Nat)
    {c d : Context φ ω} (apart : c.Apart name f g d) :
    (execute maxCycles c kb).result = (execute maxCycles d kb).result ∧
      (execute maxCycles c kb).session.Apart name f g (execute maxCycles d kb).session := by
  have begins : (Session.start c kb.reset.active).Apart name f g (.start d kb.reset.active) :=
    { context := apart
      active := rfl
      retracted := rfl
      complete := rfl
      cycle := rfl
      events := rfl }
  exact apart_session h maxCycles none _ _ begins

/-- A run leaves a fact alone that no rule mentions; and where another fact stands in its place, the
run has the same result and leaves the same behind. -/
theorem execute_unmentioned {kb : KnowledgeBase} (h : Unnamed name kb.ruleSet.nodes)
    (maxCycles : Nat) {c : Context φ ω} (bound : Entries.get? c.facts name = some f) :
    Entries.get? (execute maxCycles c kb).session.context.facts name = some f ∧
      ∀ d g, c.Apart name f g d →
        (execute maxCycles c kb).result = (execute maxCycles d kb).result ∧
          (execute maxCycles c kb).session.Apart name f g (execute maxCycles d kb).session := by
  have itself : c.Apart name f f c :=
    { names := rfl
      others := fun _ _ => rfl
      left := bound
      right := bound
      functions := rfl
      world := rfl }
  exact ⟨(execute_apart h maxCycles itself).2.context.left, fun d g => execute_apart h maxCycles⟩

/-- One rule, which reads and assigns an item of `A`. -/
def single : KnowledgeBase :=
  .ofRuleSet ((RuleSet.compile {} "single" "1"
    "rule R \x7b when A[0] == 0 then A[A[0]] = 1; Log(A[0]); \x7d".toUTF8).toOption.getD
      ⟨"", "", "", []⟩)

/-- A list of one number, and some other fact. -/
def beside (f : Fact) : Context Fact Unit :=
  { facts := [("A", .list (.int .i64) [(0 : Int)]), ("F", f)], world := () }

theorem beside_apart (f g : Fact) : (beside f).Apart "F" f g (beside g) where
  names := rfl
  others other ne := by simp [beside, Entries.get?_cons, ne]
  left := rfl
  right := rfl
  functions := rfl
  world := rfl

theorem execute_unmentioned_beside :
    Unnamed "F" single.ruleSet.nodes ∧
      Entries.get? (execute 5 (beside Sample.probe) single).session.context.facts "F" =
        some Sample.probe ∧
      (execute 5 (beside Sample.probe) single).result =
        (execute 5 (beside (.document .null)) single).result ∧
      (execute 5 (beside Sample.probe) single).session.Apart "F" Sample.probe (.document .null)
        (execute 5 (beside (.document .null)) single).session := by
  have unnamed : Unnamed "F" single.ruleSet.nodes := by decide +kernel
  obtain ⟨stays, same⟩ := execute_unmentioned unnamed 5 (c := beside Sample.probe) rfl
  exact ⟨unnamed, stays, same _ _ (beside_apart _ _)⟩

end Rulebook.Engine
