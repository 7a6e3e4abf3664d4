import Mathlib
import Rulebook.Proofs.Engine.Interrupted
import Rulebook.Proofs.Eval.Origin
import Rulebook.Proofs.RuleSet.Spans

/-!
# Whose errors they are

An error of an evaluation names the rule whose condition or action was evaluated, and has the span
of an expression that the evaluation got to there. It lies in the rule. Between conditions and
firings no rule is current.
-/

namespace Rulebook.Engine

variable {φ ω α : Type} [FactOps φ] {set : RuleSet} {r : Rule} {p : Problem}

/-! ## Problems of a rule -/

/-- The problem is one of evaluating the rule, at one of these expressions. -/
structure Blames (set : RuleSet) (r : Rule) (es : List Expr) (p : Problem) : Prop where
  cause : ∃ fault, p.cause = .eval fault
  rule : p.rule = some r.name
  source : p.source = set.source
  span : ∃ e ∈ es, p.span = e.span
  inside : r.span.start ≤ p.span.start ∧ p.span.stop ≤ r.span.stop

/-- The problem arises in a step that tries the `active` rules from `s` on: in the condition of one,
behind others whose conditions do not fail. -/
def InCondition (set : RuleSet) (active : Array Bool) (s t : Session φ ω) (p : Problem) : Prop :=
  ∃ before n behind found u, numbered set = before ++ n :: behind ∧
    Matches set active before s (.ok found) u ∧ active.getD n.1 false = true ∧
      tryRule set n.2 u = (.error (.problem p), t) ∧
        Blames set n.2 (Eval.walked ⟨set, some n.2.name⟩ n.2.condition u) p

/-- The problem arises in an action of the rule that fires, behind others that do not fail. -/
def InAction (set : RuleSet) (f : Firing φ ω) (t : Session φ ω) (p : Problem) : Prop :=
  ∃ done a rest u, f.chosen.2.actions = done ++ a :: rest ∧
    Performs set f.chosen.2 done f.begun (.ok ()) u ∧
      (Eval.execute a).runIn ⟨set, some f.name⟩ u = (.error (.problem p), t) ∧
        Blames set f.chosen.2 (Eval.walkedIn ⟨set, some f.name⟩ a u) p

/-- Where the problem of a run from `s` arises: in a step behind all firings, or in the last of
them. -/
inductive Arises (set : RuleSet) (s : Session φ ω) (e : Ending φ ω) (p : Problem) : Prop
  | condition : (∀ f ∈ e.firings, f.result = .ok ()) →
      InCondition set (e.last s).active (e.last s) e.session p → Arises set s e p
  | action {fs f} : e.firings = fs ++ [f] → (∀ g ∈ fs, g.result = .ok ()) → f.Valid set →
      InAction set f e.session p → Arises set s e p

theorem Arises.cons {f : Firing φ ω} {e : Ending φ ω} {s : Session φ ω}
    (ok : f.result = .ok ()) (h : Arises set f.after e p) :
    Arises set s ⟨e.outcome, f :: e.firings, e.session⟩ p := by
  cases h with
  | condition all fails =>
    refine .condition (List.forall_mem_cons.mpr ⟨ok, all⟩) ?_
    unfold Ending.last at fails ⊢
    rwa [List.map_cons, List.getLastD_cons]
  | action last all valid fails =>
    exact .action (congrArg (f :: ·) last) (List.forall_mem_cons.mpr ⟨ok, all⟩) valid fails

/-- Evaluates, and gives what comes of it even if it fails. -/
def attempt (x : Eval φ ω α) : Eval φ ω (Except Error α) :=
  tryCatch (Except.ok <$> x) fun e => return .error e

end Rulebook.Engine
