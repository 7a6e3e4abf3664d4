import Mathlib
import Rulebook.Proofs.Engine.Forward

/-!
# The history of a run

The history of a run is every session that it passes through: after each access and each call in
every condition and action, and after what the engine itself records and counts. It ends where the
run ends, also when that fails.
-/

namespace Rulebook.Engine

variable {φ ω : Type} [FactOps φ]

/-- What an evaluation can do to a session, or one more cycle. -/
inductive Progress (set : RuleSet) (s : Session φ ω) :
    Option (String × List Value) → Session φ ω → Prop
  | change {call : Option (String × List Value)} {t : Session φ ω} :
      Change set s call t → Progress set s call t
  | counted : Progress set s none (counted s)

omit [FactOps φ] in
theorem Progress.record (set : RuleSet) (s : Session φ ω) (e : Event) :
    Progress set s none (s.record e) :=
  .change (.around ⟨s.context, _, rfl⟩ (by simp) (by simp))

/-! ## The moments of a run -/

/-- The moments of `holding`. -/
def holdingMoments (fr : Frame) : List Numbered → Session φ ω → List (Moment φ ω)
  | [], _ => []
  | (i, r) :: rest, s =>
    if s.active.getD i false then
      Eval.moments ⟨fr.ruleSet, some r.name⟩ r.condition s
        ++ Eval.after (Eval.inRule r.name (Eval.condition r)) fr s fun _ t =>
          holdingMoments fr rest t
    else holdingMoments fr rest s

/-- The moments of `matching`. -/
def matchingMoments (fr : Frame) (s : Session φ ω) : List (Moment φ ω) :=
  holdingMoments fr (numbered fr.ruleSet) s

/-- The moments of `fireNext`. -/
def fireMoments (fr : Frame) (r : Rule) (count : Nat) (s : Session φ ω) : List (Moment φ ω) :=
  let t := s.record (.firing (s.cycle + 1) count r.name r.salience)
  ⟨t, none⟩ :: (Eval.executeAllMoments ⟨fr.ruleSet, some r.name⟩ r.actions t
    ++ Eval.after (fireRule r) fr t fun _ u => [⟨counted u, none⟩])

/-- The moments of `cycles`. -/
def cyclesMoments (fr : Frame) (maxCycles : Nat) :
    (left : Nat) → (fired : List String) → Session φ ω → List (Moment φ ω)
  | 0, fired, s =>
    matchingMoments fr s ++ Eval.after matching fr s fun rules t =>
      match rules with
      | [] => []
      | _ :: _ => [⟨t.record (.stopped maxCycles (lastFired fired)), none⟩]
  | left + 1, fired, s =>
    matchingMoments fr s ++ Eval.after matching fr s fun rules t =>
      match rules with
      | [] => []
      | (_, r) :: others =>
        fireMoments fr r (others.length + 1) t
          ++ Eval.after (fireNext r (others.length + 1)) fr t fun _ u =>
            if u.complete then [] else cyclesMoments fr maxCycles left (r.name :: fired) u

/-- The moments of `session`. -/
def sessionMoments (fr : Frame) (maxCycles : Nat) (s : Session φ ω) : List (Moment φ ω) :=
  cyclesMoments fr maxCycles maxCycles [] s
    ++ Eval.after (cycles maxCycles maxCycles []) fr s fun (o, _) t =>
      [⟨t.record (.finished o t.cycle), none⟩]

/-- Every session of a run over a context, from the first on. -/
def history (set : RuleSet) (maxCycles : Nat) (c : Context φ ω) : List (Session φ ω) :=
  start set c :: (sessionMoments ⟨set, none⟩ maxCycles (start set c)).map Moment.session

/-! ## They lead to where the run ends -/

/-- From every session `moments` leads to where `x` ends, by evaluations and counting. -/
abbrev Runs {α : Type} (fr : Frame) (x : Eval φ ω α)
    (moments : Session φ ω → List (Moment φ ω)) : Prop :=
  Eval.Leads (Progress fr.ruleSet) fr x moments

omit [FactOps φ] in
theorem Runs.of_passes {α : Type} {fr : Frame} {x : Eval φ ω α}
    {moments : Session φ ω → List (Moment φ ω)} (h : Eval.Passes fr x moments) :
    Runs fr x moments :=
  fun s => (h s).mono .change

theorem runs_holding (fr : Frame) (rules : List Numbered) :
    Runs (φ := φ) (ω := ω) fr (holding rules) (holdingMoments fr rules) := by
  induction rules with
  | nil => exact .still fun _ => rfl
  | cons n rest ih =>
    obtain ⟨i, r⟩ := n
    intro s
    unfold holding holdingMoments
    rw [Eval.runIn_bind_ok (Eval.runIn_get fr s)]
    have tried : Runs fr (Eval.inRule r.name (Eval.condition r) : Eval φ ω Bool)
        (Eval.moments ⟨fr.ruleSet, some r.name⟩ r.condition) :=
      .of_passes (Eval.passes_condition ⟨fr.ruleSet, some r.name⟩ r)
    split
    · refine tried.bind (fun holds => ih.bind_still fun others t => ?_) s
      cases holds <;> rfl
    · exact ih s

theorem runs_matching (fr : Frame) :
    Runs (φ := φ) (ω := ω) fr matching (matchingMoments fr) := by
  intro s
  unfold matching
  rw [Eval.runIn_bind_ok (Eval.runIn_read fr s)]
  exact (runs_holding fr (numbered fr.ruleSet)).bind_still (fun _ _ => rfl) s

theorem runs_fireNext (fr : Frame) (r : Rule) (count : Nat) :
    Runs (φ := φ) (ω := ω) fr (fireNext r count) (fireMoments fr r count) := by
  intro s
  have acts : Runs fr (fireRule r : Eval φ ω Unit)
      (Eval.executeAllMoments ⟨fr.ruleSet, some r.name⟩ r.actions) :=
    .of_passes (Eval.passes_executeAll ⟨fr.ruleSet, some r.name⟩ r.actions)
  unfold fireNext fireMoments
  rw [Eval.runIn_bind_ok (Eval.runIn_modify _ fr s)]
  refine .next (.record fr.ruleSet s _) (acts.bind (fun _ => ?_) _)
  exact .once fun _ => .counted

theorem runs_cycles (fr : Frame) (maxCycles left : Nat) (fired : List String) :
    Runs (φ := φ) (ω := ω) fr (cycles maxCycles left fired)
      (cyclesMoments fr maxCycles left fired) := by
  induction left generalizing fired with
  | zero =>
    intro s
    unfold cycles cyclesMoments
    refine (runs_matching fr).bind (fun rules => ?_) s
    cases rules with
    | nil => exact .still fun _ => rfl
    | cons n others => exact .once fun s => .record fr.ruleSet s _
  | succ left ih =>
    intro s
    unfold cycles cyclesMoments
    refine (runs_matching fr).bind (fun rules => ?_) s
    cases rules with
    | nil => exact .still fun _ => rfl
    | cons n others =>
      refine (runs_fireNext fr n.2 (others.length + 1)).bind fun _ => .get_bind fun s => ?_
      split
      · exact .none s
      · exact ih _ s

theorem runs_session (fr : Frame) (maxCycles : Nat) :
    Runs (φ := φ) (ω := ω) fr (session maxCycles) (sessionMoments fr maxCycles) := by
  unfold session sessionMoments
  refine (runs_cycles fr maxCycles maxCycles []).bind fun ⟨o, fired⟩ => ?_
  exact .once fun s => .record fr.ruleSet s _

/-- The history is a chain of elementary changes, and ends with the session that the run leaves. -/
theorem history_trace (kb : KnowledgeBase) (maxCycles : Nat) (c : Context φ ω) :
    Trace (Progress kb.ruleSet) (start kb.ruleSet c)
      (sessionMoments ⟨kb.ruleSet, none⟩ maxCycles (start kb.ruleSet c))
      (execute maxCycles c kb).session :=
  runs_session ⟨kb.ruleSet, none⟩ maxCycles (start kb.ruleSet c)

/-! ## Calls come from rules -/

/-- What holds is among the rules whose conditions are evaluated. -/
theorem holding_sublist (rules : List Numbered) :
    Eval.GivesOnly (fun found => found.Sublist rules)
      (holding rules : Eval φ ω (List Numbered)) := by
  induction rules with
  | nil => exact .pure .slnil
  | cons n rest ih =>
    obtain ⟨i, r⟩ := n
    refine .rest fun s => ?_
    split
    · refine .rest fun holds => ih.bind fun others sub => ?_
      cases holds with
      | true => exact .pure (sub.cons_cons _)
      | false => exact .pure (sub.cons _)
    · intro fr t found u ran
      exact (ih fr t found u ran).cons _

theorem mem_rules_of_matching {fr : Frame} {s t : Session φ ω} {rules : List Numbered}
    (ran : matching.runIn fr s = (.ok rules, t)) {n : Numbered} (mem : n ∈ rules) :
    n.2 ∈ fr.ruleSet.rules := by
  unfold matching at ran
  rw [Eval.runIn_bind_ok (Eval.runIn_read fr s)] at ran
  obtain ⟨found, u, held, sorted⟩ := Eval.runIn_bind_eq_ok.mp ran
  have sub := holding_sublist (numbered fr.ruleSet) fr s found u held
  cases sorted
  exact rule_mem_of_numbered (sub.subset ((byPriority_perm found).subset mem))

section Calls

open Eval (AllCalls CallOf)

variable {fr : Frame} {es : List Expr}

theorem calls_holding {rules : List Numbered} (sub : ∀ n ∈ rules, n.2.nodes ⊆ es)
    (s : Session φ ω) :
    AllCalls (holdingMoments fr rules s) (CallOf φ ω es) := by
  induction rules generalizing s with
  | nil => exact .nil
  | cons n rest ih =>
    obtain ⟨i, r⟩ := n
    have others := fun t => ih (fun m mem => sub m (.tail _ mem)) t
    unfold holdingMoments
    split
    · have first : r.condition.nodes ⊆ es :=
        List.Subset.trans r.nodes_condition (sub (i, r) (.head _))
      exact (AllCalls.eval first s).append (.after fun _ t _ => others t)
    · exact others s

theorem calls_matching (fr : Frame) (s : Session φ ω) :
    AllCalls (matchingMoments fr s) (CallOf φ ω fr.ruleSet.nodes) :=
  calls_holding (fun _ mem => RuleSet.nodes_rule (rule_mem_of_numbered mem)) s

theorem calls_fire {r : Rule} (mem : r ∈ fr.ruleSet.rules) (count : Nat) (s : Session φ ω) :
    AllCalls (fireMoments fr r count s) (CallOf φ ω fr.ruleSet.nodes) := by
  have acts (t : Session φ ω) : AllCalls
      (Eval.executeAllMoments ⟨fr.ruleSet, some r.name⟩ r.actions t)
      (CallOf φ ω fr.ruleSet.nodes) :=
    .executeAll (fun a ha e he => List.Subset.trans (Rule.nodes_action ha he)
      (RuleSet.nodes_rule mem)) t
  exact .cons_quiet rfl ((acts _).append (.after fun _ _ _ => .quiet rfl))

theorem calls_cycles (fr : Frame) (maxCycles left : Nat) (fired : List String) (s : Session φ ω) :
    AllCalls (cyclesMoments fr maxCycles left fired s) (CallOf φ ω fr.ruleSet.nodes) := by
  induction left generalizing fired s with
  | zero =>
    refine (calls_matching fr s).append (.after fun rules t _ => ?_)
    split
    · exact .nil
    · exact .quiet rfl
  | succ left ih =>
    refine (calls_matching fr s).append (.after fun rules t ran => ?_)
    split
    · exact .nil
    · have mem := mem_rules_of_matching ran (.head _)
      refine (calls_fire mem _ t).append (.after fun _ u _ => ?_)
      split
      · exact .nil
      · exact ih _ u

/-- Every call that a run makes stands in a rule of the set, and has the values of its arguments. -/
theorem calls_session (fr : Frame) (maxCycles : Nat) (s : Session φ ω) :
    AllCalls (sessionMoments fr maxCycles s) (CallOf φ ω fr.ruleSet.nodes) :=
  (calls_cycles fr maxCycles maxCycles [] s).append (.after fun _ _ _ => .quiet rfl)

end Calls

end Rulebook.Engine
