import Mathlib
import Rulebook.Proofs.Engine.Fetch
import Rulebook.Proofs.Engine.Harmless

/-!
# Which rules are found

Where conditions have no effects, the rules found are the active ones whose conditions evaluate to
true, sorted by salience and place. The search fails as the first condition does that has no truth
value. What the rules that are not active say makes no difference at all.
-/

namespace Rulebook.Eval

variable {φ ω α β : Type} {set set' : RuleSet}

/-- As part of either rule set the evaluation does the same. -/
def SameIn (set set' : RuleSet) (x : Eval φ ω α) : Prop :=
  ∀ rule s, x.runIn ⟨set', rule⟩ s = x.runIn ⟨set, rule⟩ s

namespace SameIn

theorem pure (a : α) : SameIn set set' (pure a : Eval φ ω α) := fun _ _ => rfl

theorem fail (source : set'.source = set.source) (fault : EvalFault) (span : Span) :
    SameIn set set' (fail fault span : Eval φ ω α) := by
  intro rule s
  rw [runIn_fail, runIn_fail, source]

theorem bind {x : Eval φ ω α} {f : α → Eval φ ω β} (first : SameIn set set' x)
    (rest : ∀ a, SameIn set set' (f a)) : SameIn set set' (x >>= f) := by
  intro rule s
  rw [runIn_bind, runIn_bind, first rule s]
  rcases x.runIn ⟨set, rule⟩ s with ⟨e | a, t⟩
  · rfl
  · exact rest a rule t

theorem get : SameIn set set' (get : Eval φ ω (Session φ ω)) := fun _ _ => rfl

theorem modify (f : Session φ ω → Session φ ω) :
    SameIn set set' (modify f : Eval φ ω PUnit) := fun _ _ => rfl

theorem accessFact (source : set'.source = set.source) (name : String) (span : Span)
    (access : φ → Except StepFault α × φ) :
    SameIn set set' (accessFact name span access : Eval φ ω α) := by
  refine get.bind fun s => ?_
  split
  · exact get.bind fun _ => .fail source _ _
  · refine (modify _).bind fun _ => ?_
    split
    · exact .pure _
    · exact .fail source _ _

theorem closed [FactOps φ] (source : set'.source = set.source) :
    Closed (φ := φ) (ω := ω) (SameIn set set') where
  pure := pure
  fail := fail source
  bind := bind
  access name span _ := accessFact source name span _

theorem callHost (source : set'.source = set.source) (name : String) (args : List Value)
    (span : Span) : SameIn set set' (callHost name args span : Eval φ ω Value) := by
  refine get.bind fun s => ?_
  split
  · exact .fail source _ _
  · next f _ =>
    refine (modify _).bind fun _ => get.bind fun t => (modify _).bind fun _ => ?_
    rcases (f args t.context.world).1 with e | v
    · exact .fail source _ _
    · exact .pure v

/-- Only `Retract` looks up rules. -/
theorem call (source : set'.source = set.source) {name : String} (other : name ≠ "Retract")
    (args : List Value) (span : Span) : SameIn set set' (call name args span : Eval φ ω Value) := by
  unfold Eval.call
  rcases named : Intrinsic.ofName? name with _ | i
  · exact callHost source name args span
  refine SameIn.bind ?_ fun _ => .pure _
  match i, args with
  | .log, _ => exact fun _ _ => rfl
  | .complete, [] => exact .modify _
  | .complete, _ :: _ => exact .fail source _ _
  | .retract, _ => exact absurd (Intrinsic.eq_name_of_ofName? named) other

end SameIn

end Rulebook.Eval

namespace Rulebook.Engine

variable {φ ω : Type} [FactOps φ] {set set' : RuleSet} {active : Array Bool} {rules : List Numbered}
  {s t : Session φ ω} {r : Rule} {e : Error}

/-! ## Truth values -/

/-- What the condition of a rule evaluates to. -/
def conditionValue (set : RuleSet) (s : Session φ ω) (r : Rule) : Except Error Value :=
  ((Eval.eval r.condition).runIn ⟨set, some r.name⟩ s).1

/-- The condition of a rule has no truth value, and `e` says why. -/
def HasNoTruth (set : RuleSet) (s : Session φ ω) (r : Rule) (e : Error) : Prop :=
  conditionValue set s r = .error e ∨
    ∃ v, conditionValue set s r = .ok v ∧ (∀ b, v ≠ .bool b) ∧
      e = .problem ⟨.eval (.condition v), r.condition.span, some r.name, set.source⟩

theorem tryRule_eq_ok_iff {b : Bool} :
    (tryRule set r s).1 = .ok b ↔ conditionValue set s r = .ok (.bool b) := by
  unfold tryRule conditionValue Eval.condition
  rw [Eval.runIn_bind]
  rcases (Eval.eval r.condition).runIn ⟨set, some r.name⟩ s with ⟨e | v, t⟩
  · simp
  · cases v <;> simp

theorem tryRule_eq_error_iff : (tryRule set r s).1 = .error e ↔ HasNoTruth set s r e := by
  unfold tryRule HasNoTruth conditionValue Eval.condition
  rw [Eval.runIn_bind]
  rcases (Eval.eval r.condition).runIn ⟨set, some r.name⟩ s with ⟨e | v, t⟩
  · simp
  · cases v <;> simp [eq_comm]

/-! ## Rules that are not active -/

theorem tryRule_sameIn (h : set.Compiled) (source : set'.source = set.source)
    (mem : r ∈ set.rules) (s : Session φ ω) : tryRule set' r s = tryRule set r s := by
  have same : Eval.SameIn (φ := φ) (ω := ω) set set' (Eval.condition r) := by
    refine (Eval.SameIn.closed source).condition r fun name args span inside vs => ?_
    exact .call source (set.condition_calls h mem inside).1 vs span
  exact same (some r.name) s

/-- The active rules among numbered ones. -/
def onlyActive (active : Array Bool) (rules : List Numbered) : List Numbered :=
  rules.filter fun n => active.getD n.1 false

theorem mem_onlyActive {n : Numbered} :
    n ∈ onlyActive active rules ↔ n ∈ rules ∧ active.getD n.1 false = true :=
  List.mem_filter

theorem onlyActive_cons_of_on {n : Numbered} (on : active.getD n.1 false = true) :
    onlyActive active (n :: rules) = n :: onlyActive active rules :=
  List.filter_cons_of_pos on

theorem Matches.onlyActive {result : Except Error (List Numbered)}
    (m : Matches set active rules s result t) :
    Matches set active (onlyActive active rules) s result t := by
  induction m with
  | nil => exact .nil _
  | @inactive i r rest _ _ _ off _ ih =>
    have passed : Engine.onlyActive active ((i, r) :: rest) = Engine.onlyActive active rest :=
      List.filter_cons_of_neg (by simp [off])
    rwa [passed]
  | holds on tried _ ih =>
    rw [onlyActive_cons_of_on (by exact on)]
    exact .holds on tried ih
  | lacks on tried _ ih =>
    rw [onlyActive_cons_of_on (by exact on)]
    exact .lacks on tried ih
  | fails on tried =>
    rw [onlyActive_cons_of_on (by exact on)]
    exact .fails on tried

theorem Matches.sameIn {result : Except Error (List Numbered)}
    (m : Matches set active rules s result t)
    (same : ∀ n ∈ rules, ∀ u : Session φ ω, tryRule set' n.2 u = tryRule set n.2 u) :
    Matches set' active rules s result t := by
  induction m with
  | nil => exact .nil _
  | inactive off _ ih => exact .inactive off (ih fun n mem => same n (.tail _ mem))
  | holds on tried _ ih =>
    exact .holds on ((same _ (.head _) _).trans tried) (ih fun n mem => same n (.tail _ mem))
  | lacks on tried _ ih =>
    exact .lacks on ((same _ (.head _) _).trans tried) (ih fun n mem => same n (.tail _ mem))
  | fails on tried => exact .fails on ((same _ (.head _) _).trans tried)

theorem onlyActive_congr
    (same : ∀ i, active.getD i false = true → set'.rules[i]? = set.rules[i]?) :
    onlyActive active (numbered set') = onlyActive active (numbered set) := by
  have order (set : RuleSet) : InOrder (onlyActive active (numbered set)) :=
    (numbered_inOrder set).sublist List.filter_sublist
  have perm : (onlyActive active (numbered set')).Perm (onlyActive active (numbered set)) := by
    refine (List.perm_ext_iff_of_nodup (order set').nodup (order set).nodup).mpr fun n => ?_
    rw [mem_onlyActive, mem_onlyActive, mem_numbered, mem_numbered]
    exact and_congr_left fun on => by rw [same n.1 on]
  exact perm.eq_of_pairwise (fun a b _ _ lt gt => absurd (lt.trans gt) (Nat.lt_irrefl _))
    (order set') (order set)

/-! ## The search -/

theorem exists_matches (h : set.Compiled) (rule : Option String) (s : Session φ ω) :
    ∃ result t, Matches set s.active (numbered set) s result t ∧
      matching.runIn ⟨set, rule⟩ s = (result.map byPriority, t) := by
  refine ⟨_, _, holding_matches h (fun n mem => rule_mem_of_numbered mem) rule s, ?_⟩
  unfold matching
  rw [Eval.runIn_bind_ok (Eval.runIn_read _ s), Eval.runIn_bind]
  rcases (holding (numbered set)).runIn ⟨set, rule⟩ s with ⟨e | found, t⟩ <;> rfl

/-- The search depends on the rules that are active. -/
theorem matching_sameIn (h : set.Compiled) (h' : set'.Compiled) (source : set'.source = set.source)
    (same : ∀ i, s.active.getD i false = true → set'.rules[i]? = set.rules[i]?)
    (rule : Option String) :
    (matching : Eval φ ω _).runIn ⟨set', rule⟩ s = matching.runIn ⟨set, rule⟩ s := by
  obtain ⟨result, t, m, ran⟩ := exists_matches h rule s
  obtain ⟨result', t', m', ran'⟩ := exists_matches h' rule s
  have others := m'.onlyActive
  rw [onlyActive_congr same] at others
  have there : Matches set s.active (onlyActive s.active (numbered set)) s result' t' := by
    refine others.sameIn fun n mem u => ?_
    have inside : n.2 ∈ set.rules := rule_mem_of_numbered (mem_onlyActive.mp mem).1
    exact (tryRule_sameIn h source inside u).symm
  obtain ⟨rfl, rfl⟩ := there.unique m.onlyActive
  rw [ran, ran']

theorem Matches.fails_behind {before behind found : List Numbered} {n : Numbered}
    {u : Session φ ω} (m : Matches set active before s (.ok found) u)
    (on : active.getD n.1 false = true) (tried : tryRule set n.2 u = (.error e, t)) :
    Matches set active (before ++ n :: behind) s (.error e) t := by
  generalize eq : (Except.ok found : Except Error (List Numbered)) = result at m
  induction m generalizing found with
  | nil => exact .fails on tried
  | inactive off _ ih => exact .inactive off (ih tried eq)
  | @holds _ _ _ _ _ result _ first holds _ ih =>
    cases result with
    | error => cases eq
    | ok found => exact .holds first holds (ih tried rfl)
  | lacks first lacks _ ih => exact .lacks first lacks (ih tried eq)
  | fails => cases eq

/-- Each access and each call in the search is made for the condition of an active rule. -/
theorem holdingMoments_active (h : set.Compiled) (mem : ∀ n ∈ rules, n.2 ∈ set.rules)
    (rule : Option String) (s : Session φ ω) :
    ∀ m ∈ holdingMoments ⟨set, rule⟩ rules s, ∃ n ∈ rules, s.active.getD n.1 false = true ∧
      ∃ u, m ∈ Eval.moments ⟨set, some n.2.name⟩ n.2.condition u := by
  induction rules generalizing s with
  | nil => nofun
  | cons n rest ih =>
    obtain ⟨i, r⟩ := n
    have behind (t : Session φ ω) := ih (fun n inside => mem n (.tail _ inside)) t
    intro m here
    unfold holdingMoments at here
    split at here
    · next on =>
      rcases List.mem_append.mp here with here | here
      · exact ⟨(i, r), .head _, on, s, here⟩
      have same := around_tryRule h (mem _ (.head _)) s
      rcases tried : tryRule set r s with ⟨e | b, t⟩ <;> rw [tried] at same
      · rw [Eval.after_error (by exact tried)] at here
        cases here
      · rw [Eval.after_ok (by exact tried)] at here
        obtain ⟨n, inside, on, u, made⟩ := behind t m here
        exact ⟨n, .tail _ inside, same.active_eq ▸ on, u, made⟩
    · obtain ⟨n, inside, on, u, made⟩ := behind s m here
      exact ⟨n, .tail _ inside, on, u, made⟩

theorem Harmless.left {behind : List Numbered} (h : Harmless set active (rules ++ behind) s) :
    Harmless set active rules s :=
  fun n mem => h n (List.mem_append_left behind mem)

/-- A search fails at the first active rule without a truth value. -/
theorem Matches.eq_error_iff (h : set.Compiled) {result : Except Error (List Numbered)}
    (m : Matches set s.active rules s result t) (mem : ∀ n ∈ rules, n.2 ∈ set.rules)
    (harmless : Harmless set s.active rules s) :
    result = .error e ↔ ∃ before n behind, rules = before ++ n :: behind ∧
      s.active.getD n.1 false = true ∧ (tryRule set n.2 s).1 = .error e ∧
      ∀ m ∈ before, s.active.getD m.1 false = true → ∃ b, (tryRule set m.2 s).1 = .ok b := by
  constructor
  · rintro rfl
    obtain ⟨before, n, behind, found, u, rfl, passed, on, tried⟩ := m.exists_failing
    have front : Harmless set s.active before s := harmless.left
    have here : (tryRule set n.2 u).1 = (tryRule set n.2 s).1 :=
      (tryRule_congr n.2 (passed.context_eq front)).1
    rw [tried] at here
    exact ⟨before, n, behind, rfl, on, here.symm, (passed.isOk_iff front).mp ⟨found, rfl⟩⟩
  · rintro ⟨before, n, behind, rfl, on, fails, passing⟩
    have front : Harmless set s.active before s := harmless.left
    have passed := holding_matches h (fun q inside => mem q (List.mem_append_left _ inside)) none s
    obtain ⟨found, eq⟩ := (passed.isOk_iff front).mpr passing
    rw [eq] at passed
    have here := (tryRule_congr n.2 (passed.context_eq front)).1.trans fails
    exact (m.unique (passed.fails_behind on (Prod.ext here rfl))).1

/-- What a search finds is put in order without losing or repeating a rule. -/
theorem Matches.byPriority {found : List Numbered}
    (m : Matches set active (numbered set) s (.ok found) t)
    (harmless : Harmless set active (numbered set) s) :
    (byPriority found).Nodup ∧ (byPriority found).Pairwise Precedes ∧
      (∀ n ∈ byPriority found, n.1 < set.rules.length) ∧
      ∀ n, n ∈ byPriority found ↔
        n ∈ numbered set ∧ active.getD n.1 false = true ∧ Fires set s n.2 := by
  have perm := byPriority_perm found
  have ordered : InOrder found := (numbered_inOrder set).sublist m.sublist.1
  refine ⟨perm.nodup_iff.mpr ordered.nodup, byPriority_pairwise ordered, fun n mem => ?_,
    fun n => perm.mem_iff.trans (m.mem_iff harmless n)⟩
  have listed := m.sublist.1.subset (perm.subset mem)
  exact (List.getElem?_eq_some_iff.mp (mem_numbered.mp listed)).1

/-- Where the conditions of active rules have no effects. -/
theorem matching_of_harmless (h : set.Compiled) (s : Session φ ω)
    (harmless : Harmless set s.active (numbered set) s) (rule : Option String) :
    let result := (matching.runIn ⟨set, rule⟩ s).1
    ((∃ found, result = .ok found) ↔
        ∀ n ∈ numbered set, s.active.getD n.1 false = true →
          ∃ b, conditionValue set s n.2 = .ok (.bool b)) ∧
      (∀ found, result = .ok found →
        found.Nodup ∧ found.Pairwise Precedes ∧ (∀ n ∈ found, n.1 < set.rules.length) ∧
          ∀ n, n ∈ found ↔ n ∈ numbered set ∧ s.active.getD n.1 false = true ∧
            conditionValue set s n.2 = .ok (.bool true)) ∧
      (∀ e, result = .error e ↔ ∃ before n behind, numbered set = before ++ n :: behind ∧
        s.active.getD n.1 false = true ∧ HasNoTruth set s n.2 e ∧
        ∀ m ∈ before, s.active.getD m.1 false = true →
          ∃ b, conditionValue set s m.2 = .ok (.bool b)) ∧
      (∀ m ∈ matchingMoments ⟨set, rule⟩ s, ∃ n ∈ numbered set, s.active.getD n.1 false = true ∧
        ∃ u, m ∈ Eval.moments ⟨set, some n.2.name⟩ n.2.condition u) ∧
      ∀ set' : RuleSet, set'.Compiled → set'.name = set.name → set'.version = set.version →
        (∀ i, s.active.getD i false = true → set'.rules[i]? = set.rules[i]?) →
        (matching : Eval φ ω _).runIn ⟨set', rule⟩ s = matching.runIn ⟨set, rule⟩ s := by
  obtain ⟨result, t, m, ran⟩ := exists_matches h rule s
  simp only [ran, ← tryRule_eq_ok_iff, ← tryRule_eq_error_iff]
  refine ⟨?_, fun found eq => ?_, fun e => ?_, ?_, fun set' h' name version same => ?_⟩
  · rw [← m.isOk_iff harmless]
    cases result <;> simp [Except.map]
  · cases result with
    | error => cases eq
    | ok holds =>
      obtain rfl := Except.ok.inj eq
      exact m.byPriority harmless
  · rw [← m.eq_error_iff h (fun n mem => rule_mem_of_numbered mem) harmless]
    cases result <;> simp [Except.map]
  · exact holdingMoments_active h (fun n mem => rule_mem_of_numbered mem) rule s
  · rw [← ran]
    exact matching_sameIn h h' (by rw [RuleSet.source, name, version, RuleSet.source]) same rule

/-- A rule with one above it, and above both one without a truth value. -/
def ranked : KnowledgeBase :=
  .ofRuleSet ((RuleSet.compile {} "rank" "1"
    ("rule A \x7b when D.n < 1 then Log(); \x7d rule B salience 5 \x7b when true then Log(); \x7d "
      ++ "rule C salience 9 \x7b when D.n then Log(); \x7d").toUTF8).toOption.getD ⟨"", "", "", []⟩)

set_option maxRecDepth 2000 in
theorem ranked_compiled : ranked.ruleSet.Compiled :=
  RuleSet.compiled_of_isSome (by decide +kernel)

/-- The search finds the rules below the last one if that is not active, and else fails. -/
theorem matching_of_harmless_ranked :
    (∃ found : List Numbered, found.Pairwise Precedes ∧
      (∀ n ∈ numbered ranked.ruleSet, n ∈ found ↔ n.1 < 2) ∧
      (matching.runIn ⟨ranked.ruleSet, none⟩ (.start counter #[true, true, false])).1 =
        .ok found) ∧
      ¬ ∃ found, (matching.runIn ⟨ranked.ruleSet, none⟩ (.start counter #[true, true, true])).1 =
        .ok found := by
  have harmless (active : Array Bool) (rules : List Numbered) :
      Harmless ranked.ruleSet active rules (.start counter active) :=
    harmless_of_tidy counter_tidy _ _
  have flags (i : Nat) : #[true, true, false].getD i false = true ↔ i < 2 := by
    rcases i with _ | _ | _ | i <;> simp
  constructor
  · have truths : ∀ n ∈ numbered ranked.ruleSet, #[true, true, false].getD n.1 false = true →
        (tryRule ranked.ruleSet n.2 (.start counter #[true, true, false])).1.toOption =
          some true := by
      decide +kernel
    have holds (n : Numbered) (mem : n ∈ numbered ranked.ruleSet)
        (on : #[true, true, false].getD n.1 false = true) :=
      tryRule_eq_ok_iff.mp (ok_iff_toOption.mpr (truths n mem on))
    obtain ⟨found_iff, sorted, -⟩ := matching_of_harmless ranked_compiled
      (.start counter #[true, true, false]) (harmless _ _) none
    obtain ⟨found, is⟩ := found_iff.mpr fun n mem on => ⟨true, holds n mem on⟩
    obtain ⟨-, order, -, listed⟩ := sorted found is
    refine ⟨found, order, fun n mem => ?_, is⟩
    rw [listed, ← flags]
    exact ⟨fun here => here.2.1, fun on => ⟨mem, on, holds n mem on⟩⟩
  · have truthless : ∃ n ∈ numbered ranked.ruleSet, #[true, true, true].getD n.1 false = true ∧
        (tryRule ranked.ruleSet n.2 (.start counter #[true, true, true])).1.toOption = none := by
      decide +kernel
    obtain ⟨n, mem, on, none⟩ := truthless
    rw [(matching_of_harmless ranked_compiled (.start counter #[true, true, true])
      (harmless _ _) .none).1]
    intro all
    obtain ⟨b, truth⟩ := all n mem on
    rw [tryRule_eq_ok_iff.mpr truth] at none
    cases none

end Rulebook.Engine
