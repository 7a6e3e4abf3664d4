import Mathlib
import Rulebook.Engine
import Rulebook.Proofs.Eval.Moments
import Rulebook.Proofs.Eval.Reading
import Rulebook.Proofs.RuleSet.Compiled

/-!
# Which rules match

`Matches` says, condition by condition in the order of the set, which of the active rules hold and
where the first failure is. `Engine.matching` finds the same rules and puts the one that fires
first: the highest salience, and of those the earliest in the set.
-/

namespace Rulebook.Engine

variable {φ ω : Type}

/-! ## Order -/

/-- What `a` and `b` must be like for `a` to come first. -/
def Precedes (a b : Numbered) : Prop :=
  b.2.salience < a.2.salience ∨ (b.2.salience = a.2.salience ∧ a.1 < b.1)

/-- Of rules that hold, the one that fires. -/
def Chosen (found : List Numbered) (n : Numbered) : Prop :=
  n ∈ found ∧ ∀ m ∈ found, m = n ∨ Precedes n m

theorem Precedes.asymm {a b : Numbered} (h : Precedes a b) : ¬ Precedes b a := by
  rcases h with h | ⟨h, lt⟩ <;> rintro (k | ⟨k, lt'⟩)
  · exact absurd (Int64.lt_trans h k) (Int64.lt_irrefl)
  · rw [k] at h; exact absurd h Int64.lt_irrefl
  · rw [h] at k; exact absurd k Int64.lt_irrefl
  · omega

theorem Chosen.unique {found : List Numbered} {a b : Numbered} (ha : Chosen found a)
    (hb : Chosen found b) : a = b := by
  rcases ha.2 b hb.1 with eq | before
  · exact eq.symm
  rcases hb.2 a ha.1 with eq | after
  · exact eq
  · exact absurd after before.asymm

/-- In the order of their numbers. -/
abbrev InOrder (rules : List Numbered) : Prop := rules.Pairwise fun a b => a.1 < b.1

theorem InOrder.eq_or_sublist {l : List Numbered} (h : InOrder l) {a b : Numbered} (ha : a ∈ l)
    (hb : b ∈ l) (le : a.1 ≤ b.1) : a = b ∨ [a, b].Sublist l := by
  obtain ⟨l₁, l₂, rfl⟩ := List.append_of_mem hb
  rcases List.mem_append.mp ha with before | after
  · have := (List.singleton_sublist.mpr before).append
      (List.singleton_sublist.mpr (List.mem_cons_self (a := b) (l := l₂)))
    exact .inr (by simpa using this)
  · have order := (List.pairwise_append.mp h).2.1
    rcases List.mem_cons.mp after with rfl | after
    · exact .inl rfl
    · have := (List.pairwise_cons.mp order).1 a after
      omega

theorem InOrder.nodup {l : List Numbered} (h : InOrder l) : l.Nodup :=
  h.imp fun lt eq => by rw [eq] at lt; omega

theorem not_both_sublist {l : List Numbered} (nodup : l.Nodup) {a b : Numbered}
    (h : [a, b].Sublist l) (k : [b, a].Sublist l) : False := by
  obtain ⟨r₁, r₂, rfl, ar, br⟩ := List.cons_sublist_iff.mp h
  obtain ⟨s₁, s₂, eq, bs, as⟩ := List.cons_sublist_iff.mp k
  rw [List.singleton_sublist] at br as
  have apart := (List.nodup_append'.mp nodup).2.2
  rw [eq] at nodup
  have apart' := (List.nodup_append'.mp nodup).2.2
  rcases List.append_eq_append_iff.mp eq with ⟨t, rfl, _⟩ | ⟨t, rfl, _⟩
  · exact apart' (List.mem_append_left t ar) as
  · exact apart (List.mem_append_left t bs) br

theorem byPriority_perm (rules : List Numbered) : (byPriority rules).Perm rules :=
  List.mergeSort_perm _ _

/-- Equal saliences keep the order of the set. -/
theorem byPriority_pairwise {rules : List Numbered} (h : InOrder rules) :
    (byPriority rules).Pairwise Precedes := by
  have trans : ∀ a b c : Numbered, decide (b.2.salience ≤ a.2.salience) = true →
      decide (c.2.salience ≤ b.2.salience) = true → decide (c.2.salience ≤ a.2.salience) = true := by
    intro a b c hab hbc
    simp only [decide_eq_true_eq] at *
    exact Int64.le_trans hbc hab
  have total : ∀ a b : Numbered,
      (decide (b.2.salience ≤ a.2.salience) || decide (a.2.salience ≤ b.2.salience)) = true := by
    intro a b
    rw [Bool.or_eq_true, decide_eq_true_eq, decide_eq_true_eq]
    exact Int64.le_total _ _
  have nodup : (byPriority rules).Nodup := (byPriority_perm rules).nodup_iff.mpr h.nodup
  have sorted := List.pairwise_mergeSort trans total rules
  rw [List.pairwise_iff_forall_sublist]
  intro a b sub
  have le := List.pairwise_iff_forall_sublist.mp sorted sub
  rw [decide_eq_true_eq] at le
  by_cases eq : b.2.salience = a.2.salience
  · have ha : a ∈ rules := (byPriority_perm rules).subset (sub.subset (by simp))
    have hb : b ∈ rules := (byPriority_perm rules).subset (sub.subset (by simp))
    refine .inr ⟨eq, ?_⟩
    by_contra not
    rcases h.eq_or_sublist hb ha (Nat.le_of_not_lt not) with same | before
    · rw [same] at sub
      exact List.pairwise_iff_forall_sublist.mp nodup sub rfl
    · -- A stable sort leaves `b` before `a`.
      have kept : [b, a].Sublist (byPriority rules) :=
        List.sublist_mergeSort trans total (by simp [eq]) before
      exact not_both_sublist nodup sub kept
  · exact .inl (Int64.lt_of_le_of_ne le eq)

theorem byPriority_eq_nil_iff (rules : List Numbered) : byPriority rules = [] ↔ rules = [] := by
  have := (byPriority_perm rules).length_eq
  rw [← List.length_eq_zero_iff, this, List.length_eq_zero_iff]

/-- The first rule is the one to fire. -/
theorem chosen_of_byPriority {rules others : List Numbered} (h : InOrder rules) {n : Numbered}
    (eq : byPriority rules = n :: others) :
    Chosen rules n ∧ others.length + 1 = rules.length := by
  have perm := byPriority_perm rules
  have order := byPriority_pairwise h
  rw [eq] at perm order
  refine ⟨⟨perm.subset (.head _), fun m mem => ?_⟩, perm.length_eq⟩
  rcases List.mem_cons.mp (perm.symm.subset mem) with rfl | mem
  · exact .inl rfl
  · exact .inr ((List.pairwise_cons.mp order).1 m mem)

theorem numbered_inOrder (set : RuleSet) : InOrder (numbered set) := by
  unfold numbered InOrder
  rw [List.pairwise_map, List.pairwise_iff_getElem]
  intro i j hi hj lt
  simpa using lt

theorem mem_numbered {set : RuleSet} {n : Numbered} :
    n ∈ numbered set ↔ set.rules[n.1]? = some n.2 := by
  unfold numbered
  obtain ⟨i, r⟩ := n
  rw [List.mem_map]
  constructor
  · rintro ⟨⟨q, k⟩, mem, eq⟩
    cases eq
    simpa [List.mk_mem_zipIdx_iff_getElem?] using mem
  · intro h
    exact ⟨(r, i), by simpa [List.mk_mem_zipIdx_iff_getElem?] using h, rfl⟩

/-! ## Conditions -/

variable [FactOps φ]

/-- Evaluates the condition of a rule. -/
def tryRule (set : RuleSet) (r : Rule) (s : Session φ ω) : Except Error Bool × Session φ ω :=
  (Eval.condition r).runIn ⟨set, some r.name⟩ s

/-- Evaluating the conditions of the rules that are `active` one after another: the rules whose
condition is true, or the first failure. Rules that are not active are passed over. -/
inductive Matches (set : RuleSet) (active : Array Bool) :
    List Numbered → Session φ ω → Except Error (List Numbered) → Session φ ω → Prop
  | nil (s : Session φ ω) : Matches set active [] s (.ok []) s
  | inactive {i r rest s result t} : active.getD i false = false →
      Matches set active rest s result t → Matches set active ((i, r) :: rest) s result t
  | holds {i r rest s u result t} : active.getD i false = true → tryRule set r s = (.ok true, u) →
      Matches set active rest u result t →
        Matches set active ((i, r) :: rest) s (result.map fun found => (i, r) :: found) t
  | lacks {i r rest s u result t} : active.getD i false = true → tryRule set r s = (.ok false, u) →
      Matches set active rest u result t → Matches set active ((i, r) :: rest) s result t
  | fails {i r rest s e t} : active.getD i false = true → tryRule set r s = (.error e, t) →
      Matches set active ((i, r) :: rest) s (.error e) t

namespace Matches

variable {set : RuleSet} {active : Array Bool} {rules : List Numbered} {s t t' : Session φ ω}
  {result result' : Except Error (List Numbered)} {found : List Numbered}

theorem unique (h : Matches set active rules s result t) (k : Matches set active rules s result' t') :
    result = result' ∧ t = t' := by
  induction h generalizing result' with
  | nil => cases k; exact ⟨rfl, rfl⟩
  | inactive off _ ih =>
    cases k with
    | inactive _ k => exact ih k
    | holds on | lacks on | fails on => rw [off] at on; cases on
  | holds on tried _ ih =>
    cases k with
    | inactive off => rw [off] at on; cases on
    | holds _ tried' k =>
      rw [tried] at tried'; cases tried'
      obtain ⟨rfl, rfl⟩ := ih k
      exact ⟨rfl, rfl⟩
    | lacks _ tried' | fails _ tried' => rw [tried] at tried'; cases tried'
  | lacks on tried _ ih =>
    cases k with
    | inactive off => rw [off] at on; cases on
    | lacks _ tried' k =>
      rw [tried] at tried'; cases tried'
      exact ih k
    | holds _ tried' | fails _ tried' => rw [tried] at tried'; cases tried'
  | fails on tried =>
    cases k with
    | inactive off => rw [off] at on; cases on
    | fails _ tried' => rw [tried] at tried'; cases tried'; exact ⟨rfl, rfl⟩
    | holds _ tried' | lacks _ tried' => rw [tried] at tried'; cases tried'

/-- What holds is active and keeps its order. -/
theorem sublist (h : Matches set active rules s (.ok found) t) :
    found.Sublist rules ∧ ∀ n ∈ found, active.getD n.1 false = true := by
  generalize eq : (Except.ok found : Except Error (List Numbered)) = result at h
  induction h generalizing found with
  | nil => cases eq; simp
  | inactive _ _ ih =>
    obtain ⟨sub, all⟩ := ih eq
    exact ⟨sub.cons _, all⟩
  | @holds i r _ _ _ result _ on _ _ ih =>
    cases result with
    | error e => cases eq
    | ok others =>
      cases eq
      obtain ⟨sub, all⟩ := ih rfl
      refine ⟨sub.cons_cons _, fun n mem => ?_⟩
      rcases List.mem_cons.mp mem with rfl | mem
      · exact on
      · exact all n mem
  | lacks _ _ _ ih =>
    obtain ⟨sub, all⟩ := ih eq
    exact ⟨sub.cons _, all⟩
  | fails => cases eq

/-- A failure is that of the condition of an active rule, behind rules whose conditions do not
fail. -/
theorem exists_failing {e : Error} (h : Matches set active rules s (.error e) t) :
    ∃ before n behind found u, rules = before ++ n :: behind ∧
      Matches set active before s (.ok found) u ∧ active.getD n.1 false = true ∧
        tryRule set n.2 u = (.error e, t) := by
  generalize eq : (Except.error e : Except Error (List Numbered)) = result at h
  induction h with
  | nil => cases eq
  | @fails i r rest s _ _ on tried =>
    cases eq
    exact ⟨[], (i, r), rest, [], s, rfl, .nil s, on, tried⟩
  | inactive off _ ih =>
    obtain ⟨before, n, behind, found, u, rfl, passed, on, tried⟩ := ih eq
    exact ⟨_ :: before, n, behind, found, u, rfl, .inactive off passed, on, tried⟩
  | lacks first lacks _ ih =>
    obtain ⟨before, n, behind, found, u, rfl, passed, on, tried⟩ := ih eq
    exact ⟨_ :: before, n, behind, found, u, rfl, .lacks first lacks passed, on, tried⟩
  | @holds _ _ _ _ _ result _ first holds _ ih =>
    cases result with
    | ok found => cases eq
    | error e' =>
      cases eq
      obtain ⟨before, n, behind, found, u, rfl, passed, on, tried⟩ := ih rfl
      exact ⟨_ :: before, n, behind, _, u, rfl, .holds first holds passed, on, tried⟩

theorem exists_error {e : Error} (h : Matches set active rules s (.error e) t) :
    ∃ n ∈ rules, ∃ u, tryRule set n.2 u = (.error e, t) := by
  obtain ⟨before, n, behind, _, u, rfl, -, -, tried⟩ := h.exists_failing
  exact ⟨n, List.mem_append_right _ (.head _), u, tried⟩

end Matches

/-! ## What conditions leave alone -/

variable {set : RuleSet}

theorem passes_tryRule (r : Rule) (s : Session φ ω) :
    Trace (Change set) s (Eval.moments ⟨set, some r.name⟩ r.condition s) (tryRule set r s).2 :=
  Eval.passes_condition ⟨set, some r.name⟩ r s

/-- A condition changes nothing but the facts and the state of host functions at any point. -/
theorem each_around_tryRule (h : set.Compiled) {r : Rule} (mem : r ∈ set.rules) (s : Session φ ω) :
    ∀ u ∈ s :: (Eval.moments ⟨set, some r.name⟩ r.condition s).map (·.session), Around s u := by
  refine (passes_tryRule r s).each_around_of_no_call ?_
  exact Eval.OnlyCalls.eval r.condition s fun name args span call => set.condition_calls h mem call

theorem around_tryRule (h : set.Compiled) {r : Rule} (mem : r ∈ set.rules) (s : Session φ ω) :
    Around s (tryRule set r s).2 :=
  each_around_tryRule h mem s _ (passes_tryRule r s).end_mem

/-- Conditions change neither which rules are active nor whether the run is complete. -/
theorem Matches.around (h : set.Compiled) {active : Array Bool} {rules : List Numbered}
    {s t : Session φ ω} {result : Except Error (List Numbered)}
    (m : Matches set active rules s result t) (mem : ∀ n ∈ rules, n.2 ∈ set.rules) :
    Around s t := by
  induction m with
  | nil s => exact .refl s
  | inactive _ _ ih => exact ih fun n hn => mem n (.tail _ hn)
  | @holds _ _ _ s _ _ _ _ tried _ ih | @lacks _ _ _ s _ _ _ _ tried _ ih =>
    have first := around_tryRule h (mem _ (.head _)) s
    rw [tried] at first
    exact first.trans (ih fun n hn => mem n (.tail _ hn))
  | @fails _ _ _ s _ _ _ tried =>
    have first := around_tryRule h (mem _ (.head _)) s
    rw [tried] at first
    exact first

theorem rule_mem_of_numbered {n : Numbered} (mem : n ∈ numbered set) : n.2 ∈ set.rules :=
  List.mem_of_getElem? (mem_numbered.mp mem)

theorem tryRule_congr (r : Rule) {s t : Session φ ω} (same : s.context = t.context) :
    (tryRule set r s).1 = (tryRule set r t).1 ∧
      (tryRule set r s).2.context = (tryRule set r t).2.context :=
  Eval.ReadsContext.condition r set (some r.name) s t same

theorem exists_tryRule {r : Rule} {s s' u : Session φ ω} {result : Except Error Bool}
    (tried : tryRule set r s = (result, u)) (same : s.context = s'.context) :
    ∃ u', tryRule set r s' = (result, u') ∧ u.context = u'.context := by
  refine ⟨(tryRule set r s').2, Prod.ext ?_ rfl, ?_⟩
  · rw [← (tryRule_congr r same).1, tried]
  · rw [← (tryRule_congr r same).2, tried]

/-- Evaluating the conditions of the rules that are `active` has no effect on the facts and host
functions of `s`. -/
def Harmless (set : RuleSet) (active : Array Bool) (rules : List Numbered) (s : Session φ ω) :
    Prop :=
  ∀ n ∈ rules, active.getD n.1 false = true → (tryRule set n.2 s).2.context = s.context

theorem Harmless.head {active : Array Bool} {i : Nat} {r : Rule} {rules : List Numbered}
    {s u : Session φ ω} {result : Except Error Bool} (h : Harmless set active ((i, r) :: rules) s)
    (on : active.getD i false = true) (tried : tryRule set r s = (result, u)) :
    u.context = s.context := by
  have first := h (i, r) (.head _) on
  rwa [tried] at first

theorem Harmless.tail {active : Array Bool} {n : Numbered} {rules : List Numbered}
    {s t : Session φ ω} (h : Harmless set active (n :: rules) s) (same : t.context = s.context) :
    Harmless set active rules t := by
  intro m mem on
  rw [(tryRule_congr m.2 same).2, h m (.tail _ mem) on, same]

theorem Matches.context_eq {active : Array Bool} {rules : List Numbered} {s t : Session φ ω}
    {result : Except Error (List Numbered)} (m : Matches set active rules s result t)
    (harmless : Harmless set active rules s) : t.context = s.context := by
  induction m with
  | nil => rfl
  | inactive _ _ ih => exact ih (harmless.tail rfl)
  | holds on tried _ ih | lacks on tried _ ih =>
    have first := harmless.head on tried
    exact (ih (harmless.tail first)).trans first
  | fails on tried => exact harmless.head on tried

/-- Where conditions have no effect, those that were found not to hold still do not. -/
theorem Matches.still {active : Array Bool} {rules : List Numbered} {s t : Session φ ω}
    (m : Matches set active rules s (.ok []) t) (harmless : Harmless set active rules s) :
    ∀ n ∈ rules, active.getD n.1 false = true → (tryRule set n.2 t).1 = .ok false := by
  generalize eq : (Except.ok [] : Except Error (List Numbered)) = result at m
  induction m with
  | nil => simp
  | inactive off _ ih =>
    intro n mem on
    rcases List.mem_cons.mp mem with rfl | mem
    · rw [off] at on; cases on
    · exact ih (harmless.tail rfl) eq n mem on
  | @holds _ _ _ _ _ result => cases result <;> cases eq
  | @lacks i r rest s u result t on tried more ih =>
    have first := harmless.head on tried
    intro n mem on
    rcases List.mem_cons.mp mem with rfl | mem
    · have context := (more.context_eq (harmless.tail first)).trans first
      rw [(tryRule_congr r context).1, tried]
    · exact ih (harmless.tail first) eq n mem on
  | fails => cases eq

/-- What conditions find depends on facts and host functions only. -/
theorem Matches.congr {active : Array Bool} {rules : List Numbered} {s s' t : Session φ ω}
    {result : Except Error (List Numbered)} (m : Matches set active rules s result t)
    (same : s.context = s'.context) : ∃ t', Matches set active rules s' result t' := by
  induction m generalizing s' with
  | nil => exact ⟨s', .nil s'⟩
  | inactive off _ ih =>
    obtain ⟨t', m⟩ := ih same
    exact ⟨t', .inactive off m⟩
  | holds on tried _ ih =>
    obtain ⟨u', tried', context⟩ := exists_tryRule tried same
    obtain ⟨t', m⟩ := ih context
    exact ⟨t', .holds on tried' m⟩
  | lacks on tried _ ih =>
    obtain ⟨u', tried', context⟩ := exists_tryRule tried same
    obtain ⟨t', m⟩ := ih context
    exact ⟨t', .lacks on tried' m⟩
  | fails on tried =>
    obtain ⟨u', tried', -⟩ := exists_tryRule tried same
    exact ⟨u', .fails on tried'⟩

/-- Finding the rules that hold is evaluating their conditions one after another. -/
theorem holding_matches (h : set.Compiled) {rules : List Numbered}
    (mem : ∀ n ∈ rules, n.2 ∈ set.rules) (rule : Option String) (s : Session φ ω) :
    Matches set s.active rules s ((holding rules).runIn ⟨set, rule⟩ s).1
      ((holding rules).runIn ⟨set, rule⟩ s).2 := by
  induction rules generalizing s with
  | nil => exact .nil s
  | cons n rest ih =>
    obtain ⟨i, r⟩ := n
    have rest_mem := fun n hn => mem n (List.mem_cons_of_mem _ hn)
    unfold holding
    rw [Eval.runIn_bind_ok (Eval.runIn_get _ s)]
    cases on : s.active.getD i false with
    | false => exact .inactive on (ih rest_mem s)
    | true =>
      have same := around_tryRule h (mem _ (.head _)) s
      rw [if_pos rfl]
      rcases tried : tryRule set r s with ⟨e | holds, u⟩
      · rw [Eval.runIn_bind_error (by exact tried)]
        exact .fails on tried
      · rw [Eval.runIn_bind_ok (by exact tried)]
        rw [tried] at same
        have found := ih rest_mem u
        rw [same.active_eq] at found
        rcases others : (holding rest).runIn ⟨set, rule⟩ u with ⟨e | more, t⟩
        · rw [Eval.runIn_bind_error others]
          rw [others] at found
          cases holds with
          | true => exact .holds on tried found
          | false => exact .lacks on tried found
        · rw [Eval.runIn_bind_ok others]
          rw [others] at found
          cases holds with
          | true => exact .holds on tried found
          | false => exact .lacks on tried found

/-- One matching step fails, finds no rule, or finds the one to fire. -/
theorem matching_cases (h : set.Compiled) (rule : Option String) (s : Session φ ω) :
    (∃ e t, matching.runIn ⟨set, rule⟩ s = (.error e, t) ∧
      Matches set s.active (numbered set) s (.error e) t) ∨
    (∃ t, matching.runIn ⟨set, rule⟩ s = (.ok [], t) ∧
      Matches set s.active (numbered set) s (.ok []) t) ∨
    ∃ found t n others, matching.runIn ⟨set, rule⟩ s = (.ok (n :: others), t) ∧
      Matches set s.active (numbered set) s (.ok found) t ∧ Chosen found n ∧
        others.length + 1 = found.length := by
  have found := holding_matches h (fun n mem => rule_mem_of_numbered mem) rule s
  unfold matching
  rw [Eval.runIn_bind_ok (Eval.runIn_read _ s)]
  rcases eq : (holding (numbered set)).runIn ⟨set, rule⟩ s with ⟨e | rules, t⟩
  · rw [eq] at found
    exact .inl ⟨e, t, Eval.runIn_bind_error eq _, found⟩
  rw [eq] at found
  rw [Eval.runIn_bind_ok eq]
  cases sorted : byPriority rules with
  | nil =>
    rw [(byPriority_eq_nil_iff rules).mp sorted] at found
    exact .inr (.inl ⟨t, rfl, found⟩)
  | cons n others =>
    have order : InOrder rules := (numbered_inOrder set).sublist found.sublist.1
    obtain ⟨chosen, length⟩ := chosen_of_byPriority order sorted
    exact .inr (.inr ⟨rules, t, n, others, rfl, found, chosen, length⟩)

/-- The step in which the rules of a knowledge base that match are found. -/
abbrev Finds (kb : KnowledgeBase) (c : Context φ ω) (result : Except Error (List Numbered))
    (t : Session φ ω) : Prop :=
  Matches kb.ruleSet kb.active (numbered kb.ruleSet) (.start c kb.active) result t

/-- The rules that match are found in one such step. -/
theorem fetch_cases {kb : KnowledgeBase} (h : kb.ruleSet.Compiled) (c : Context φ ω) :
    (∃ e t, (fetchMatching c kb).result = .error e ∧ Finds kb c (.error e) t) ∨
    (∃ t, (fetchMatching c kb).result = .ok [] ∧ Finds kb c (.ok []) t) ∨
    ∃ found t n others, (fetchMatching c kb).result = .ok (n.2 :: others) ∧
      Finds kb c (.ok found) t ∧ Chosen found n := by
  unfold fetchMatching runWith
  dsimp only
  obtain ⟨e, t, ran, step⟩ | ⟨t, ran, step⟩ | ⟨found, t, n, others, ran, step, chosen, -⟩ :=
    matching_cases h none (.start c kb.active)
  · rw [Eval.runIn_bind_error ran]
    exact .inl ⟨e, t, rfl, step⟩
  · rw [Eval.runIn_bind_ok ran]
    exact .inr (.inl ⟨t, rfl, step⟩)
  · rw [Eval.runIn_bind_ok ran]
    exact .inr (.inr ⟨found, t, n, _, rfl, step, chosen⟩)

theorem fetch_eq_error_iff {kb : KnowledgeBase} (h : kb.ruleSet.Compiled) {c : Context φ ω}
    {e : Error} : (fetchMatching c kb).result = .error e ↔ ∃ t, Finds kb c (.error e) t := by
  obtain ⟨_, t, eq, step⟩ | ⟨_, eq, step⟩ | ⟨_, _, _, _, eq, step, -⟩ := fetch_cases h c <;> rw [eq]
  · constructor
    · rintro ⟨⟩
      exact ⟨t, step⟩
    · rintro ⟨u, found⟩
      cases (step.unique found).1
      rfl
  all_goals exact ⟨nofun, fun ⟨_, found⟩ => nomatch (step.unique found).1⟩

theorem fetch_eq_nil_iff {kb : KnowledgeBase} (h : kb.ruleSet.Compiled) {c : Context φ ω} :
    (fetchMatching c kb).result = .ok [] ↔ ∃ t, Finds kb c (.ok []) t := by
  obtain ⟨_, _, eq, step⟩ | ⟨t, eq, step⟩ | ⟨_, _, _, _, eq, step, chosen⟩ := fetch_cases h c <;>
    rw [eq]
  · exact ⟨nofun, fun ⟨_, found⟩ => nomatch (step.unique found).1⟩
  · exact ⟨fun _ => ⟨t, step⟩, fun _ => rfl⟩
  · refine ⟨nofun, fun ⟨_, found⟩ => ?_⟩
    cases (step.unique found).1
    cases chosen.1

/-- The first rule found is the one to fire. -/
theorem chosen_of_fetch {kb : KnowledgeBase} (h : kb.ruleSet.Compiled) {c : Context φ ω} {r : Rule}
    {rest : List Rule} (fetched : (fetchMatching c kb).result = .ok (r :: rest)) :
    ∃ found t n, Finds kb c (.ok found) t ∧ Chosen found n ∧ n.2 = r := by
  obtain ⟨_, _, eq, -⟩ | ⟨_, eq, -⟩ | ⟨found, t, n, _, eq, step, chosen⟩ := fetch_cases h c <;>
    rw [eq] at fetched <;> cases fetched
  exact ⟨found, t, n, step, chosen, rfl⟩

end Rulebook.Engine
