import Mathlib
import Rulebook.Proofs.Engine.Checked
import Rulebook.Proofs.Engine.Fetch
import Rulebook.Proofs.Engine.Harmless
import Rulebook.Proofs.Rule.Bare

/-!
# Rules that retract themselves

Where every rule retracts itself and otherwise only reports literals, a run works off the rules that
match at the start, the agenda: each firing takes its first rule away and leaves the rest.
-/

namespace Rulebook

/-- It reports literals. -/
def Statement.reports : Statement → Bool
  | .call (.call callee args _) _ => callee = "Log" && args.all fun e => e.literal?.isSome
  | _ => false

/-- It retracts the rule of this name. -/
def Statement.retracts (name : String) : Statement → Bool
  | .call (.call callee [.literal (.text target) _] _) _ => callee = "Retract" && target = name
  | _ => false

/-- One action retracts the rule itself; those before and after it report literals. -/
def Rule.RetractsItself (r : Rule) : Prop :=
  ∃ i : Fin r.actions.length, r.actions[i].retracts r.name ∧ ∀ a ∈ r.actions.eraseIdx i, a.reports

instance (r : Rule) : Decidable r.RetractsItself := inferInstanceAs (Decidable (∃ _ : Fin _, _))

theorem Statement.eq_of_retracts {a : Statement} {name : String} (h : a.retracts name) :
    ∃ at_l span at_a, a = .call (.call "Retract" [.literal (.text name) at_l] span) at_a := by
  unfold retracts at h
  split at h
  · next callee target at_l span at_a =>
    rw [Bool.and_eq_true, decide_eq_true_eq, decide_eq_true_eq] at h
    obtain ⟨rfl, rfl⟩ := h
    exact ⟨at_l, span, at_a, rfl⟩
  · cases h

theorem Statement.eq_of_reports {a : Statement} (h : a.reports) :
    ∃ args span at_a, a = .call (.call "Log" args span) at_a ∧
      ∀ e ∈ args, ∃ l at_l, e = .literal l at_l := by
  unfold reports at h
  split at h
  · next callee args span at_a =>
    rw [Bool.and_eq_true, decide_eq_true_eq, List.all_eq_true] at h
    obtain ⟨rfl, literals⟩ := h
    refine ⟨args, span, at_a, rfl, fun e mem => ?_⟩
    have literal := literals e mem
    cases e with
    | literal l at_l => exact ⟨l, at_l, rfl⟩
    | _ => cases literal
  · cases h

theorem Rule.RetractsItself.actions_eq {r : Rule} (h : r.RetractsItself) :
    ∃ before at_l span at_a after,
      r.actions =
        before ++ .call (.call "Retract" [.literal (.text r.name) at_l] span) at_a :: after ∧
      ∀ a ∈ before ++ after, a.reports := by
  obtain ⟨i, retracts, reports⟩ := h
  obtain ⟨at_l, span, at_a, eq⟩ := Statement.eq_of_retracts retracts
  rw [List.eraseIdx_eq_take_drop_succ] at reports
  refine ⟨r.actions.take i, at_l, span, at_a, r.actions.drop (i + 1), ?_, reports⟩
  have lt := i.isLt
  rw [← eq, Fin.getElem_fin, ← List.drop_eq_getElem_cons lt, List.take_append_drop]

namespace Engine

variable {φ ω : Type} [FactOps φ]

/-! ## Actions -/

theorem runIn_values_literals {es : List Expr} (h : ∀ e ∈ es, ∃ l at_l, e = .literal l at_l)
    (fr : Frame) (s : Session φ ω) : ∃ vs, (Eval.values es).runIn fr s = (.ok vs, s) := by
  induction es with
  | nil => exact ⟨[], rfl⟩
  | cons e es ih =>
    obtain ⟨l, at_l, rfl⟩ := h e (.head _)
    obtain ⟨vs, ran⟩ := ih fun e mem => h e (.tail _ mem)
    have first : (Eval.eval (.literal l at_l) : Eval φ ω Value).runIn fr s =
        (.ok (.ofLiteral l), s) := rfl
    refine ⟨.ofLiteral l :: vs, ?_⟩
    unfold Eval.values
    rw [Eval.eval_bind, Eval.runIn_bind_ok first, Eval.runIn_bind_ok ran]
    rfl

/-- A call as an action does what the call does. -/
theorem runIn_execute_call {e : Expr} {v : Value} {fr : Frame} {s t : Session φ ω}
    (ran : (Eval.eval e).runIn fr s = (.ok v, t)) (at_a : Span) :
    (Eval.execute (.call e at_a)).runIn fr s = (.ok (), t) :=
  Eval.runIn_bind_ok ran _

theorem runIn_report {a : Statement} (h : a.reports) (fr : Frame) (s : Session φ ω) :
    ∃ e, (Eval.execute a).runIn fr s = (.ok (), s.record e) := by
  obtain ⟨args, span, at_a, rfl, literals⟩ := Statement.eq_of_reports h
  obtain ⟨vs, ran⟩ := runIn_values_literals literals fr s
  refine ⟨.logged (" ".intercalate (vs.map Value.shown)) fr.rule, ?_⟩
  refine runIn_execute_call (v := .nil) ?_ at_a
  unfold Eval.eval Eval.place
  rw [bind_assoc, Eval.runIn_bind_ok ran]
  rfl

/-- Reports are all that reporting changes. -/
theorem runIn_reports {as : List Statement} (h : ∀ a ∈ as, a.reports) (fr : Frame)
    (s : Session φ ω) :
    ∃ events, (Eval.executeAll as).runIn fr s = (.ok (), { s with events := events }) := by
  induction as generalizing s with
  | nil => exact ⟨s.events, rfl⟩
  | cons a as ih =>
    obtain ⟨e, first⟩ := runIn_report (h a (.head _)) fr s
    obtain ⟨events, rest⟩ := ih (fun b mem => h b (.tail _ mem)) (s.record e)
    refine ⟨events, ?_⟩
    unfold Eval.executeAll
    rw [Eval.runIn_bind_ok first, rest]
    rfl

theorem executeAll_append (front back : List Statement) :
    (Eval.executeAll (front ++ back) : Eval φ ω Unit) =
      (Eval.executeAll front >>= fun _ => Eval.executeAll back) := by
  induction front with
  | nil => rfl
  | cons a front ih =>
    rw [List.cons_append, Eval.executeAll, Eval.executeAll, ih, bind_assoc]

/-- The actions of such a rule switch the rule off, list its name, and report. -/
theorem runIn_retractsItself {set : RuleSet} (h : set.Compiled) {n : Numbered}
    (mem : n ∈ numbered set) (own : n.2.RetractsItself) (rule : Option String) {s : Session φ ω}
    (on : s.active.getD n.1 false = true) :
    ∃ events, (Eval.executeAll n.2.actions).runIn ⟨set, rule⟩ s =
      (.ok (), { s with
        active := s.active.setIfInBounds n.1 false
        retracted := s.retracted ++ [n.2.name]
        events := events }) := by
  obtain ⟨before, at_l, span, at_a, after, actions, reports⟩ := own.actions_eq
  have pos : set.position? n.2.name = some n.1 :=
    (RuleSet.position?_eq_some_iff h _ _).mpr ⟨n.2, mem_numbered.mp mem, rfl⟩
  obtain ⟨es, first⟩ := runIn_reports (fun a mem => reports a (List.mem_append_left _ mem))
    ⟨set, rule⟩ s
  have retracts := eval_retract_literal pos at_l span rule { s with events := es }
  obtain ⟨events, rest⟩ := runIn_reports (fun a mem => reports a (List.mem_append_right _ mem))
    ⟨set, rule⟩ (({ s with events := es } : Session φ ω).retract n.1 n.2.name)
  refine ⟨events, ?_⟩
  rw [actions, executeAll_append, Eval.runIn_bind_ok first, Eval.executeAll,
    Eval.runIn_bind_ok (runIn_execute_call retracts at_a), rest]
  unfold Session.retract
  rw [if_pos on]

/-! ## The agenda -/

variable {set : RuleSet} {c : Context φ ω} {s t : Session φ ω} {found todo rest : List Numbered}
  {n : Numbered}

/-- Over these facts every condition has a truth value, and no effect. -/
def Decides (set : RuleSet) (c : Context φ ω) : Prop :=
  ∀ r ∈ set.rules, (∃ b, (tryRule set r (start set c)).1 = .ok b) ∧
    (tryRule set r (start set c)).2.context = c

theorem Decides.at (d : Decides set c) {r : Rule} (mem : r ∈ set.rules) (same : s.context = c) :
    (∃ b, (tryRule set r s).1 = .ok b) ∧ (tryRule set r s).2.context = s.context := by
  have begun : s.context = (start set c).context := same
  rw [(tryRule_congr r begun).1, (tryRule_congr r begun).2, same]
  exact d r mem

theorem Decides.harmless (d : Decides set c) (same : s.context = c) (active : Array Bool) :
    Harmless set active (numbered set) s := by
  intro n mem _
  exact (d.at (rule_mem_of_numbered mem) same).2

theorem Decides.exists_found (h : set.Compiled) (d : Decides set c) (same : s.context = c) :
    ∃ found t, Matches set s.active (numbered set) s (.ok found) t := by
  have m := holding_matches h (fun n mem => rule_mem_of_numbered mem) none s
  have decided : ∀ n ∈ numbered set, s.active.getD n.1 false = true →
      ∃ b, (tryRule set n.2 s).1 = .ok b := by
    intro n mem _
    exact (d.at (rule_mem_of_numbered mem) same).1
  obtain ⟨found, eq⟩ := (m.isOk_iff (d.harmless same _)).mpr decided
  rw [eq] at m
  exact ⟨found, _, m⟩

/-- The active rules whose conditions hold, in the order in which they would fire. -/
structure Agenda (set : RuleSet) (s : Session φ ω) (todo : List Numbered) : Prop where
  sorted : todo.Pairwise Precedes
  mem_iff : ∀ n, n ∈ todo ↔ n ∈ numbered set ∧ s.active.getD n.1 false = true ∧ Fires set s n.2

namespace Agenda

theorem of_matches (m : Matches set s.active (numbered set) s (.ok found) t)
    (harmless : Harmless set s.active (numbered set) s) : Agenda set s (byPriority found) where
  sorted := byPriority_pairwise ((numbered_inOrder set).sublist m.sublist.1)
  mem_iff n := (byPriority_perm found).mem_iff.trans (m.mem_iff harmless n)

theorem mem_found_iff (agenda : Agenda set s todo)
    (m : Matches set s.active (numbered set) s (.ok found) t)
    (harmless : Harmless set s.active (numbered set) s) : n ∈ found ↔ n ∈ todo :=
  (m.mem_iff harmless n).trans (agenda.mem_iff n).symm

/-- The first rule of the agenda fires. -/
theorem chosen (agenda : Agenda set s (n :: rest))
    (m : Matches set s.active (numbered set) s (.ok found) t)
    (harmless : Harmless set s.active (numbered set) s) : Chosen found n := by
  refine ⟨(agenda.mem_found_iff m harmless).mpr (.head _), fun k mem => ?_⟩
  rcases List.mem_cons.mp ((agenda.mem_found_iff m harmless).mp mem) with same | later
  · exact .inl same
  · exact .inr ((List.pairwise_cons.mp agenda.sorted).1 k later)

/-- Switching the first rule off leaves the rest of the agenda. -/
theorem tail (agenda : Agenda set s (n :: rest)) (same : t.context = s.context)
    (off : t.active = s.active.setIfInBounds n.1 false) : Agenda set t rest where
  sorted := agenda.sorted.tail
  mem_iff k := by
    have first := (List.pairwise_cons.mp agenda.sorted).1
    have listed := agenda.mem_iff k
    have inside : n ∈ numbered set := ((agenda.mem_iff n).mp (.head _)).1
    rw [List.mem_cons] at listed
    rw [off, getD_setIfInBounds, Fires.congr same]
    constructor
    · intro mem
      obtain ⟨known, on, holds⟩ := listed.mp (.inr mem)
      have apart : n.1 ≠ k.1 := by
        intro places
        have rules := mem_numbered.mp inside
        rw [places, mem_numbered.mp known] at rules
        have eq : k = n := Prod.ext places.symm (Option.some.inj rules)
        have before := first k mem
        rw [eq] at before
        exact before.asymm before
      rw [if_neg apart]
      exact ⟨known, on, holds⟩
    · rintro ⟨known, on, holds⟩
      split at on
      · cases on
      · next apart =>
        rcases listed.mpr ⟨known, on, holds⟩ with rfl | mem
        · exact absurd rfl apart
        · exact mem

/-- The first rule of the agenda fires, and leaves the rest to be found. -/
theorem fires (h : set.Compiled) (own : ∀ r ∈ set.rules, r.RetractsItself) (d : Decides set c)
    (agenda : Agenda set s (n :: rest)) (same : s.context = c) (going : s.complete = false) :
    ∃ f : Firing φ ω, f.before = s ∧ f.chosen = n ∧ f.Valid set ∧ f.result = .ok () ∧
      ¬ f.CallsComplete set ∧ f.after.context = c ∧ f.after.complete = false ∧
      f.after.retracted = s.retracted ++ [n.2.name] ∧ Agenda set f.after rest := by
  have harmless := d.harmless same s.active
  obtain ⟨found, t, m⟩ := d.exists_found h same
  obtain ⟨known, on, -⟩ := (agenda.mem_iff n).mp (.head _)
  have around := m.around h fun _ mem => rule_mem_of_numbered mem
  have kept := m.context_eq harmless
  have active : t.active.getD n.1 false = true := by rw [around.active_eq]; exact on
  obtain ⟨events, acted⟩ := runIn_retractsItself h known (own _ (rule_mem_of_numbered known))
    (some n.2.name) (s := announced found n.2 t) active
  have performed := executeAll_performs set n.2 n.2.actions (announced found n.2 t)
  rw [acted] at performed
  have valid : Firing.Valid set ⟨s, found, t, n, _, _⟩ := ⟨m, agenda.chosen m harmless, performed⟩
  have silent : t.complete = false := around.complete_eq.trans going
  refine ⟨_, rfl, rfl, valid, rfl, ?_, kept.trans same, silent, ?_, agenda.tail kept ?_⟩
  · rw [← valid.complete_iff h going]
    change ¬ t.complete = true
    rw [silent]
    exact Bool.false_ne_true
  · exact congrArg (· ++ [n.2.name]) around.retracted_eq
  · exact congrArg (·.setIfInBounds n.1 false) around.active_eq

end Agenda

/-- The names of rules. -/
def names (rules : List Numbered) : List String := rules.map fun n => n.2.name

/-- A run from `s` that has room for `left` more cycles fires that many rules of the agenda, in its
order, and each retracts itself. -/
structure WorksOff (maxCycles left : Nat) (last : String) (s : Session φ ω) (todo : List Numbered)
    (e : Ending φ ω) : Prop where
  fired : e.firings.map Firing.name = (names todo).take left
  retracted : e.session.retracted = s.retracted ++ (names todo).take left
  context : e.session.context = s.context
  quiescent : todo.length ≤ left → e.outcome = .ok .quiescent
  limited : left < todo.length → ∃ name, (last :: names todo)[left]? = some name ∧
    e.outcome = .error (.cycleLimit maxCycles name)

theorem Agenda.drains (h : set.Compiled) (own : ∀ r ∈ set.rules, r.RetractsItself)
    (d : Decides set c) (agenda : Agenda set s todo) (same : s.context = c)
    (going : s.complete = false) {maxCycles count left : Nat} (room : count + left = maxCycles)
    (last : String) :
    ∃ e, Forward set maxCycles count last s e ∧ WorksOff maxCycles left last s todo e := by
  induction todo generalizing s count left last with
  | nil =>
    have harmless := d.harmless same s.active
    obtain ⟨found, t, m⟩ := d.exists_found h same
    have none : found = [] := List.eq_nil_iff_forall_not_mem.mpr fun n mem =>
      nomatch (agenda.mem_found_iff m harmless).mp mem
    subst none
    have around := m.around h fun _ mem => rule_mem_of_numbered mem
    refine ⟨_, .quiescent m, ⟨by simp [names], ?_, m.context_eq harmless, fun _ => rfl, nofun⟩⟩
    simpa [names] using around.retracted_eq
  | cons n rest ih =>
    cases left with
    | zero =>
      have harmless := d.harmless same s.active
      obtain ⟨found, t, m⟩ := d.exists_found h same
      have some : found ≠ [] := List.ne_nil_of_mem (agenda.chosen m harmless).1
      have around := m.around h fun _ mem => rule_mem_of_numbered mem
      refine ⟨_, .limit m some room, ⟨rfl, ?_, m.context_eq harmless, nofun, ?_⟩⟩
      · rw [List.take_zero, List.append_nil]
        exact around.retracted_eq
      · exact fun _ => ⟨last, rfl, rfl⟩
    | succ left =>
      obtain ⟨f, rfl, rfl, valid, ok, silent, kept, goes, retracted, agenda⟩ :=
        agenda.fires h own d same going
      have room : count + 1 + left = maxCycles := by omega
      obtain ⟨⟨o, fs, u⟩, run, off⟩ := ih agenda kept goes room f.name
      refine ⟨_, .next rfl valid (by omega) ok silent run, ?_, ?_, ?_, ?_, ?_⟩
      · exact congrArg (f.name :: ·) off.fired
      · rw [off.retracted, retracted, List.append_assoc]
        rfl
      · rw [off.context, kept, same]
      · exact fun le => off.quiescent (Nat.le_of_succ_le_succ le)
      · exact fun lt => off.limited (Nat.lt_of_succ_lt_succ lt)

/-! ## Runs -/

/-- The rules found, in the order in which they would fire. -/
theorem fetch_eq_ok {kb : KnowledgeBase} (h : kb.ruleSet.Compiled) (step : Finds kb c (.ok found) t) :
    (fetchMatching c kb).result = .ok ((byPriority found).map Prod.snd) := by
  have m := holding_matches h (fun n mem => rule_mem_of_numbered mem) none (.start c kb.active)
  obtain ⟨eq, -⟩ := m.unique step
  rcases held : (holding (numbered kb.ruleSet)).runIn ⟨kb.ruleSet, none⟩ (.start c kb.active)
    with ⟨_, u⟩
  rw [held] at eq
  cases eq
  unfold fetchMatching runWith matching
  rw [bind_assoc, Eval.runIn_bind_ok (Eval.runIn_read _ _), bind_assoc, Eval.runIn_bind_ok held]
  rfl

theorem names_nodup {kb : KnowledgeBase} (h : kb.ruleSet.Compiled)
    (agenda : Agenda kb.ruleSet s todo) : (names todo).Nodup := by
  unfold names
  rw [List.Nodup, List.pairwise_map]
  refine agenda.sorted.imp_of_mem fun {a b} ha hb before same => ?_
  have eq := eq_of_key_eq (RuleSet.names_nodup h) ((agenda.mem_iff a).mp ha).1
    ((agenda.mem_iff b).mp hb).1 same
  rw [eq] at before
  exact before.asymm before

/-- A run over `c` fires the rules on the list, once each and in their order, as far as the bound on
cycles allows; these are the rules that match at the start. -/
structure Drained (kb : KnowledgeBase) (maxCycles : Nat) (c : Context φ ω) (todo : List Numbered) :
    Prop where
  sorted : todo.Pairwise Precedes
  nodup : (names todo).Nodup
  mem_iff : ∀ n, n ∈ todo ↔
    n ∈ numbered kb.ruleSet ∧ Fires kb.ruleSet (start kb.ruleSet c) n.2
  fetched : (fetchMatching c kb.reset).result = .ok (todo.map Prod.snd)
  quiescent : todo.length ≤ maxCycles → (execute maxCycles c kb).result =
    .ok ⟨kb.ruleSet.name, kb.ruleSet.version, .quiescent, todo.length, names todo, names todo⟩
  limited : maxCycles < todo.length → ∃ name, ("" :: names todo)[maxCycles]? = some name ∧
    (execute maxCycles c kb).result = .error (.cycleLimit maxCycles name)
  fired : ∃ e, Forward kb.ruleSet maxCycles 0 "" (start kb.ruleSet c) e ∧
    execute maxCycles c kb = ⟨e.outcome.map (e.report kb.ruleSet), e.final⟩ ∧
    e.firings.map Firing.name = (names todo).take maxCycles
  retracted : (execute maxCycles c kb).session.retracted = (names todo).take maxCycles
  context : (execute maxCycles c kb).session.context = c

/-- Where every rule retracts itself and every condition has a truth value, a run works off the
rules that match at the start. -/
theorem execute_agenda {kb : KnowledgeBase} (h : kb.ruleSet.Compiled)
    (own : ∀ r ∈ kb.ruleSet.rules, r.RetractsItself) {c : Context φ ω}
    (d : Decides kb.ruleSet c) (maxCycles : Nat) : ∃ todo, Drained kb maxCycles c todo := by
  obtain ⟨found, t, m⟩ := d.exists_found h (s := start kb.ruleSet c) rfl
  have agenda := Agenda.of_matches m (d.harmless rfl _)
  obtain ⟨e, run, off⟩ := agenda.drains h own d rfl rfl (Nat.zero_add maxCycles) ""
  obtain ⟨e', run', executed⟩ := execute_eq h maxCycles c
  obtain rfl := run'.unique run
  have fetched : (fetchMatching c kb.reset).result = _ := fetch_eq_ok h m
  refine ⟨byPriority found, agenda.sorted, names_nodup h agenda, fun n => ?_, fetched,
    fun le => ?_, fun lt => ?_, ⟨e', run, executed, off.fired⟩, ?_, ?_⟩
  · rw [agenda.mem_iff]
    refine and_congr_right fun mem => and_iff_right ?_
    obtain ⟨lt, -⟩ := List.getElem?_eq_some_iff.mp (mem_numbered.mp mem)
    exact getD_replicate lt
  · have all : (names (byPriority found)).take maxCycles = names (byPriority found) :=
      List.take_of_length_le (by simpa [names] using le)
    have fired := off.fired
    have retracted := off.retracted
    rw [all] at fired retracted
    have count := congrArg List.length fired
    simp only [names, List.length_map] at count
    rw [executed]
    dsimp only
    rw [off.quiescent le]
    simp only [Except.map, Ending.report, fired, retracted, count]
    rfl
  · obtain ⟨name, is, ends⟩ := off.limited lt
    refine ⟨name, is, ?_⟩
    rw [executed]
    dsimp only
    rw [ends]
    rfl
  · rw [executed, e'.final_retracted]
    exact off.retracted
  · rw [executed, e'.final_context]
    exact off.context

/-- Three rules that retract themselves, of which the last does not match where `D.n` is zero. -/
def queued : KnowledgeBase :=
  .ofRuleSet ((RuleSet.compile {} "queue" "1"
    ("rule A \x7b when D.n < 2 then Log(1); Retract(\"A\"); Log(); \x7d "
      ++ "rule B salience 5 \x7b when true then Retract(\"B\"); \x7d "
      ++ "rule C \x7b when D.n > 3 then Retract(\"C\"); \x7d").toUTF8).toOption.getD
        ⟨"", "", "", []⟩)

set_option maxRecDepth 2000 in
theorem queued_compiled : queued.ruleSet.Compiled :=
  RuleSet.compiled_of_isSome (by decide +kernel)

theorem queued_decides : Decides queued.ruleSet counter := by
  have decided : ∀ r ∈ queued.ruleSet.rules,
      (tryRule queued.ruleSet r (start queued.ruleSet counter)).1.toOption.isSome := by
    decide +kernel
  intro r mem
  obtain ⟨b, is⟩ := Option.isSome_iff_exists.mp (decided r mem)
  exact ⟨⟨b, ok_iff_toOption.mpr is⟩, (Eval.within_condition counter_tidy r _ _ rfl).1⟩

theorem execute_agenda_queued : ∃ todo, Drained queued 1 counter todo :=
  execute_agenda queued_compiled (by decide +kernel) queued_decides 1

end Engine

end Rulebook
