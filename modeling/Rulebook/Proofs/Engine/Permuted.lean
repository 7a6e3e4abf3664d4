import Mathlib
import Rulebook.Proofs.Engine.Checked
import Rulebook.Proofs.Engine.Fetch
import Rulebook.Proofs.Engine.Twin
import Rulebook.Proofs.RuleSet.Joined

/-!
# The order of rules

Where no two rules have the same salience and conditions have no effects, the order in which the
rules of a set are written makes no difference to a run: the same rules fire one after another, with
the same facts in between, and the run ends in the same way.
-/

namespace Rulebook.Engine

variable {φ ω : Type} [FactOps φ] {set set' : RuleSet} {s s' t : Session φ ω}

/-! ## Conditions -/

theorem Shuffled.tryRule (sh : Shuffled set set') (twin : Twin set set' s s') {r r' : Rule}
    (same : r'.bare = r.bare) :
    (tryRule set' r' s').1.toOption = (tryRule set r s).1.toOption ∧
      (tryRule set' r' s').2.context = (tryRule set r s).2.context := by
  have mirrors : Mirrors (φ := φ) (ω := ω) set set' id (Eval.condition r) (Eval.condition r') :=
    .of_bare (.condition sh r) (same ▸ .condition (.refl sh.compiled') r')
  obtain ⟨result, after⟩ := mirrors (some r.name) s s' twin
  rw [Option.map_id_fun, id_eq] at result
  unfold Engine.tryRule
  rw [name_eq_of_bare same]
  exact ⟨result, after.context_eq⟩

namespace Twin

theorem harmless (sh : Shuffled set set') (twin : Twin set set' s s')
    (harmless : Harmless set s.active (numbered set) s) :
    Harmless set' s'.active (numbered set') s' := by
  intro n' mem' on'
  obtain ⟨n, mem, same⟩ := sh.symm.exists_counterpart mem'
  have on := (twin.on_iff sh mem mem' (name_eq_of_bare same.symm)).mp on'
  rw [(sh.tryRule twin same.symm).2, harmless n mem on, twin.context_eq]

/-- Conditions without effects leave twin sessions behind. -/
theorem after_matches (sh : Shuffled set set') (twin : Twin set set' s s')
    (harmless : Harmless set s.active (numbered set) s) {t' : Session φ ω}
    {result result' : Except Error (List Numbered)}
    (m : Matches set s.active (numbered set) s result t)
    (m' : Matches set' s'.active (numbered set') s' result' t') : Twin set set' t t' := by
  have around := m.around sh.compiled fun _ mem => rule_mem_of_numbered mem
  have around' := m'.around sh.compiled' fun _ mem => rule_mem_of_numbered mem
  refine ⟨?_, ?_, ?_, twin.tracks.of_eq around.active_eq around.retracted_eq,
    twin.tracks'.of_eq around'.active_eq around'.retracted_eq⟩
  · rw [m.context_eq harmless, m'.context_eq (twin.harmless sh harmless), twin.context_eq]
  · rw [around.retracted_eq, around'.retracted_eq, twin.retracted_eq]
  · rw [around.complete_eq, around'.complete_eq, twin.complete_eq]

/-- The same conditions hold, whatever their order. -/
theorem matches_ok (sh : Shuffled set set') (twin : Twin set set' s s')
    (harmless : Harmless set s.active (numbered set) s) {found : List Numbered}
    (m : Matches set s.active (numbered set) s (.ok found) t) :
    ∃ found' t', Matches set' s'.active (numbered set') s' (.ok found') t' ∧ Twin set set' t t' ∧
      ∀ n ∈ numbered set, ∀ n' ∈ numbered set', n'.2.bare = n.2.bare → (n' ∈ found' ↔ n ∈ found) := by
  have harmless' := twin.harmless sh harmless
  have m' := holding_matches sh.compiled' (fun n mem => rule_mem_of_numbered mem) none s'
  have decided : ∀ n' ∈ numbered set', s'.active.getD n'.1 false = true →
      ∃ b, (Engine.tryRule set' n'.2 s').1 = .ok b := by
    intro n' mem' on'
    obtain ⟨n, mem, same⟩ := sh.symm.exists_counterpart mem'
    have on := (twin.on_iff sh mem mem' (name_eq_of_bare same.symm)).mp on'
    obtain ⟨b, is⟩ := (m.isOk_iff harmless).mp ⟨found, rfl⟩ n mem on
    refine ⟨b, ?_⟩
    rw [ok_iff_toOption, (sh.tryRule twin same.symm).1, ← ok_iff_toOption, is]
  obtain ⟨found', eq⟩ := (m'.isOk_iff harmless').mpr decided
  rw [eq] at m'
  refine ⟨found', _, m', twin.after_matches sh harmless m m', fun n mem n' mem' same => ?_⟩
  rw [m.mem_iff harmless, m'.mem_iff harmless', twin.on_iff sh mem mem' (name_eq_of_bare same)]
  unfold Fires
  rw [ok_iff_toOption, ok_iff_toOption, (sh.tryRule twin same).1]
  exact ⟨fun ⟨_, holds⟩ => ⟨mem, holds⟩, fun ⟨_, holds⟩ => ⟨mem', holds⟩⟩

/-- If a condition fails, one fails in any order. -/
theorem matches_error (sh : Shuffled set set') (twin : Twin set set' s s')
    (harmless : Harmless set s.active (numbered set) s) {e : Error}
    (m : Matches set s.active (numbered set) s (.error e) t) :
    ∃ e' t', Matches set' s'.active (numbered set') s' (.error e') t' ∧ Twin set set' t t' := by
  have m' := holding_matches sh.compiled' (fun n mem => rule_mem_of_numbered mem) none s'
  rcases eq : ((holding (numbered set')).runIn ⟨set', none⟩ s').1 with e' | found'
  · rw [eq] at m'
    exact ⟨e', _, m', twin.after_matches sh harmless m m'⟩
  · rw [eq] at m'
    obtain ⟨found, t', back, -⟩ := twin.symm.matches_ok sh.symm (twin.harmless sh harmless) m'
    cases (m.unique back).1

end Twin

/-! ## Firings -/

/-- Of rules with different saliences the same one comes first in any order. -/
theorem Shuffled.chosen (sh : Shuffled set set') (apart : (set.rules.map Rule.salience).Nodup)
    {found found' : List Numbered} (sub : ∀ n ∈ found, n ∈ numbered set)
    (sub' : ∀ n ∈ found', n ∈ numbered set')
    (same : ∀ n ∈ numbered set, ∀ n' ∈ numbered set', n'.2.bare = n.2.bare →
      (n' ∈ found' ↔ n ∈ found))
    {n : Numbered} (chosen : Chosen found n) : ∃ n', n'.2.bare = n.2.bare ∧ Chosen found' n' := by
  have mem := sub n chosen.1
  obtain ⟨n', mem', eq⟩ := sh.exists_counterpart mem
  refine ⟨n', eq, (same n mem n' mem' eq).mpr chosen.1, fun k' inside' => ?_⟩
  obtain ⟨k, known, eq'⟩ := sh.symm.exists_counterpart (sub' k' inside')
  have inside := (same k known k' (sub' k' inside') eq'.symm).mp inside'
  rcases chosen.2 k inside with rfl | higher | ⟨equal, before⟩
  · have names : k'.2.name = n'.2.name := name_eq_of_bare (eq'.symm.trans eq.symm)
    exact .inl (eq_of_key_eq (RuleSet.names_nodup sh.compiled') (sub' k' inside') mem' names)
  · refine .inr (.inl ?_)
    rw [salience_eq_of_bare eq, ← salience_eq_of_bare eq']
    exact higher
  · have places := eq_of_key_eq apart known mem equal
    rw [places] at before
    omega

/-- The two firings are of the same rule, end both with an error or both without, and leave the same
facts. -/
structure Firing.Same (f f' : Firing φ ω) : Prop where
  name : f'.name = f.name
  result : f'.result.toOption = f.result.toOption
  context : f'.after.context = f.after.context

omit [FactOps φ] in
theorem Firing.Same.ok {f f' : Firing φ ω} (same : f.Same f') (ok : f.result = .ok ()) :
    f'.result = .ok () := by
  rw [ok_iff_toOption, same.result, ok]
  rfl

omit [FactOps φ] in
theorem names_eq_of_same {fs fs' : List (Firing φ ω)} (h : List.Forall₂ Firing.Same fs fs') :
    fs'.map Firing.name = fs.map Firing.name := by
  induction h with
  | nil => rfl
  | cons same _ ih => rw [List.map_cons, List.map_cons, same.name, ih]

theorem Twin.fires (sh : Shuffled set set') (apart : (set.rules.map Rule.salience).Nodup)
    {f : Firing φ ω} (valid : f.Valid set) (twin : Twin set set' f.before s')
    (harmless : Harmless set f.before.active (numbered set) f.before) :
    ∃ f' : Firing φ ω, f'.before = s' ∧ f'.Valid set' ∧ f.Same f' ∧
      Twin set set' f.finish f'.finish := by
  obtain ⟨found', t', m', matched, same⟩ := twin.matches_ok sh harmless valid.found
  obtain ⟨n', eq, chosen'⟩ := sh.chosen apart (fun n mem => valid.found.sublist.1.subset mem)
    (fun n mem => m'.sublist.1.subset mem) same valid.chosen
  have actions : n'.2.actions.map Statement.bare = f.chosen.2.actions.map Statement.bare :=
    congrArg Rule.actions eq
  have mirrors : Mirrors (φ := φ) (ω := ω) set set' id (Eval.executeAll f.chosen.2.actions)
      (Eval.executeAll n'.2.actions) :=
    .of_bare (.executeAll sh _) (actions ▸ .executeAll (.refl sh.compiled') _)
  have names : n'.2.name = f.name := name_eq_of_bare eq
  obtain ⟨result, after⟩ := mirrors (some f.name) f.begun (announced found' n'.2 t')
    (matched.record _ _)
  rw [Option.map_id_fun, id_eq, valid.executed] at result
  rw [valid.executed] at after
  have performed := executeAll_performs set' n'.2 n'.2.actions (announced found' n'.2 t')
  rw [names] at performed
  exact ⟨⟨s', found', t', n', _, _⟩, rfl, ⟨m', chosen', performed⟩,
    ⟨names, result, after.context_eq⟩, after⟩

/-! ## Runs -/

/-- Both runs end without an error and in the same way, or both with the same limit, or both with an
error in a rule. -/
inductive SameEnd {α : Type} (same : α → α → Prop) : Except Error α → Except Error α → Prop
  | ok {a a' : α} : same a a' → SameEnd same (.ok a) (.ok a')
  | limit (k : Nat) (last : String) :
      SameEnd same (.error (.cycleLimit k last)) (.error (.cycleLimit k last))
  | problem (p p' : Problem) : SameEnd same (.error (.problem p)) (.error (.problem p'))

theorem SameEnd.of_accounted {α : Type} {same : α → α → Prop} {e e' : Error}
    (h : Accounted set e) (h' : Accounted set' e') : SameEnd same (.error e) (.error e') := by
  obtain ⟨_, _, _, _, rfl, _⟩ := h
  obtain ⟨_, _, _, _, rfl, _⟩ := h'
  exact .problem _ _

theorem SameEnd.map {α β : Type} {same : α → α → Prop} {same' : β → β → Prop}
    {r r' : Except Error α} {f g : α → β} (h : SameEnd same r r')
    (keep : ∀ a a', same a a' → same' (f a) (g a')) : SameEnd same' (r.map f) (r'.map g) := by
  cases h with
  | ok s => exact .ok (keep _ _ s)
  | limit k last => exact .limit k last
  | problem p p' => exact .problem p p'

/-- Two runs abreast of each other. -/
structure Abreast (set set' : RuleSet) (e e' : Ending φ ω) : Prop where
  outcome : SameEnd Eq e.outcome e'.outcome
  firings : List.Forall₂ Firing.Same e.firings e'.firings
  session : Twin set set' e.session e'.session

/-- Whatever a run does, so does one from a twin session over the other set. -/
theorem Forward.shuffled (sh : Shuffled set set') (apart : (set.rules.map Rule.salience).Nodup)
    {maxCycles count : Nat} {last : String} {e : Ending φ ω}
    (run : Forward set maxCycles count last s e) (twin : Twin set set' s s')
    (going : s.complete = false)
    (calm : ∀ t ∈ s :: e.firings.map Firing.after, Harmless set t.active (numbered set) t) :
    ∃ e', Forward set' maxCycles count last s' e' ∧ Abreast set set' e e' := by
  induction run generalizing s' with
  | quiescent none =>
    obtain ⟨found', t', m', after, same⟩ := twin.matches_ok sh (calm _ (.head _)) none
    have none' : found' = [] := by
      refine List.eq_nil_iff_forall_not_mem.mpr fun n' mem => ?_
      have mem' := m'.sublist.1.subset mem
      obtain ⟨n, known, eq⟩ := sh.symm.exists_counterpart mem'
      cases (same n known n' mem' eq.symm).mp mem
    rw [none'] at m'
    exact ⟨_, .quiescent m', ⟨.ok rfl, .nil, after⟩⟩
  | limit some some_ne full =>
    obtain ⟨found', t', m', after, same⟩ := twin.matches_ok sh (calm _ (.head _)) some
    obtain ⟨n, mem⟩ := List.exists_mem_of_ne_nil _ some_ne
    have known := some.sublist.1.subset mem
    obtain ⟨n', mem', eq⟩ := sh.exists_counterpart known
    have some_ne' : found' ≠ [] := List.ne_nil_of_mem ((same n known n' mem' eq).mpr mem)
    exact ⟨_, .limit m' some_ne' full, ⟨.limit _ _, .nil, after.record _ _⟩⟩
  | conditionFails fails =>
    obtain ⟨e', t', m', after⟩ := twin.matches_error sh (calm _ (.head _)) fails
    exact ⟨_, .conditionFails m', ⟨.of_accounted (accounted_of_matches sh.compiled fails)
      (accounted_of_matches sh.compiled' m'), .nil, after⟩⟩
  | @completed _ _ _ f before valid room ok calls =>
    subst before
    obtain ⟨f', rfl, valid', same, after⟩ := twin.fires sh apart valid (calm _ (.head _))
    have ok' := same.ok ok
    have going' : f'.before.complete = false := twin.complete_eq.trans going
    have complete := (valid.complete_iff sh.compiled going).mpr calls
    have calls' := (valid'.complete_iff sh.compiled' going').mp (after.complete_eq.trans complete)
    exact ⟨_, .completed rfl valid' room ok' calls', ⟨.ok rfl, .cons same .nil, after.counted⟩⟩
  | @actionFails _ _ _ f _ before valid room error =>
    subst before
    obtain ⟨f', rfl, valid', same, after⟩ := twin.fires sh apart valid (calm _ (.head _))
    cases error' : f'.result with
    | ok u =>
      have results := same.result
      rw [error, error'] at results
      cases results
    | error e' =>
      exact ⟨_, .actionFails rfl valid' room error',
        ⟨.of_accounted (valid.accounted sh.compiled error) (valid'.accounted sh.compiled' error'),
          .cons same .nil, after⟩⟩
  | @next _ _ _ f _ _ _ before valid room ok silent _ ih =>
    subst before
    obtain ⟨f', rfl, valid', same, after⟩ := twin.fires sh apart valid (calm _ (.head _))
    have ok' := same.ok ok
    have going' : f'.before.complete = false := twin.complete_eq.trans going
    have goes : f.after.complete = false := by
      rw [← Bool.not_eq_true, valid.complete_iff sh.compiled going]
      exact silent
    have silent' : ¬ f'.CallsComplete set' := by
      rw [← valid'.complete_iff sh.compiled' going', Bool.not_eq_true]
      exact after.complete_eq.trans goes
    obtain ⟨⟨o', fs', t'⟩, run', abreast⟩ := ih after.counted goes
      fun t mem => calm t (.tail _ mem)
    rw [← same.name] at run'
    exact ⟨_, .next rfl valid' room ok' silent' run',
      ⟨abreast.outcome, .cons same abreast.firings, abreast.session⟩⟩

/-! ## The engine -/

omit [FactOps φ] in
theorem Twin.isActive {kb kb' : KnowledgeBase} (sh : Shuffled kb.ruleSet kb'.ruleSet)
    (twin : Twin kb.ruleSet kb'.ruleSet s s') (name : String) :
    ({ kb' with active := s'.active } : KnowledgeBase).isActive name =
      ({ kb with active := s.active } : KnowledgeBase).isActive name := by
  unfold KnowledgeBase.isActive
  cases pos : kb.ruleSet.position? name with
  | some i =>
    obtain ⟨i', pos'⟩ := sh.position? pos
    obtain ⟨r, at_i, named⟩ := (RuleSet.position?_eq_some_iff sh.compiled name i).mp pos
    obtain ⟨r', at_i', named'⟩ := (RuleSet.position?_eq_some_iff sh.compiled' name i').mp pos'
    have listed : (i, r) ∈ numbered kb.ruleSet := mem_numbered.mpr at_i
    have listed' : (i', r') ∈ numbered kb'.ruleSet := mem_numbered.mpr at_i'
    simp only [pos']
    exact Bool.eq_iff_iff.mpr (twin.on_iff sh listed listed' (named'.trans named.symm))
  | none => simp only [sh.position?_eq_none pos]

/-- No condition has an effect at any step of the run over `c`. -/
def Calm (set : RuleSet) (maxCycles : Nat) (c : Context φ ω) : Prop :=
  ∀ e, Forward set maxCycles 0 "" (start set c) e →
    ∀ s ∈ start set c :: e.firings.map Firing.after, Harmless set s.active (numbered set) s

/-- The reports agree on everything but what the rule set is called. -/
structure Report.Same (r r' : Report) : Prop where
  outcome : r'.outcome = r.outcome
  cycles : r'.cycles = r.cycles
  fired : r'.fired = r.fired
  retracted : r'.retracted = r.retracted

/-- Writing rules of different saliences in another order changes nothing about a run whose
conditions have no effects: it ends in the same way after the same firings, and leaves the same facts
and the same rules active. -/
theorem execute_permuted {kb kb' : KnowledgeBase} (h : kb.ruleSet.Compiled)
    (h' : kb'.ruleSet.Compiled)
    (perm : (kb.ruleSet.rules.map Rule.bare).Perm (kb'.ruleSet.rules.map Rule.bare))
    (apart : (kb.ruleSet.rules.map Rule.salience).Nodup) (maxCycles : Nat) {c : Context φ ω}
    (calm : Calm kb.ruleSet maxCycles c) :
    SameEnd Report.Same (execute maxCycles c kb).result (execute maxCycles c kb').result ∧
      (∃ e e', Forward kb.ruleSet maxCycles 0 "" (start kb.ruleSet c) e ∧
        execute maxCycles c kb = ⟨e.outcome.map (e.report kb.ruleSet), e.final⟩ ∧
        Forward kb'.ruleSet maxCycles 0 "" (start kb'.ruleSet c) e' ∧
        execute maxCycles c kb' = ⟨e'.outcome.map (e'.report kb'.ruleSet), e'.final⟩ ∧
        List.Forall₂ Firing.Same e.firings e'.firings) ∧
      (execute maxCycles c kb').session.context = (execute maxCycles c kb).session.context ∧
      (execute maxCycles c kb').session.retracted = (execute maxCycles c kb).session.retracted ∧
      ∀ name, ((execute maxCycles c kb').knowledgeBase kb').isActive name =
        ((execute maxCycles c kb).knowledgeBase kb).isActive name := by
  have sh : Shuffled kb.ruleSet kb'.ruleSet := ⟨h, h', perm⟩
  obtain ⟨e, run, executed⟩ := execute_eq h maxCycles c
  obtain ⟨e', run', executed'⟩ := execute_eq h' maxCycles c
  have begun : Twin kb.ruleSet kb'.ruleSet (start kb.ruleSet c) (start kb'.ruleSet c) :=
    ⟨rfl, rfl, rfl, tracks_start _ c, tracks_start _ c⟩
  obtain ⟨_, found, abreast⟩ := run.shuffled sh apart begun rfl (calm e run)
  obtain rfl := run'.unique found
  refine ⟨?_, ⟨e, e', run, executed, run', executed', abreast.firings⟩, ?_, ?_, fun name => ?_⟩
  · rw [executed, executed']
    refine abreast.outcome.map ?_
    rintro o _ rfl
    exact ⟨rfl, abreast.firings.length_eq.symm, names_eq_of_same abreast.firings,
      abreast.session.retracted_eq⟩
  · rw [executed, executed', e.final_context, e'.final_context]
    exact abreast.session.context_eq
  · rw [executed, executed', e.final_retracted, e'.final_retracted]
    exact abreast.session.retracted_eq
  · unfold Run.knowledgeBase
    rw [executed, executed', e.final_active, e'.final_active]
    exact abreast.session.isActive sh name

/-- Counts to two. -/
def upward : String := "rule A salience 1 \x7b when D.n < 2 then D.n = D.n + 1; \x7d"

/-- Ends it. -/
def onward : String := "rule B \x7b when D.n == 2 then Complete(); \x7d"

/-- The rules of two texts. -/
def together (s t : String) : KnowledgeBase :=
  .ofRuleSet ((RuleSet.compile {} "pair" "1" (s ++ "\n" ++ t).toUTF8).toOption.getD
    ⟨"", "", "", []⟩)

theorem upward_compiled : (together upward onward).ruleSet.Compiled :=
  RuleSet.compiled_of_isSome (by decide +kernel)

theorem onward_compiled : (together onward upward).ruleSet.Compiled :=
  RuleSet.compiled_of_isSome (by decide +kernel)

theorem upward_perm : ((together upward onward).ruleSet.rules.map Rule.bare).Perm
    ((together onward upward).ruleSet.rules.map Rule.bare) := by
  have read : (RuleSet.parse "" {} upward).toOption.isSome := by decide +kernel
  have read' : (RuleSet.parse "" {} onward).toOption.isSome := by decide +kernel
  have compiled :
      (RuleSet.compile {} "pair" "1" (upward ++ "\n" ++ onward).toUTF8).toOption.isSome := by
    decide +kernel
  have compiled' :
      (RuleSet.compile {} "pair" "1" (onward ++ "\n" ++ upward).toUTF8).toOption.isSome := by
    decide +kernel
  obtain ⟨rules, read⟩ := Option.isSome_iff_exists.mp read
  obtain ⟨rules', read'⟩ := Option.isSome_iff_exists.mp read'
  obtain ⟨set, is⟩ := Option.isSome_iff_exists.mp compiled
  obtain ⟨set', is'⟩ := Option.isSome_iff_exists.mp compiled'
  unfold together
  rw [is, is']
  exact RuleSet.compile_swap (ok_iff_toOption.mpr read) (ok_iff_toOption.mpr read')
    (ok_iff_toOption.mpr is) (ok_iff_toOption.mpr is')

theorem counter_calm (maxCycles : Nat) : Calm (together upward onward).ruleSet maxCycles counter :=
  fun _ run t mem => harmless_of_tidy (run.tidy counter_tidy t mem) _ _

theorem execute_permuted_swapped :
    SameEnd Report.Same (execute 5 counter (together upward onward)).result
        (execute 5 counter (together onward upward)).result ∧
      (execute 5 counter (together onward upward)).session.context =
        (execute 5 counter (together upward onward)).session.context := by
  have same := execute_permuted upward_compiled onward_compiled upward_perm (by decide +kernel) 5
    (counter_calm 5)
  exact ⟨same.1, same.2.2.1⟩

end Rulebook.Engine
