import Mathlib
import Rulebook.Proofs.Result
import Rulebook.RuleSet

/-!
# What compiling a rule set establishes

The rules of a compiled set have different names, so that a name stands for one position. No
condition calls `Retract` or `Complete`; where an action does, the number of arguments is right, and
a literal argument names a rule.
-/

namespace Rulebook

/-- Every expression in the condition and the actions of a rule. -/
def Rule.nodes (r : Rule) : List Expr :=
  r.condition.nodes ++ (r.actions.flatMap Statement.exprs).flatMap Expr.nodes

/-- Every expression in the rules of a set. -/
def RuleSet.nodes (s : RuleSet) : List Expr := s.rules.flatMap Rule.nodes

theorem Rule.nodes_condition (r : Rule) : r.condition.nodes ⊆ r.nodes :=
  List.subset_append_left _ _

theorem Rule.nodes_action {r : Rule} {a : Statement} (ha : a ∈ r.actions) {e : Expr}
    (he : e ∈ a.exprs) : e.nodes ⊆ r.nodes := by
  intro d mem
  have listed : e ∈ r.actions.flatMap Statement.exprs := List.mem_flatMap.mpr ⟨a, ha, he⟩
  exact List.mem_append_right _ (List.mem_flatMap.mpr ⟨e, listed, mem⟩)

theorem RuleSet.nodes_rule {s : RuleSet} {r : Rule} (mem : r ∈ s.rules) : r.nodes ⊆ s.nodes :=
  fun _ inside => List.mem_flatMap.mpr ⟨r, mem, inside⟩

namespace RuleSet

/-- The set is what compiling some text gives. -/
def Compiled (set : RuleSet) : Prop :=
  ∃ limits bytes, compile limits set.name set.version bytes = .ok set

section

variable {limits : Limits} {name version : String} {bytes : ByteArray} {set : RuleSet}

/-- Compiling decodes a text, reads its rules and checks them. -/
theorem steps_of_compile (h : compile limits name version bytes = .ok set) :
    set.name = name ∧ set.version = version ∧
      decode (sourceName name version) bytes = .ok set.text ∧
      parse (sourceName name version) limits set.text = .ok set.rules ∧
      check (sourceName name version) set.rules = .ok () := by
  unfold compile at h
  obtain ⟨text, decoded, h⟩ := bind_eq_ok_iff.mp h
  obtain ⟨rules, read, h⟩ := bind_eq_ok_iff.mp h
  obtain ⟨⟨⟩, checked, h⟩ := bind_eq_ok_iff.mp h
  rw [← Except.ok.inj h]
  exact ⟨rfl, rfl, decoded, read, checked⟩

theorem compiled_of_compile (h : compile limits name version bytes = .ok set) : set.Compiled := by
  obtain ⟨rfl, rfl, -⟩ := steps_of_compile h
  exact ⟨limits, bytes, h⟩

theorem compiled_of_isSome (h : (compile limits name version bytes).toOption.isSome) :
    ((compile limits name version bytes).toOption.getD set).Compiled := by
  cases eq : compile limits name version bytes with
  | error e => rw [eq] at h; cases h
  | ok compiled => exact compiled_of_compile eq

end

/-! ## No offences -/

theorem check_eq_ok_iff (source : String) (rules : List Rule) :
    check source rules = .ok () ↔ offences rules = [] := by
  have problems : Error.ofProblems ((offences rules).map (Offence.problem source)) = none ↔
      offences rules = [] := by
    rw [Error.ofProblems_eq_none_iff, List.map_eq_nil_iff]
  rw [← problems]
  unfold check
  split
  · next e h => simp [h]
  · next h => simp [h]

theorem offences_eq_nil {set : RuleSet} (h : set.Compiled) : offences set.rules = [] := by
  obtain ⟨limits, bytes, h⟩ := h
  obtain ⟨-, -, -, -, checked⟩ := steps_of_compile h
  exact (check_eq_ok_iff _ _).mp checked

/-! ## Names -/

theorem lookup_eq_none_iff (seen : List (String × Nat)) (name : String) :
    seen.lookup name = none ↔ name ∉ seen.map Prod.fst := by
  induction seen with
  | nil => simp
  | cons e seen ih =>
    rw [List.lookup_cons]
    by_cases h : name = e.1
    · simp [h]
    · have : (name == e.1) = false := by simpa using h
      simp [this, ih, h]

/-- No name is reported as repeated if none is. -/
theorem repeated_eq_nil_iff (seen : List (String × Nat)) (rules : List Rule) :
    repeated seen rules = [] ↔
      (rules.map Rule.name).Nodup ∧ ∀ r ∈ rules, r.name ∉ seen.map Prod.fst := by
  induction rules generalizing seen with
  | nil => simp [repeated]
  | cons r rules ih =>
    unfold repeated
    split
    · next line h =>
      have mem : r.name ∈ seen.map Prod.fst := by
        by_contra no
        rw [(lookup_eq_none_iff seen r.name).mpr no] at h
        cases h
      constructor
      · intro no; cases no
      · intro ⟨_, all⟩
        exact absurd mem (all r (.head _))
    · next h =>
      have new := (lookup_eq_none_iff seen r.name).mp h
      simp only [ih, List.map_cons, List.nodup_cons]
      constructor
      · rintro ⟨nodup, all⟩
        have first : r.name ∉ rules.map Rule.name := by
          intro mem
          obtain ⟨q, mem, eq⟩ := List.mem_map.mp mem
          exact all q mem (by rw [eq]; exact .head _)
        refine ⟨⟨first, nodup⟩, fun q mem => ?_⟩
        rcases List.mem_cons.mp mem with rfl | mem
        · exact new
        · exact fun old => all q mem (.tail _ old)
      · rintro ⟨⟨first, nodup⟩, all⟩
        refine ⟨nodup, fun q mem old => ?_⟩
        rcases List.mem_cons.mp old with eq | old
        · exact first (List.mem_map.mpr ⟨q, mem, eq⟩)
        · exact all q (.tail _ mem) old

theorem names_nodup {set : RuleSet} (h : set.Compiled) : (set.rules.map Rule.name).Nodup := by
  have none := offences_eq_nil h
  unfold offences at none
  exact ((repeated_eq_nil_iff [] _).mp (List.append_eq_nil_iff.mp none).1).1

/-- The position of a name is that of the rule so named. -/
theorem position?_eq_some_iff {set : RuleSet} (h : set.Compiled) (name : String) (i : Nat) :
    set.position? name = some i ↔ ∃ r, set.rules[i]? = some r ∧ r.name = name := by
  unfold position?
  rw [List.findIdx?_eq_some_iff_getElem]
  constructor
  · rintro ⟨lt, eq, _⟩
    exact ⟨set.rules[i], List.getElem?_eq_getElem lt, by simpa using eq⟩
  · rintro ⟨r, at_i, eq⟩
    obtain ⟨lt, rfl⟩ := List.getElem?_eq_some_iff.mp at_i
    refine ⟨lt, by simpa using eq, fun j before => ?_⟩
    have nodup := names_nodup h
    have different := (List.nodup_iff_getElem?_ne_getElem?.mp nodup) j i before (by simpa using lt)
    have jlt : j < set.rules.length := by omega
    rw [List.getElem?_map, List.getElem?_map, List.getElem?_eq_getElem lt,
      List.getElem?_eq_getElem jlt] at different
    simpa [eq] using different

/-! ## Conditions -/

/-- Conditions change neither which rules are active nor whether the session is complete. -/
theorem condition_calls {set : RuleSet} (h : set.Compiled) {r : Rule} (mem : r ∈ set.rules)
    {name : String} {args : List Expr} {span : Span} (call : .call name args span ∈ r.condition.nodes) :
    name ≠ "Retract" ∧ name ≠ "Complete" := by
  have none := (List.append_eq_nil_iff.mp (offences_eq_nil h)).2
  have none := List.flatMap_eq_nil_iff.mp none r mem
  have none := (List.append_eq_nil_iff.mp none).1
  have none := List.filterMap_eq_nil_iff.mp none _ call
  constructor
  · rintro rfl
    simp [conditionFault?, Intrinsic.ofName?] at none
  · rintro rfl
    simp [conditionFault?, Intrinsic.ofName?] at none

/-! ## Calls -/

variable {set : RuleSet} {r : Rule} {args : List Expr} {span : Span}

/-- Nothing is wrong with an expression that is part of an action. -/
theorem actionFault_eq_none (h : set.Compiled) (mem : r ∈ set.rules) {e : Expr}
    (part : e ∈ (r.actions.flatMap Statement.exprs).flatMap Expr.nodes) :
    actionFault? (set.rules.map Rule.name) e = none := by
  obtain ⟨whole, listed, inside⟩ := List.mem_flatMap.mp part
  have none := (List.append_eq_nil_iff.mp (offences_eq_nil h)).2
  have none := List.flatMap_eq_nil_iff.mp none r mem
  have none := (List.append_eq_nil_iff.mp none).2
  have none := List.filterMap_eq_nil_iff.mp (List.flatMap_eq_nil_iff.mp none whole listed) _ inside
  exact Option.map_eq_none_iff.mp none

/-- A call of a rule that its condition cannot make is in an action. -/
theorem action_of_call (h : set.Compiled) (mem : r ∈ set.rules) {name : String}
    (call : .call name args span ∈ r.nodes) (barred : name = "Retract" ∨ name = "Complete") :
    .call name args span ∈ (r.actions.flatMap Statement.exprs).flatMap Expr.nodes := by
  rcases List.mem_append.mp call with inside | inside
  · obtain ⟨retract, complete⟩ := condition_calls h mem inside
    exact absurd barred (by simp [retract, complete])
  · exact inside

/-- A literal argument of `Retract` names a rule. -/
theorem retract_args (h : set.Compiled) (mem : r ∈ set.rules)
    (call : .call "Retract" args span ∈ r.nodes) :
    ∃ arg, args = [arg] ∧ ∀ l at_l, arg = .literal l at_l →
      ∃ target i, l = .text target ∧ set.position? target = some i := by
  have none := actionFault_eq_none h mem (action_of_call h mem call (.inl rfl))
  match args with
  | [] | _ :: _ :: _ => simp [actionFault?, Intrinsic.ofName?] at none
  | [arg] =>
    refine ⟨arg, rfl, fun l at_l is => ?_⟩
    subst is
    cases l
    case text target =>
      have listed : target ∈ set.rules.map Rule.name := by
        by_contra new
        simp [actionFault?, Intrinsic.ofName?, targetFault?, new] at none
      obtain ⟨q, inside, named⟩ := List.mem_map.mp listed
      obtain ⟨i, at_i⟩ := List.mem_iff_getElem?.mp inside
      exact ⟨target, i, rfl, (position?_eq_some_iff h target i).mpr ⟨q, at_i, named⟩⟩
    all_goals simp [actionFault?, Intrinsic.ofName?, targetFault?] at none

theorem complete_args (h : set.Compiled) (mem : r ∈ set.rules)
    (call : .call "Complete" args span ∈ r.nodes) : args = [] := by
  have none := actionFault_eq_none h mem (action_of_call h mem call (.inr rfl))
  cases args with
  | nil => rfl
  | cons => simp [actionFault?, Intrinsic.ofName?] at none

end RuleSet

end Rulebook
