import Mathlib
import Rulebook.Proofs.Engine.Activation

/-!
# Conditions without effects

Where conditions change neither facts nor host functions, they can be evaluated one by one in the
session where the step starts: which rules match then depends on no order.
-/

namespace Rulebook.Engine

variable {φ ω : Type} [FactOps φ] {set : RuleSet} {active : Array Bool} {rules : List Numbered}
  {s t : Session φ ω}

/-- The condition of a rule is true in a session. -/
def Fires (set : RuleSet) (s : Session φ ω) (r : Rule) : Prop := (tryRule set r s).1 = .ok true

theorem Fires.congr {r : Rule} (same : s.context = t.context) : Fires set s r ↔ Fires set t r := by
  unfold Fires
  rw [(tryRule_congr r same).1]

/-! ## One step -/

/-- The rules found are those that are active and whose conditions are true at the start. -/
theorem Matches.mem_iff {found : List Numbered} (m : Matches set active rules s (.ok found) t)
    (harmless : Harmless set active rules s) (n : Numbered) :
    n ∈ found ↔ n ∈ rules ∧ active.getD n.1 false = true ∧ Fires set s n.2 := by
  generalize eq : (Except.ok found : Except Error (List Numbered)) = result at m
  induction m generalizing found with
  | nil => cases eq; simp
  | @inactive i r rest s result t off _ ih =>
    rw [ih (harmless.tail rfl) eq, List.mem_cons]
    constructor
    · rintro ⟨mem, on, holds⟩
      exact ⟨.inr mem, on, holds⟩
    · rintro ⟨rfl | mem, on, holds⟩
      · rw [off] at on; cases on
      · exact ⟨mem, on, holds⟩
  | @holds i r rest s u result t on tried _ ih =>
    cases result with
    | error e => cases eq
    | ok others =>
      cases eq
      have first := harmless.head on tried
      have here : Fires set s r := congrArg Prod.fst tried
      rw [List.mem_cons, ih (harmless.tail first) rfl, List.mem_cons]
      constructor
      · rintro (rfl | ⟨mem, on, holds⟩)
        · exact ⟨.inl rfl, on, here⟩
        · exact ⟨.inr mem, on, (Fires.congr first).mp holds⟩
      · rintro ⟨rfl | mem, on, holds⟩
        · exact .inl rfl
        · exact .inr ⟨mem, on, (Fires.congr first).mpr holds⟩
  | @lacks i r rest s u result t on tried _ ih =>
    have first := harmless.head on tried
    rw [ih (harmless.tail first) eq, List.mem_cons]
    constructor
    · rintro ⟨mem, on, holds⟩
      exact ⟨.inr mem, on, (Fires.congr first).mp holds⟩
    · rintro ⟨rfl | mem, on, holds⟩
      · unfold Fires at holds
        rw [tried] at holds
        cases holds
      · exact ⟨mem, on, (Fires.congr first).mpr holds⟩
  | fails => cases eq

/-- The rules that match are found exactly if every condition has a truth value at the start. -/
theorem Matches.isOk_iff {result : Except Error (List Numbered)}
    (m : Matches set active rules s result t) (harmless : Harmless set active rules s) :
    (∃ found, result = .ok found) ↔
      ∀ n ∈ rules, active.getD n.1 false = true → ∃ b, (tryRule set n.2 s).1 = .ok b := by
  induction m with
  | nil => simp
  | @inactive i r rest s _ _ off _ ih =>
    rw [ih (harmless.tail rfl), List.forall_mem_cons]
    simp [off]
  | @holds i r rest s u result t on tried _ ih =>
    have first := harmless.head on tried
    have mapped : (∃ found, result.map (fun found => (i, r) :: found) = .ok found) ↔
        ∃ found, result = .ok found := by
      cases result <;> simp [Except.map]
    rw [mapped, ih (harmless.tail first), List.forall_mem_cons]
    simp [on, tried, (tryRule_congr _ first).1]
  | lacks on tried _ ih =>
    have first := harmless.head on tried
    rw [ih (harmless.tail first), List.forall_mem_cons]
    simp [on, tried, (tryRule_congr _ first).1]
  | @fails i r _ _ _ _ on tried =>
    constructor
    · rintro ⟨_, ⟨⟩⟩
    · intro all
      obtain ⟨b, holds⟩ := all (i, r) (.head _) on
      rw [tried] at holds
      cases holds

/-- A failure is that of a condition which fails at the start. -/
theorem Matches.exists_fails {e : Error} (m : Matches set active rules s (.error e) t)
    (harmless : Harmless set active rules s) :
    ∃ n ∈ rules, active.getD n.1 false = true ∧ (tryRule set n.2 s).1 = .error e := by
  generalize eq : (Except.error e : Except Error (List Numbered)) = result at m
  induction m with
  | nil => cases eq
  | @fails i r _ _ _ _ on tried =>
    cases eq
    exact ⟨(i, r), .head _, on, congrArg Prod.fst tried⟩
  | inactive _ _ ih =>
    obtain ⟨n, mem, found⟩ := ih (harmless.tail rfl) eq
    exact ⟨n, .tail _ mem, found⟩
  | @holds _ _ _ _ _ result _ on tried _ ih =>
    have first := harmless.head on tried
    cases result with
    | ok found => cases eq
    | error =>
      obtain ⟨n, mem, active, fails⟩ := ih (harmless.tail first) eq
      exact ⟨n, .tail _ mem, active, (tryRule_congr n.2 first).1 ▸ fails⟩
  | lacks on tried _ ih =>
    have first := harmless.head on tried
    obtain ⟨n, mem, active, fails⟩ := ih (harmless.tail first) eq
    exact ⟨n, .tail _ mem, active, (tryRule_congr n.2 first).1 ▸ fails⟩

/-! ## Flags and names -/

/-- What is different for every rule tells the places in the set apart. -/
theorem eq_of_key_eq {κ : Type} {key : Rule → κ} (nodup : (set.rules.map key).Nodup)
    {n m : Numbered} (hn : n ∈ numbered set) (hm : m ∈ numbered set)
    (same : key n.2 = key m.2) : n = m := by
  have here := mem_numbered.mp hn
  have there := mem_numbered.mp hm
  obtain ⟨lt, -⟩ := List.getElem?_eq_some_iff.mp here
  have places : n.1 = m.1 := by
    refine (List.getElem?_inj (by rwa [List.length_map]) nodup).mp ?_
    rw [List.getElem?_map, List.getElem?_map, here, there]
    exact congrArg some same
  rw [places, there] at here
  exact Prod.ext places (Option.some.inj here).symm

omit [FactOps φ] in
/-- The flag of a rule says whether its name was retracted. -/
theorem Tracks.off_iff (h : set.Compiled) (hs : Tracks set s) {n : Numbered}
    (mem : n ∈ numbered set) :
    s.active.getD n.1 false = false ↔ n.2.name ∈ s.retracted := by
  rw [hs.mem_iff]
  constructor
  · intro off
    exact ⟨n, mem, rfl, off⟩
  · rintro ⟨m, listed, same, off⟩
    rwa [eq_of_key_eq (RuleSet.names_nodup h) listed mem same] at off

omit [FactOps φ] in
theorem Tracks.on_iff (h : set.Compiled) (hs : Tracks set s) {n : Numbered}
    (mem : n ∈ numbered set) :
    s.active.getD n.1 false = true ↔ n.2.name ∉ s.retracted := by
  rw [← hs.off_iff h mem, Bool.not_eq_false]

end Rulebook.Engine
