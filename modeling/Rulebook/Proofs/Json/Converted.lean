import Mathlib
import Rulebook.Json
import Rulebook.Proofs.Number.Whole

/-!
# Values as JSON documents, and back

Neither direction is exact. A float that is not finite has no JSON number, and becomes null; an
integer beyond the signed range has no value of its own, and becomes a float. Everything else
survives, in both directions and at any depth.
-/

namespace Rulebook

/-! ## From a value and back -/

namespace Value

mutual

/-- Nil in place of every float that is not finite, at any depth. -/
def onlyFinite : Value → Value
  | nil => nil
  | bool b => bool b
  | int n => int n
  | float x => if x.isFinite then float x else nil
  | text s => text s
  | list items => list (onlyFiniteItems items)
  | map entries => map (onlyFiniteEntries entries)

def onlyFiniteItems : List Value → List Value
  | [] => []
  | v :: vs => v.onlyFinite :: onlyFiniteItems vs

def onlyFiniteEntries : List (String × Value) → List (String × Value)
  | [] => []
  | (k, v) :: es => (k, v.onlyFinite) :: onlyFiniteEntries es

end

theorem numberValue_toInt (n : Int64) (bounds) :
    Json.numberValue (.int n.toInt bounds) = int n := by
  rw [Json.numberValue, Number.toInt64?_toInt]

theorem toValue_ofFloat (x : Float) : (Json.ofFloat x).toValue = (float x).onlyFinite := by
  rw [onlyFinite]
  unfold Json.ofFloat
  by_cases finite : x.isFinite = true
  · rw [dif_pos finite, if_pos finite]
    rfl
  · rw [dif_neg finite, if_neg finite]
    rfl

mutual

theorem toValue_toJson : ∀ v : Value, v.toJson.toValue = v.onlyFinite
  | nil | bool _ | text _ => rfl
  | int n => numberValue_toInt n ⟨n.le_toInt, Int.lt_trans n.toInt_lt (by decide)⟩
  | float x => toValue_ofFloat x
  | list items => by rw [toJson, Json.toValue, onlyFinite, toValues_toJsons items]
  | map entries => by rw [toJson, Json.toValue, onlyFinite, toEntries_toJsonEntries entries]

theorem toValues_toJsons : ∀ items : List Value,
    Json.toValues (toJsons items) = onlyFiniteItems items
  | [] => rfl
  | v :: vs => by
    rw [toJsons, Json.toValues, onlyFiniteItems, toValue_toJson v, toValues_toJsons vs]

theorem toEntries_toJsonEntries : ∀ entries : List (String × Value),
    Json.toEntries (toJsonEntries entries) = onlyFiniteEntries entries
  | [] => rfl
  | (k, v) :: es => by
    rw [toJsonEntries, Json.toEntries, onlyFiniteEntries, toValue_toJson v,
      toEntries_toJsonEntries es]

end

mutual

theorem onlyFinite_twice : ∀ v : Value, v.onlyFinite.onlyFinite = v.onlyFinite
  | nil | bool _ | int _ | text _ => rfl
  | float x => by
    by_cases finite : x.isFinite = true
    · rw [onlyFinite, if_pos finite, onlyFinite, if_pos finite]
    · rw [onlyFinite, if_neg finite, onlyFinite]
  | list items => by rw [onlyFinite, onlyFinite, onlyFiniteItems_twice items]
  | map entries => by rw [onlyFinite, onlyFinite, onlyFiniteEntries_twice entries]

theorem onlyFiniteItems_twice : ∀ items : List Value,
    onlyFiniteItems (onlyFiniteItems items) = onlyFiniteItems items
  | [] => rfl
  | v :: vs => by
    rw [onlyFiniteItems, onlyFiniteItems, onlyFinite_twice v, onlyFiniteItems_twice vs]

theorem onlyFiniteEntries_twice : ∀ entries : List (String × Value),
    onlyFiniteEntries (onlyFiniteEntries entries) = onlyFiniteEntries entries
  | [] => rfl
  | (k, v) :: es => by
    rw [onlyFiniteEntries, onlyFiniteEntries, onlyFinite_twice v, onlyFiniteEntries_twice es]

end

/-- Converting a second time changes nothing. -/
theorem toValue_toJson_twice (v : Value) :
    v.toJson.toValue.toJson.toValue = v.toJson.toValue := by
  rw [toValue_toJson, toValue_toJson, onlyFinite_twice]

end Value

/-! ## From a document and back -/

namespace JsonNumber

/-- An integer beyond the signed 64-bit range. -/
def IsLarge : JsonNumber → Prop
  | int n _ => 0x8000000000000000 ≤ n
  | float _ _ => False

/-- The nearest float in place of a large integer. -/
def floated : JsonNumber → JsonNumber
  | int n bounds =>
    if large : 0x8000000000000000 ≤ n then
      float (Float.ofInt n) (Number.isFinite_ofInt large bounds.2)
    else int n bounds
  | float x finite => float x finite

theorem floated_eq_self_iff (n : JsonNumber) : n.floated = n ↔ ¬ n.IsLarge := by
  cases n with
  | int n bounds =>
    rw [floated, IsLarge]
    split
    · next large => simp [large]
    · next small => simp [small]
  | float => simp [floated, IsLarge]

end JsonNumber

namespace Json

theorem ofFloat_of_isFinite {x : Float} (finite : x.isFinite = true) :
    ofFloat x = number (.float x finite) := dif_pos finite

theorem toJson_numberValue (n : JsonNumber) : (numberValue n).toJson = number n.floated := by
  cases n with
  | int n bounds =>
    by_cases large : 0x8000000000000000 ≤ n
    · have beyond : Number.toInt64? n = none := if_neg (by omega)
      rw [numberValue, beyond, JsonNumber.floated, dif_pos large]
      exact ofFloat_of_isFinite _
    · have within : Number.toInt64? n = some (Int64.ofInt n) := if_pos (by omega)
      have same : (Int64.ofInt n).toInt = n := Number.toInt_of_toInt64? within
      rw [numberValue, within, JsonNumber.floated, dif_neg large]
      simp only [Value.toJson, ofInt64, same]
  | float x finite => exact ofFloat_of_isFinite finite

mutual

/-- The nearest float in place of every large integer, at any depth. -/
def floated : Json → Json
  | null => null
  | bool b => bool b
  | number n => number n.floated
  | string s => string s
  | array items => array (floatedItems items)
  | object entries => object (floatedEntries entries)

def floatedItems : List Json → List Json
  | [] => []
  | j :: js => j.floated :: floatedItems js

def floatedEntries : List (String × Json) → List (String × Json)
  | [] => []
  | (k, j) :: es => (k, j.floated) :: floatedEntries es

end

mutual

theorem toJson_toValue : ∀ j : Json, j.toValue.toJson = j.floated
  | null | bool _ | string _ => rfl
  | number n => toJson_numberValue n
  | array items => by rw [toValue, Value.toJson, floated, toJsons_toValues items]
  | object entries => by rw [toValue, Value.toJson, floated, toJsonEntries_toEntries entries]

theorem toJsons_toValues : ∀ items : List Json,
    Value.toJsons (toValues items) = floatedItems items
  | [] => rfl
  | j :: js => by rw [toValues, Value.toJsons, floatedItems, toJson_toValue j, toJsons_toValues js]

theorem toJsonEntries_toEntries : ∀ entries : List (String × Json),
    Value.toJsonEntries (toEntries entries) = floatedEntries entries
  | [] => rfl
  | (k, j) :: es => by
    rw [toEntries, Value.toJsonEntries, floatedEntries, toJson_toValue j,
      toJsonEntries_toEntries es]

end

/-- The number stands in the document, at any depth. -/
inductive HasNumber (n : JsonNumber) : Json → Prop
  | here : HasNumber n (number n)
  | item {items j} : j ∈ items → HasNumber n j → HasNumber n (array items)
  | entry {entries e} : e ∈ entries → HasNumber n e.2 → HasNumber n (object entries)

/-- No integer in the document is beyond the signed range. -/
def Small (j : Json) : Prop := ∀ n, HasNumber n j → ¬ n.IsLarge

theorem small_number_iff (n : JsonNumber) : Small (number n) ↔ ¬ n.IsLarge := by
  constructor
  · intro small
    exact small n .here
  · intro small m has
    cases has
    exact small

theorem small_array_iff (items : List Json) : Small (array items) ↔ ∀ j ∈ items, Small j := by
  constructor
  · intro small j mem n has
    exact small n (.item mem has)
  · intro all n has
    cases has with
    | item mem has => exact all _ mem n has

theorem small_object_iff (entries : List (String × Json)) :
    Small (object entries) ↔ ∀ e ∈ entries, Small e.2 := by
  constructor
  · intro small e mem n has
    exact small n (.entry mem has)
  · intro all n has
    cases has with
    | entry mem has => exact all _ mem n has

mutual

theorem floated_eq_self_iff : ∀ j : Json, j.floated = j ↔ j.Small
  | null | bool _ | string _ => by
    refine ⟨fun _ n has => ?_, fun _ => rfl⟩
    cases has
  | number n => by rw [floated, number.injEq, JsonNumber.floated_eq_self_iff, small_number_iff]
  | array items => by
    rw [floated, array.injEq, floatedItems_eq_self_iff items, small_array_iff]
  | object entries => by
    rw [floated, object.injEq, floatedEntries_eq_self_iff entries, small_object_iff]

theorem floatedItems_eq_self_iff : ∀ items : List Json,
    floatedItems items = items ↔ ∀ j ∈ items, j.Small
  | [] => by simp [floatedItems]
  | j :: js => by
    rw [floatedItems, List.cons.injEq, floated_eq_self_iff j, floatedItems_eq_self_iff js,
      List.forall_mem_cons]

theorem floatedEntries_eq_self_iff : ∀ entries : List (String × Json),
    floatedEntries entries = entries ↔ ∀ e ∈ entries, e.2.Small
  | [] => by simp [floatedEntries]
  | (k, j) :: es => by
    rw [floatedEntries, List.cons.injEq, Prod.mk.injEq, floated_eq_self_iff j,
      floatedEntries_eq_self_iff es, List.forall_mem_cons]
    simp

end

end Json

/-- A value comes back from JSON with nil for its floats that are not finite, and a second
conversion finds none; a document comes back with floats for its integers beyond the signed range,
so it comes back as it was just where it has none. -/
theorem conversion_there_and_back :
    (∀ v : Value, v.toJson.toValue = v.onlyFinite) ∧
      (∀ v : Value, v.toJson.toValue.toJson.toValue = v.toJson.toValue) ∧
      (∀ j : Json, j.toValue.toJson = j.floated) ∧
      ∀ j : Json, j.toValue.toJson = j ↔ j.Small := by
  refine ⟨Value.toValue_toJson, Value.toValue_toJson_twice, Json.toJson_toValue, fun j => ?_⟩
  rw [Json.toJson_toValue]
  exact j.floated_eq_self_iff

end Rulebook
