import Mathlib
import Rulebook.Proofs.Fact.Edit

/-!
# Sorted maps all the way down

A map has its entries in the order of their keys, also where it is inside of another value. Reading
a fact with this property gives values that have it, and assigning such values keeps it; so the
facts that accesses do not surprise remain such facts for a whole run.
-/

namespace Rulebook

namespace Entries

variable {α β : Type} {es : Entries α}

theorem mem_insert {key : String} {value : α} {e : String × α} (mem : e ∈ insert es key value) :
    e = (key, value) ∨ e ∈ es := by
  induction es with
  | nil => exact .inl (List.mem_singleton.mp mem)
  | cons d es ih =>
    obtain ⟨k, v⟩ := d
    unfold insert at mem
    split at mem
    · next same =>
      rw [same]
      exact (List.mem_cons.mp mem).imp_right (.tail _)
    split at mem
    · exact List.mem_cons.mp mem
    · rcases List.mem_cons.mp mem with rfl | mem
      · exact .inr (.head _)
      · exact (ih mem).imp_right (.tail _)

/-- Each value is of a kind after an insertion if the new one is. -/
theorem forall_insert {P : α → Prop} (all : ∀ e ∈ es, P e.2) {value : α} (new : P value)
    (key : String) : ∀ e ∈ insert es key value, P e.2 := by
  intro e mem
  rcases mem_insert mem with rfl | mem
  · exact new
  · exact all e mem

theorem sorted_map (sorted : Sorted es) (f : α → β) : Sorted (es.map fun e => (e.1, f e.2)) := by
  unfold Sorted keys at *
  rwa [List.map_map]

end Entries

/-! ## Values -/

/-- The entries of all maps in the value are sorted. -/
inductive Value.Sorted : Value → Prop
  | nil : Sorted nil
  | bool {b} : Sorted (bool b)
  | int {n} : Sorted (int n)
  | float {x} : Sorted (float x)
  | text {s} : Sorted (text s)
  | list {items} : (∀ v ∈ items, Sorted v) → Sorted (list items)
  | map {entries} : Entries.Sorted entries → (∀ e ∈ entries, Sorted e.2) → Sorted (map entries)

namespace Json

variable {j new : Json}

theorem toEntries_eq (entries : List (String × Json)) :
    toEntries entries = entries.map fun e => (e.1, e.2.toValue) := by
  induction entries with
  | nil => rfl
  | cons e es ih => rw [toEntries, ih, List.map_cons]

theorem sorted_numberValue (n : JsonNumber) : (numberValue n).Sorted := by
  unfold numberValue
  split
  · split
    · exact .int
    · exact .float
  · exact .float

theorem Sorted.toValue (sorted : j.Sorted) : j.toValue.Sorted := by
  induction sorted with
  | null => exact .nil
  | bool => exact .bool
  | number => exact sorted_numberValue _
  | string => exact .text
  | array _ ih =>
    rw [Json.toValue, Chain.toValues_eq]
    exact .list (List.forall_mem_map.mpr ih)
  | object sorted _ ih =>
    rw [Json.toValue, toEntries_eq]
    exact .map (Entries.sorted_map sorted _) (List.forall_mem_map.mpr ih)

theorem Sorted.put (sorted : j.Sorted) (fits : new.Sorted) (t : Target) :
    (Json.put new j t).Sorted := by
  cases sorted with
  | object sorted all =>
    cases t with
    | key k => exact .object (Entries.sorted_insert sorted k new) (Entries.forall_insert all fits k)
    | position => exact .object sorted all
  | array all =>
    cases t with
    | key => exact .array all
    | position n =>
      refine .array fun i mem => ?_
      rcases List.mem_or_eq_of_mem_set mem with mem | rfl
      · exact all i mem
      · exact fits
  | null => cases t <;> exact .null
  | bool => cases t <;> exact .bool
  | number => cases t <;> exact .number
  | string => cases t <;> exact .string

theorem Sorted.putElement (sorted : j.Sorted) (fits : new.Sorted) (key : Value) :
    (j.putElement key new).Sorted := by
  unfold Json.putElement
  split
  · exact sorted.put fits (.key _)
  · rw [← put_position]
    exact sorted.put fits (.position _)
  · exact sorted

end Json

namespace Value

variable {v w : Value}

theorem toJsons_eq (items : List Value) : toJsons items = items.map toJson := by
  induction items with
  | nil => rfl
  | cons v vs ih => rw [toJsons, ih, List.map_cons]

theorem toJsonEntries_eq (entries : List (String × Value)) :
    toJsonEntries entries = entries.map fun e => (e.1, e.2.toJson) := by
  induction entries with
  | nil => rfl
  | cons e es ih => rw [toJsonEntries, ih, List.map_cons]

theorem Sorted.toJson (sorted : v.Sorted) : v.toJson.Sorted := by
  induction sorted with
  | nil => exact .null
  | bool => exact .bool
  | int => exact .number
  | float =>
    unfold Value.toJson Json.ofFloat
    split
    · exact .number
    · exact .null
  | text => exact .string
  | list _ ih =>
    rw [Value.toJson, toJsons_eq]
    exact .array (List.forall_mem_map.mpr ih)
  | map sorted _ ih =>
    rw [Value.toJson, toJsonEntries_eq]
    exact .object (Entries.sorted_map sorted _) (List.forall_mem_map.mpr ih)

theorem sorted_ofLiteral (l : Literal) : (ofLiteral l).Sorted := by
  cases l with
  | int => exact .int
  | float => exact .float
  | text => exact .text
  | bool => exact .bool
  | nil => exact .nil

theorem sorted_getD (items : List Value) (all : ∀ v ∈ items, v.Sorted) (i : Nat) :
    (items[i]?.getD .nil).Sorted := by
  cases at_i : items[i]? with
  | none => exact .nil
  | some v => exact all v (List.mem_of_getElem? at_i)

theorem Sorted.follow (sorted : v.Sorted) {l : Link} (h : Chain.follow v l = .ok w) :
    w.Sorted := by
  cases sorted with
  | list all =>
    cases l with
    | index key =>
      obtain ⟨i, -, got⟩ := bind_eq_ok_iff.mp h
      cases got
      exact sorted_getD _ all i
    | member | call => cases h
  | map sorted all =>
    cases l with
    | member name =>
      simp only [Chain.follow] at h
      split at h
      · next found =>
        cases h
        exact all _ (Entries.mem_of_get? found)
      · cases h
    | index key =>
      obtain ⟨k, -, got⟩ := bind_eq_ok_iff.mp h
      split at got
      · next found =>
        cases got
        exact all _ (Entries.mem_of_get? found)
      · cases got
    | call => cases h
  | _ => cases l <;> cases h

theorem Sorted.readValue (sorted : v.Sorted) {steps : List Step}
    (h : Chain.readValue steps v = .ok w) : w.Sorted := by
  induction steps generalizing v with
  | nil =>
    cases h
    exact sorted
  | cons step rest ih =>
    rw [Chain.readValue] at h
    split at h
    · next followed => exact ih (sorted.follow followed) h
    · cases h

end Value

/-! ## Elements of types -/

namespace HostType

/-- The entries of all maps in the element are sorted. -/
def Sorted : (t : HostType) → t.Carrier → Prop
  | value, v => Value.Sorted v
  | json, j => Json.Sorted j
  | option item, x => ∀ y, x = some y → item.Sorted y
  | list item, xs => ∀ x ∈ (show List item.Carrier from xs), item.Sorted x
  | map item, es =>
    Entries.Sorted (show Entries item.Carrier from es) ∧
      ∀ e ∈ (show Entries item.Carrier from es), item.Sorted e.2
  | bool, _ | int _, _ | double, _ | single, _ | text, _ => True

theorem of_readItems {α : Type} {read : Value → Except AccessError α} {vs : List Value}
    {xs : List α} (h : readItems read vs = .ok xs) : ∀ x ∈ xs, ∃ v ∈ vs, read v = .ok x := by
  induction vs generalizing xs with
  | nil =>
    cases h
    simp
  | cons v vs ih =>
    obtain ⟨x, first, h⟩ := bind_eq_ok_iff.mp h
    obtain ⟨xs, rest, h⟩ := bind_eq_ok_iff.mp h
    cases h
    intro y mem
    rcases List.mem_cons.mp mem with rfl | mem
    · exact ⟨v, .head _, first⟩
    · obtain ⟨w, inside, read⟩ := ih rest y mem
      exact ⟨w, .tail _ inside, read⟩

/-- Reading entries keeps their keys. -/
theorem of_readEntries {α : Type} {read : Value → Except AccessError α}
    {vs : List (String × Value)} {es : List (String × α)} (h : readEntries read vs = .ok es) :
    Entries.keys es = Entries.keys vs ∧ ∀ e ∈ es, ∃ v ∈ vs, read v.2 = .ok e.2 := by
  induction vs generalizing es with
  | nil =>
    cases h
    simp [Entries.keys]
  | cons v vs ih =>
    obtain ⟨x, first, h⟩ := bind_eq_ok_iff.mp h
    obtain ⟨es, rest, h⟩ := bind_eq_ok_iff.mp h
    cases h
    obtain ⟨keys, all⟩ := ih rest
    refine ⟨congrArg (v.1 :: ·) keys, fun e mem => ?_⟩
    rcases List.mem_cons.mp mem with rfl | mem
    · exact ⟨v, .head _, first⟩
    · obtain ⟨w, inside, read⟩ := all e mem
      exact ⟨w, .tail _ inside, read⟩

theorem sorted_read {t : HostType} {v : Value} {x : t.Carrier} (sorted : v.Sorted)
    (h : t.read v = .ok x) : t.Sorted x := by
  induction t generalizing v with
  | value =>
    cases h
    exact sorted
  | json =>
    cases h
    exact sorted.toJson
  | option item ih =>
    intro y is
    cases v with
    | nil =>
      cases h
      cases is
    | _ =>
      obtain ⟨z, read, eq⟩ := map_eq_ok_iff.mp h
      rw [← eq] at is
      cases is
      exact ih sorted read
  | list item ih =>
    cases sorted with
    | list all =>
      intro y mem
      obtain ⟨w, inside, read⟩ := of_readItems h y mem
      exact ih (all w inside) read
    | _ => cases h
  | map item ih =>
    cases sorted with
    | map sorted all =>
      obtain ⟨keys, from_values⟩ := of_readEntries h
      refine ⟨?_, fun e mem => ?_⟩
      · unfold Entries.Sorted
        rw [keys]
        exact sorted
      · obtain ⟨w, inside, read⟩ := from_values e mem
        exact ih (all w inside) read
    | _ => cases h
  | bool | int | double | single | text => trivial

theorem sorted_write {t : HostType} {x : t.Carrier} (sorted : t.Sorted x) : (t.write x).Sorted := by
  induction t with
  | value => exact sorted
  | json => exact Json.Sorted.toValue sorted
  | option item ih =>
    cases x with
    | none => exact .nil
    | some y => exact ih (sorted y rfl)
  | list item ih =>
    refine .list fun w mem => ?_
    obtain ⟨y, inside, rfl⟩ := List.mem_map.mp mem
    exact ih (sorted y inside)
  | map item ih =>
    refine .map (Entries.sorted_map sorted.1 _) fun e mem => ?_
    obtain ⟨d, inside, rfl⟩ := List.mem_map.mp mem
    exact ih (sorted.2 d inside)
  | int t =>
    change (writeInt x).Sorted
    unfold writeInt
    split
    · exact .int
    · exact .float
  | bool => exact .bool
  | double | single => exact .float
  | text => exact .text

end HostType

/-! ## Facts -/

namespace Fact

/-- A document, a container, a view, or a record without methods whose parts are such facts, with
sorted entries everywhere. -/
inductive Tidy : Fact → Prop
  | document {j} : j.Sorted → Tidy (document j)
  | list {item items} : (HostType.list item).Sorted items → Tidy (list item items)
  | map {item entries} : (HostType.map item).Sorted entries → Tidy (map item entries)
  | record {type fields parts} :
      type.Methodless → Entries.Sorted fields → (∀ e ∈ fields, HostType.Sorted e.2.1 e.2.2) →
      Entries.Sorted parts → (∀ e ∈ parts, Tidy e.2) → Tidy (record type fields parts)
  | view {type fields} : (∀ e ∈ fields, Value.Sorted e.2) → Tidy (view type fields)

theorem tidy_ofCell? {cell : Cell} {part : Fact} (sorted : cell.1.Sorted cell.2)
    (of : ofCell? cell = some part) : part.Tidy := by
  rcases cell with ⟨type, x⟩
  cases type <;> cases of
  · exact .document sorted
  · exact .list sorted
  · exact .map sorted

theorem plain_ofCell? {cell : Cell} {part : Fact} (sorted : cell.1.Sorted cell.2)
    (of : ofCell? cell = some part) : part.Plain := by
  rcases cell with ⟨type, x⟩
  cases type <;> cases of
  · exact .document sorted
  · exact .list
  · exact .map

theorem Tidy.sorted_toCell? {f : Fact} (tidy : f.Tidy) {cell : Cell}
    (filled : f.toCell? = some cell) : cell.1.Sorted cell.2 := by
  cases tidy with
  | document sorted | list sorted | map sorted =>
    cases filled
    exact sorted
  | record | view => cases filled

theorem Tidy.plain {f : Fact} (tidy : f.Tidy) : f.Plain := by
  induction tidy with
  | document sorted => exact .document sorted
  | list => exact .list
  | map => exact .map
  | view => exact .view
  | record methodless sorted all sorted' _ ih =>
    exact .record methodless sorted (fun e mem _ of => plain_ofCell? (all e mem) of) sorted' ih

theorem Tidy.toValue {f : Fact} (tidy : f.Tidy) : f.toValue.Sorted := by
  cases tidy with
  | document sorted => exact sorted.toValue
  | list sorted | map sorted => exact HostType.sorted_write sorted
  | record _ sorted all =>
    exact .map (Entries.sorted_map sorted _)
      (List.forall_mem_map.mpr fun e mem => HostType.sorted_write (all e mem))
  | view => exact .nil

/-! ## Parts -/

theorem Tidy.member? {f p : Fact} (tidy : f.Tidy) {name : String} (h : f.member? name = some p) :
    p.Tidy := by
  cases tidy with
  | document sorted =>
    obtain ⟨inner, field, rfl⟩ := Option.map_eq_some_iff.mp h
    rw [Json.field?_eq] at field
    exact .document (sorted.part field)
  | @record type fields parts _ _ all _ tidy =>
    change (if name ∈ type.nested then _ else _) = _ at h
    split at h
    · obtain ⟨cell, found, of⟩ := Option.bind_eq_some_iff.mp h
      exact tidy_ofCell? (all _ (Entries.mem_of_get? found)) of
    · exact tidy _ (Entries.mem_of_get? h)
  | list | map | view => cases h

theorem Tidy.element? {f p : Fact} (tidy : f.Tidy) {key : Value} (h : f.element? key = some p) :
    p.Tidy := by
  cases tidy with
  | document sorted =>
    obtain ⟨inner, element, rfl⟩ := Option.map_eq_some_iff.mp h
    rw [Json.element?_eq] at element
    obtain ⟨t, -, there⟩ := Option.bind_eq_some_iff.mp element
    exact .document (sorted.part there)
  | list | map | record | view => cases h

theorem Tidy.putMember {f p : Fact} (tidy : f.Tidy) (fits : p.Tidy) (name : String) :
    (f.putMember name p).Tidy := by
  cases tidy with
  | @document j sorted =>
    cases fits with
    | document new =>
      cases j with
      | object => exact .document (sorted.put new (.key name))
      | _ => exact .document sorted
    | _ => cases j <;> exact .document sorted
  | record methodless sorted all sorted' tidy =>
    unfold Fact.putMember
    dsimp only
    split
    · split
      · next filled =>
        exact .record methodless (Entries.sorted_insert sorted _ _)
          (Entries.forall_insert all (P := fun c : Cell => c.1.Sorted c.2)
            (fits.sorted_toCell? filled) name) sorted' tidy
      · exact .record methodless sorted all sorted' tidy
    · exact .record methodless sorted all (Entries.sorted_insert sorted' _ _)
        (Entries.forall_insert tidy fits name)
  | list sorted => exact .list sorted
  | map sorted => exact .map sorted
  | view all => exact .view all

theorem Tidy.putElement {f p : Fact} (tidy : f.Tidy) (fits : p.Tidy) (key : Value) :
    (f.putElement key p).Tidy := by
  cases tidy with
  | document sorted =>
    cases fits with
    | document new => exact .document (sorted.putElement new key)
    | _ => exact .document sorted
  | record methodless sorted all sorted' tidy => exact .record methodless sorted all sorted' tidy
  | list sorted => exact .list sorted
  | map sorted => exact .map sorted
  | view all => exact .view all

end Fact

/-! ## Reading and writing -/

namespace Chain

variable {f f' p : Fact} {putBack : Fact → Fact} {l : Link} {v w : Value} {steps : List Step}

theorem tidy_part? (tidy : f.Tidy) (h : part? f l = some (p, putBack)) :
    p.Tidy ∧ ∀ q : Fact, q.Tidy → (putBack q).Tidy := by
  cases l with
  | member name =>
    obtain ⟨_, found, eq⟩ := Option.map_eq_some_iff.mp h
    cases eq
    exact ⟨tidy.member? found, fun q fits => tidy.putMember fits name⟩
  | index key =>
    obtain ⟨_, found, eq⟩ := Option.map_eq_some_iff.mp h
    cases eq
    exact ⟨tidy.element? found, fun q fits => tidy.putElement fits key⟩
  | call => cases h

theorem sorted_leave (tidy : f.Tidy) (h : (leave l f).1 = .ok w) : w.Sorted := by
  cases tidy with
  | document sorted =>
    rw [ok_iff_toOption, leave_document] at h
    obtain ⟨inner, found, rfl⟩ := Option.map_eq_some_iff.mp h
    obtain ⟨t, -, there⟩ := Option.bind_eq_some_iff.mp found
    exact (sorted.part there).toValue
  | @list item items sorted =>
    cases l with
    | index key =>
      obtain ⟨i, -, got⟩ := bind_eq_ok_iff.mp h
      cases got
      cases at_i : items[i]? with
      | none => exact .nil
      | some x => exact HostType.sorted_write (sorted x (List.mem_of_getElem? at_i))
    | member | call => cases h
  | map sorted =>
    cases l with
    | index key =>
      obtain ⟨k, -, got⟩ := bind_eq_ok_iff.mp h
      split at got
      · next found =>
        cases got
        exact HostType.sorted_write (sorted.2 _ (Entries.mem_of_get? found))
      · cases got
    | member | call => cases h
  | record methodless _ all =>
    cases l with
    | member name =>
      rw [leave_member_record methodless] at h
      split at h
      · next found =>
        cases h
        exact HostType.sorted_write (all _ (Entries.mem_of_get? found))
      · cases h
    | index => cases h
    | call name args =>
      change (RecordType.call _ name args _).1 = _ at h
      rw [methodless] at h
      cases h
  | @view type fields all =>
    cases l with
    | member name =>
      unfold leave at h
      cases found : Entries.get? fields name with
      | some v =>
        simp only [FactOps.get?, Fact.get?, found] at h
        cases h
        exact all _ (Entries.mem_of_get? found)
      | none =>
        simp only [FactOps.get?, Fact.get?, found] at h
        cases h
    | index | call => cases h

theorem sorted_readFact (tidy : f.Tidy) (h : (readFact steps f).1 = .ok w) : w.Sorted := by
  induction steps generalizing f with
  | nil =>
    cases h
    exact tidy.toValue
  | cons step rest ih =>
    rw [readFact] at h
    split at h
    · next part putBack found =>
      split at found
      · cases found
      · exact ih (tidy_part? tidy found).1 h
    · split at h
      · next v _ left => exact (sorted_leave tidy (congrArg Prod.fst left)).readValue h
      · cases h

theorem tidy_store (tidy : f.Tidy) (sorted : v.Sorted) (h : store l v f = (.ok (), f')) :
    f'.Tidy := by
  cases tidy with
  | document fits =>
    obtain ⟨t, -, -, rfl⟩ := store_document h
    exact .document (fits.put sorted.toJson t)
  | list fits =>
    cases l with
    | index key =>
      obtain ⟨i, -, rest⟩ := bind_eq_ok_iff.mp (ofUpdate_ok h)
      obtain ⟨x, read, put⟩ := bind_eq_ok_iff.mp rest
      cases put
      refine .list fun y mem => ?_
      rcases List.mem_or_eq_of_mem_set mem with mem | rfl
      · exact fits y mem
      · exact HostType.sorted_read sorted read
    | member | call => cases h
  | map fits =>
    cases l with
    | index key =>
      obtain ⟨k, -, rest⟩ := bind_eq_ok_iff.mp (ofUpdate_ok h)
      obtain ⟨x, read, put⟩ := bind_eq_ok_iff.mp rest
      cases put
      exact .map ⟨Entries.sorted_insert fits.1 k x,
        Entries.forall_insert fits.2 (HostType.sorted_read sorted read) k⟩
    | member | call => cases h
  | record methodless fits all fits' tidy =>
    cases l with
    | member name =>
      obtain ⟨cell, x, -, read, rfl⟩ := set_record_eq_ok (ofUpdate_ok h)
      exact .record methodless (Entries.sorted_insert fits name _)
        (Entries.forall_insert all (P := fun c : Cell => c.1.Sorted c.2)
          (HostType.sorted_read sorted read) name) fits' tidy
    | index | call => cases h
  | view =>
    cases l with
    | member name =>
      have set := ofUpdate_ok h
      simp only [Fact.set] at set
      split at set <;> cases set
    | index | call => cases h

/-- Whether it succeeds or not, a write of a sorted value keeps everything sorted. -/
theorem tidy_writeFact (tidy : f.Tidy) (sorted : v.Sorted) (steps : List Step) :
    (writeFact v steps f).2.Tidy := by
  induction steps generalizing f with
  | nil => exact tidy
  | cons step rest ih =>
    by_cases last : rest = []
    · subst last
      rw [writeFact]
      split
      · next stored => exact tidy_store tidy sorted stored
      · next refused => exact store_error refused ▸ tidy
    rw [writeFact_cons last]
    split
    · next part putBack found =>
      obtain ⟨inside, keeps⟩ := tidy_part? tidy found
      exact keeps _ (ih inside)
    · exact tidy

end Chain

end Rulebook
