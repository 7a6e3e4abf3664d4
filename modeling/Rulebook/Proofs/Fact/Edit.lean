import Mathlib
import Rulebook.Proofs.Fact.Plain
import Rulebook.Proofs.Result

/-!
# One change within a fact

A change is made at one target: an entry or item of a document, an item of a list, an entry of a
map, or a field or part of a record. Links with other targets lead to the same before and after it.
-/

namespace Rulebook

/-- The type of the elements that a link may assign in a fact. -/
def Fact.slotType? : Fact → Link → Option HostType
  | document _, _ => some .json
  | list item _, _ | map item _, _ => some item
  | record _ fields _, .member name => (Entries.get? fields name).map Sigma.fst
  | record .., _ | view .., _ => none

/-- The type of the fields that can hold the fact. -/
def Fact.cellType? (f : Fact) : Option HostType := f.toCell?.map Sigma.fst

/-- The length of a list or an array. -/
def Fact.length? : Fact → Option Nat
  | document (.array items) => some items.length
  | list _ items => some items.length
  | _ => none

namespace Chain

variable {f f' p q : Fact} {putBack : Fact → Fact} {l m : Link} {t : Target} {v : Value}

inductive Edits : Target → Fact → Fact → Prop
  | document {t : Target} {j : Json} {new : Json} : j.Takes t →
      Edits t (.document j) (.document (Json.put new j t))
  | item {type : HostType} {items : List type.Carrier} {i : Nat} {x : type.Carrier} :
      i < items.length → Edits (.position i) (.list type items) (.list type (items.set i x))
  | entry {type : HostType} {entries : List (String × type.Carrier)} {k : String}
      {x : type.Carrier} : Edits (.key k) (.map type entries) (.map type (Entries.insert entries k x))
  | field {type : RecordType} {fields : List (String × Cell)} {parts : List (String × Fact)}
      {name : String} {cell : Cell} : type.Methodless →
      Edits (.key name) (.record type fields parts)
        (.record type (Entries.insert fields name cell) parts)
  | part {type : RecordType} {fields : List (String × Cell)} {parts : List (String × Fact)}
      {name : String} {new : Fact} : type.Methodless → name ∉ type.nested →
      Edits (.key name) (.record type fields parts)
        (.record type fields (Entries.insert parts name new))

/-- The link leads to the same part and the same value or error in both facts. -/
structure Same (l : Link) (f f' : Fact) : Prop where
  part : (part? f' l).map Prod.fst = (part? f l).map Prod.fst
  leave : (leave l f').1 = (leave l f).1

/-! ## What a link leads to -/

theorem leave_member_document (j : Json) (name : String) :
    (leave (.member name) (Fact.document j)).1 =
      match j.at? (.key name) with
      | some item => .ok item.toValue
      | none => .error (.unknownMember j.typeName name) := by
  rw [← Json.field?_eq]
  cases field : j.field? name <;>
    simp [leave, FactOps.get?, Fact.get?, field, accessor, FactOps.call, Fact.call,
      FactOps.typeName, Fact.typeName]

theorem leave_text_map (type : HostType) (entries : List (String × type.Carrier)) (k : String) :
    (leave (.index (.text k)) (Fact.map type entries)).1 =
      match Entries.get? entries k with
      | some x => .ok (type.write x)
      | none => .error (missingKey k) := rfl

theorem part?_member_record (type : RecordType) (fields : List (String × Cell))
    (parts : List (String × Fact)) (name : String) :
    (part? (Fact.record type fields parts) (.member name)).map Prod.fst =
      if name ∈ type.nested then (Entries.get? fields name).bind Fact.ofCell?
      else Entries.get? parts name := by
  change (Option.map _ (Fact.member? (.record type fields parts) name)).map Prod.fst = _
  rw [Option.map_map]
  exact Option.map_id' ..

theorem leave_member_record {type : RecordType} (methodless : type.Methodless)
    (fields : List (String × Cell)) (parts : List (String × Fact)) (name : String) :
    (leave (.member name) (Fact.record type fields parts)).1 =
      match Entries.get? fields name with
      | some cell => .ok cell.value
      | none => .error (.unknownMember type.name name) := by
  cases field : Entries.get? fields name <;>
    simp [leave, FactOps.get?, Fact.get?, field, accessor, FactOps.call, Fact.call,
      methodless name [] fields, FactOps.typeName, Fact.typeName]

theorem position_eq_ok {key : Value} {length i : Nat} :
    position key length = .ok i ↔ ∃ n, key = .int n ∧ n.toInt = i ∧ i < length := by
  constructor
  · intro h
    cases key with
    | int n =>
      rw [position_int] at h
      split at h
      · next bounds =>
        cases h
        exact ⟨n, rfl, (Int.toNat_of_nonneg bounds.1).symm, by omega⟩
      · cases h
    | _ => cases h
  · rintro ⟨n, rfl, eq, lt⟩
    rw [position_int, eq, if_pos (by omega), Int.toNat_natCast]

theorem textKey_eq_ok {key : Value} {k : String} : textKey key = .ok k ↔ key = .text k := by
  cases key <;> simp [textKey]

/-! ## Off the target -/

/-- An item at another position is as before, and so is the refusal of a position. -/
theorem item_set_ne {α β : Type} (items : List α) (x : α) {i : Nat} {key : Value}
    (ne : key.target? ≠ some (.position i)) (get : Option α → β) :
    (do let n ← position key (items.set i x).length
        return get ((items.set i x)[n]?) : Except AccessError β) =
      (do let n ← position key items.length
          return get items[n]?) := by
  rw [List.length_set]
  cases at_key : position key items.length with
  | error e => rfl
  | ok n =>
    obtain ⟨k, rfl, eq, -⟩ := position_eq_ok.mp at_key
    have apart : i ≠ n := by
      rintro rfl
      exact ne (by rw [Value.target?, eq])
    change Except.ok (get ((items.set i x)[n]?)) = .ok (get items[n]?)
    rw [List.getElem?_set_ne apart]

theorem get?_insert_ne {α : Type} (entries : Entries α) (x : α) {k other : String}
    (ne : (Value.text other).target? ≠ some (.key k)) :
    Entries.get? (Entries.insert entries k x) other = Entries.get? entries other := by
  have apart : other ≠ k := fun eq => ne (congrArg (some ∘ Target.key) eq)
  rw [Entries.get?_insert, if_neg apart]

theorem index_put_ne {j new : Json} {key : Value} (takes : j.Takes t) (ne : key.target? ≠ some t) :
    (Json.put new j t).index key = j.index key := by
  cases takes with
  | @key entries k =>
    cases key with
    | text other =>
      change (Json.object (Entries.insert entries k new)).index (.text other) = _
      rw [index_object, index_object, get?_insert_ne entries new ne]
    | _ => rfl
  | position lt =>
    rw [Json.put_position]
    exact item_set_ne _ _ ne fun item => item.getD Json.null

theorem typeName_put {j new : Json} (takes : j.Takes t) : (Json.put new j t).typeName = j.typeName := by
  cases takes <;> rfl

theorem same_document {j new : Json} (takes : j.Takes t) (ne : l.target? ≠ some t) :
    Same l (.document j) (.document (Json.put new j t)) where
  part := by
    rw [part?_document, part?_document]
    cases target : l.target? with
    | none => rfl
    | some u =>
      have apart : u ≠ t := by
        rintro rfl
        exact ne target
      simp only [Option.bind_some, Json.at?_put_ne takes apart]
  leave := by
    cases l with
    | member name =>
      have apart : Target.key name ≠ t := fun eq => ne (congrArg some eq)
      rw [leave_member_document, leave_member_document, Json.at?_put_ne takes apart,
        typeName_put takes]
    | index key =>
      change ((Json.put new j t).index key).map Json.toValue = (j.index key).map Json.toValue
      rw [index_put_ne takes ne]
    | call name args =>
      change Except.error (AccessError.unknownMethod (Json.put new j t).typeName name) = .error _
      rw [typeName_put takes]
      rfl

/-- A change leaves alone what other targets lead to. -/
theorem Edits.same (edits : Edits t f f') (ne : l.target? ≠ some t) : Same l f f' := by
  cases edits with
  | document takes => exact same_document takes ne
  | @item type items i x lt =>
    refine ⟨by cases l <;> rfl, ?_⟩
    cases l with
    | index key => exact item_set_ne items x ne fun item => (item.map type.write).getD .nil
    | member | call => rfl
  | @entry type entries k x =>
    refine ⟨by cases l <;> rfl, ?_⟩
    cases l with
    | index key =>
      cases key with
      | text other => rw [leave_text_map, leave_text_map, get?_insert_ne entries x ne]
      | _ => rfl
    | member | call => rfl
  | @field type fields parts name cell methodless =>
    cases l with
    | member other =>
      have found := get?_insert_ne fields cell ne
      refine ⟨?_, ?_⟩
      · rw [part?_member_record, part?_member_record, found]
      · rw [leave_member_record methodless, leave_member_record methodless, found]
    | index key => exact ⟨rfl, rfl⟩
    | call method args =>
      refine ⟨rfl, ?_⟩
      change (type.call method args _).1 = (type.call method args _).1
      rw [methodless, methodless]
  | @part type fields parts name new methodless own =>
    cases l with
    | member other =>
      refine ⟨?_, ?_⟩
      · rw [part?_member_record, part?_member_record, get?_insert_ne parts new ne]
      · rw [leave_member_record methodless, leave_member_record methodless]
    | index key => exact ⟨rfl, rfl⟩
    | call method args => exact ⟨rfl, rfl⟩

theorem Edits.cellType?_eq (edits : Edits t f f') : f'.cellType? = f.cellType? := by
  cases edits <;> rfl

theorem Edits.length?_eq (edits : Edits t f f') : f'.length? = f.length? := by
  cases edits with
  | document takes =>
    cases takes with
    | key => rfl
    | position => simp [Fact.length?]
  | item => exact congrArg some List.length_set
  | entry | field | part => rfl

/-! ## Assigning -/

theorem setField_eq_ok {j j' new : Json} {name : String} (h : j.setField name new = .ok j') :
    j.Takes (.key name) ∧ j' = Json.put new j (.key name) := by
  cases j <;> cases h
  exact ⟨.key, rfl⟩

theorem setIndex_eq_ok {j j' new : Json} {key : Value} (h : j.setIndex key new = .ok j') :
    ∃ t, (Link.index key).final? = some t ∧ j.Takes t ∧ j' = Json.put new j t := by
  cases j with
  | object entries =>
    obtain ⟨k, at_key, put⟩ := bind_eq_ok_iff.mp h
    obtain rfl := textKey_eq_ok.mp at_key
    cases put
    exact ⟨.key k, rfl, .key, rfl⟩
  | array items =>
    obtain ⟨i, at_key, put⟩ := bind_eq_ok_iff.mp h
    obtain ⟨n, rfl, eq, lt⟩ := position_eq_ok.mp at_key
    cases put
    exact ⟨.position i, by rw [Link.final?, eq], .position lt, by rw [Json.put_position]⟩
  | _ => cases h

theorem ofUpdate_ok {update : Fact → Except AccessError Fact}
    (h : Access.ofUpdate update f = (.ok (), f')) : update f = .ok f' := by
  unfold Access.ofUpdate at h
  split at h
  · next updated =>
    cases h
    exact updated
  · cases h

theorem store_document {j : Json} (h : store l v (.document j) = (.ok (), f')) :
    ∃ t, l.final? = some t ∧ j.Takes t ∧ f' = .document (Json.put v.toJson j t) := by
  cases l with
  | member name =>
    obtain ⟨j', set, rfl⟩ := map_eq_ok_iff.mp (ofUpdate_ok h)
    obtain ⟨takes, rfl⟩ := setField_eq_ok set
    exact ⟨.key name, rfl, takes, rfl⟩
  | index key =>
    obtain ⟨j', set, rfl⟩ := map_eq_ok_iff.mp (ofUpdate_ok h)
    obtain ⟨t, final, takes, rfl⟩ := setIndex_eq_ok set
    exact ⟨t, final, takes, rfl⟩
  | call => cases h

theorem set_record_eq_ok {type : RecordType} {fields : List (String × Cell)}
    {parts : List (String × Fact)} {name : String}
    (h : Fact.set name v (.record type fields parts) = .ok f') :
    ∃ cell x, Entries.get? fields name = some cell ∧ cell.1.read v = .ok x ∧
      f' = .record type (Entries.insert fields name ⟨cell.1, x⟩) parts := by
  simp only [Fact.set] at h
  split at h
  · next cell found =>
    obtain ⟨cell', update, put⟩ := bind_eq_ok_iff.mp h
    obtain ⟨x, read, rfl⟩ := map_eq_ok_iff.mp update
    cases put
    exact ⟨cell, x, found, read, rfl⟩
  · cases h

/-- What has been assigned is one change, and is there converted to the type of its place. -/
structure Stored (l : Link) (v : Value) (f f' : Fact) : Prop where
  edits : ∃ t, l.target? = some t ∧ Edits t f f'
  read : ∃ type x, f.slotType? l = some type ∧ type.read v = .ok x ∧
    (leave l f').1 = .ok (type.write x)

theorem stored_of_store (plain : f.Plain) (h : store l v f = (.ok (), f')) : Stored l v f f' := by
  cases plain with
  | @document j sorted =>
    obtain ⟨t, final, takes, rfl⟩ := store_document h
    refine ⟨⟨t, target?_of_final? final, .document takes⟩, .json, v.toJson, rfl, rfl, ?_⟩
    rw [ok_iff_toOption, leave_document, final, Option.bind_some, Json.at?_put_self takes]
    rfl
  | @list type items =>
    cases l with
    | index key =>
      obtain ⟨i, at_key, rest⟩ := bind_eq_ok_iff.mp (ofUpdate_ok h)
      obtain ⟨x, read, put⟩ := bind_eq_ok_iff.mp rest
      obtain ⟨n, rfl, eq, lt⟩ := position_eq_ok.mp at_key
      cases put
      refine ⟨⟨.position i, by rw [Link.target?, Value.target?, eq], .item lt⟩,
        type, x, rfl, read, ?_⟩
      have there : position (.int n) (items.set i x).length = .ok i := by
        rw [List.length_set, at_key]
      change (position (.int n) (items.set i x).length >>= _) = _
      rw [there]
      change Except.ok (((items.set i x)[i]?.map type.write).getD .nil) = _
      rw [List.getElem?_set_self lt]
      rfl
    | member | call => cases h
  | @map type entries =>
    cases l with
    | index key =>
      obtain ⟨k, at_key, rest⟩ := bind_eq_ok_iff.mp (ofUpdate_ok h)
      obtain ⟨x, read, put⟩ := bind_eq_ok_iff.mp rest
      obtain rfl := textKey_eq_ok.mp at_key
      cases put
      refine ⟨⟨.key k, rfl, .entry⟩, type, x, rfl, read, ?_⟩
      rw [leave_text_map, Entries.get?_insert, if_pos rfl]
    | member | call => cases h
  | @record type fields parts methodless =>
    cases l with
    | member name =>
      obtain ⟨cell, x, found, read, rfl⟩ := set_record_eq_ok (ofUpdate_ok h)
      refine ⟨⟨.key name, rfl, .field methodless⟩, cell.1, x, ?_, read, ?_⟩
      · rw [Fact.slotType?, found]
        rfl
      · rw [leave_member_record methodless, Entries.get?_insert, if_pos rfl]
        rfl
    | index | call => cases h
  | @view type fields =>
    cases l with
    | member name =>
      have set := ofUpdate_ok h
      simp only [Fact.set] at set
      split at set <;> cases set
    | index | call => cases h

/-! ## Putting parts back -/

theorem cellType?_putMember (f : Fact) (name : String) (q : Fact) :
    (f.putMember name q).cellType? = f.cellType? := by
  unfold Fact.putMember
  split
  · rfl
  · split
    · split <;> rfl
    · rfl
  · rfl

theorem cellType?_putElement (f : Fact) (key : Value) (q : Fact) :
    (f.putElement key q).cellType? = f.cellType? := by
  unfold Fact.putElement
  split <;> rfl

/-- Putting a part back does not change the type of the whole. -/
theorem cellType?_putBack (h : part? f l = some (p, putBack)) (q : Fact) :
    (putBack q).cellType? = f.cellType? := by
  cases l with
  | member name =>
    obtain ⟨_, -, eq⟩ := Option.map_eq_some_iff.mp h
    cases eq
    exact cellType?_putMember f name q
  | index key =>
    obtain ⟨_, -, eq⟩ := Option.map_eq_some_iff.mp h
    cases eq
    exact cellType?_putElement f key q
  | call => cases h

theorem ofCell?_of_toCell? {cell : Cell} (h : f.toCell? = some cell) :
    Fact.ofCell? cell = some f := by
  cases f <;> cases h <;> rfl

theorem toCell?_of_cellType? {cell : Cell} (of : Fact.ofCell? cell = some p)
    (type : q.cellType? = p.cellType?) : ∃ cell', q.toCell? = some cell' := by
  unfold Fact.cellType? at type
  rw [Fact.toCell?_of_ofCell? of] at type
  obtain ⟨cell', is, -⟩ := Option.map_eq_some_iff.mp type
  exact ⟨cell', is⟩

theorem target?_eq_key {name : String} (h : m.target? = some (.key name)) :
    m = .member name ∨ m = .index (.text name) := by
  rcases m with _ | key | _
  · cases h
    exact .inl rfl
  · cases key <;> simp [Link.target?, Value.target?] at h
    subst h
    exact .inr rfl
  · cases h

/-- A part that has been replaced is one change. Links with its target lead to the new part where
they led to the old one. -/
structure Replaced (l : Link) (p q f f' : Fact) : Prop where
  edits : ∃ t, l.target? = some t ∧ Edits t f f'
  part : (part? f' l).map Prod.fst = some q
  others : ∀ m : Link, m.target? = l.target? →
    ((part? f m).map Prod.fst = some p ∧ (part? f' m).map Prod.fst = some q) ∨ Same m f f'

theorem replaced_of_record {type : RecordType} {fields fields' : List (String × Cell)}
    {parts parts' : List (String × Fact)} {name : String}
    (edits : Edits (.key name) (.record type fields parts) (.record type fields' parts'))
    (old : (part? (Fact.record type fields parts) (.member name)).map Prod.fst = some p)
    (new : (part? (Fact.record type fields' parts') (.member name)).map Prod.fst = some q) :
    Replaced (.member name) p q (.record type fields parts) (.record type fields' parts') := by
  refine ⟨⟨.key name, rfl, edits⟩, new, fun m same => ?_⟩
  rcases target?_eq_key same with rfl | rfl
  · exact .inl ⟨old, new⟩
  · exact .inr ⟨rfl, rfl⟩

theorem replaced_of_part? (plain : f.Plain) (h : part? f l = some (p, putBack))
    (type : q.cellType? = p.cellType?) : Replaced l p q f (putBack q) := by
  have found : (part? f l).map Prod.fst = some p := congrArg (Option.map Prod.fst) h
  cases plain with
  | @document j sorted =>
    obtain ⟨t, inner, target, there, rfl, puts⟩ := put_of_part? h
    obtain ⟨new, rfl⟩ : ∃ new, q = .document new := by
      cases q <;> simp [Fact.cellType?, Fact.toCell?] at type
      exact ⟨_, rfl⟩
    rw [puts]
    have takes := Json.takes_of_at? there
    have leads (m : Link) (same : m.target? = some t) :
        (part? (Fact.document (Json.put new j t)) m).map Prod.fst = some (.document new) := by
      rw [part?_document, same, Option.bind_some, Json.at?_put_self takes]
      rfl
    -- A field and a key lead to the same part of a document, unlike in a record.
    refine ⟨⟨t, target, .document takes⟩, leads l target, fun m same => .inl ⟨?_, ?_⟩⟩
    · rw [part?_document, same, target, Option.bind_some, there]
      rfl
    · exact leads m (same.trans target)
  | list | map | view => cases l <;> cases h
  | @record type fields parts methodless =>
    obtain ⟨name, rfl, ⟨nested, cell, -, of, puts⟩ | ⟨own, -, puts⟩⟩ := part?_record h
    -- The part is put back into its field only if the field can still hold it.
    · obtain ⟨cell', filled⟩ := toCell?_of_cellType? of ‹q.cellType? = p.cellType?›
      rw [puts q cell' filled]
      refine replaced_of_record (.field methodless) found ?_
      rw [part?_member_record, if_pos nested, Entries.get?_insert, if_pos rfl]
      exact ofCell?_of_toCell? filled
    · rw [puts q]
      refine replaced_of_record (.part methodless own) found ?_
      rw [part?_member_record, if_neg own, Entries.get?_insert, if_pos rfl]

end Chain

end Rulebook
