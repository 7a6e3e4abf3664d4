import Mathlib
import Rulebook.Proofs.Fact.Document

/-!
# Facts that accesses do not surprise

A plain fact is a document, a container, a view, or a record that has no methods and whose parts are
plain. Reading leaves it as it is, and so does a write that fails.
-/

namespace Rulebook

/-- Every call is refused as one of an unknown method, and leaves the fields alone. -/
def RecordType.Methodless (type : RecordType) : Prop :=
  ∀ method args fields, type.call method args fields =
    (.error (.unknownMethod type.name method), fields)

namespace Fact

inductive Plain : Fact → Prop
  | document {j} : j.Sorted → Plain (document j)
  | list {item items} : Plain (list item items)
  | map {item entries} : Plain (map item entries)
  | record {type fields parts} :
      type.Methodless → Entries.Sorted fields → (∀ e ∈ fields, ∀ part, ofCell? e.2 = some part → Plain part) →
      Entries.Sorted parts → (∀ e ∈ parts, Plain e.2) → Plain (record type fields parts)
  | view {type fields} : Plain (view type fields)

theorem toCell?_of_ofCell? {cell : Cell} {part : Fact} (h : ofCell? cell = some part) :
    part.toCell? = some cell := by
  rcases cell with ⟨type, x⟩
  cases type <;> cases h <;> rfl

end Fact

namespace Chain

variable {f p : Fact} {putBack : Fact → Fact} {l : Link}

/-- A part of a record is in a field or among its parts. -/
theorem part?_record {type : RecordType} {fields : List (String × Cell)}
    {parts : List (String × Fact)}
    (h : part? (Fact.record type fields parts) l = some (p, putBack)) :
    ∃ name, l = .member name ∧
      ((name ∈ type.nested ∧ ∃ cell, Entries.get? fields name = some cell ∧
          Fact.ofCell? cell = some p ∧ ∀ new cell, new.toCell? = some cell →
            putBack new = .record type (Entries.insert fields name cell) parts) ∨
        name ∉ type.nested ∧ Entries.get? parts name = some p ∧
          ∀ new, putBack new = .record type fields (Entries.insert parts name new)) := by
  cases l with
  | member name =>
    refine ⟨name, rfl, ?_⟩
    obtain ⟨q, found, eq⟩ := Option.map_eq_some_iff.mp h
    cases eq
    change (if name ∈ type.nested then _ else _) = _ at found
    split at found
    · next nested =>
      obtain ⟨cell, field, of⟩ := Option.bind_eq_some_iff.mp found
      refine .inl ⟨nested, cell, field, of, fun new cell filled => ?_⟩
      simp [FactOps.putMember, Fact.putMember, nested, filled]
    · next own =>
      refine .inr ⟨own, found, fun new => ?_⟩
      simp [FactOps.putMember, Fact.putMember, own]
  | index key => cases h
  | call => cases h

/-- A part that is put back as it was handed out changes nothing. -/
theorem part?_plain (plain : f.Plain) (h : part? f l = some (p, putBack)) :
    p.Plain ∧ putBack p = f := by
  cases plain with
  | @document j sorted =>
    obtain ⟨t, inner, -, there, rfl, puts⟩ := put_of_part? h
    exact ⟨.document (sorted.part there), by rw [puts, Json.put_self sorted there]⟩
  | list | map | view => cases l <;> cases h
  | @record type fields parts _ sorted inside sorted' plain =>
    obtain ⟨name, rfl, ⟨-, cell, field, of, puts⟩ | ⟨-, found, puts⟩⟩ := part?_record h
    · refine ⟨inside _ (Entries.mem_of_get? field) p of, ?_⟩
      rw [puts p cell (Fact.toCell?_of_ofCell? of), Entries.insert_of_get? sorted field]
    · refine ⟨plain _ (Entries.mem_of_get? found), ?_⟩
      rw [puts, Entries.insert_of_get? sorted' found]

theorem leave_plain (plain : f.Plain) (l : Link) : (leave l f).2 = f := by
  have called (method : String) (args : List Value) : (FactOps.call method args f).2 = f := by
    cases plain with
    | record none =>
      change Fact.record _ (RecordType.call _ method args _).2 _ = _
      rw [none]
    | _ => rfl
  cases l with
  | member name =>
    have accessed : (accessor name f).2 = f := by
      unfold accessor
      have kept := called name []
      split
      · next ran =>
        rw [ran] at kept
        exact kept
      · exact kept
    unfold leave
    cases found : FactOps.get? f name with
    | none => simpa only [found] using accessed
    | some v => simp only [found]
  | index key => rfl
  | call name args => exact called name args

theorem readFact_plain (plain : f.Plain) (steps : List Step) : (readFact steps f).2 = f := by
  induction steps generalizing f with
  | nil => rfl
  | cons step rest ih =>
    rw [readFact]
    split
    · next part putBack found =>
      -- The last link is never navigated, so the part is that of a link with others behind it.
      have part : part? f step.link = some (part, putBack) := by
        split at found
        · cases found
        · exact found
      obtain ⟨plain', same⟩ := part?_plain plain part
      change putBack (readFact rest _).2 = f
      rw [ih plain', same]
    · have kept := leave_plain plain step.link
      split
      · next ran => rwa [ran] at kept
      · next ran => rwa [ran] at kept

theorem ofUpdate_error {update : Fact → Except AccessError Fact} {e : AccessError} {f' : Fact}
    (h : Access.ofUpdate update f = (.error e, f')) : f' = f := by
  unfold Access.ofUpdate at h
  split at h <;> cases h
  rfl

theorem store_error {v : Value} {e : AccessError} {f' : Fact} (h : store l v f = (.error e, f')) :
    f' = f := by
  cases l with
  | member | index => exact ofUpdate_error h
  | call =>
    cases h
    rfl

theorem writeFact_cons {step : Step} {rest : List Step} (more : rest ≠ []) (v : Value) (f : Fact) :
    writeFact v (step :: rest) f =
      match part? f step.link with
      | some (part, putBack) =>
        ((writeFact v rest part).1, putBack (writeFact v rest part).2)
      | none => (.error ⟨blocked f step.link, step.span⟩, f) := by
  cases rest with
  | nil => exact absurd rfl more
  | cons next rest =>
    conv_lhs => unfold writeFact
    rcases part? f step.link with _ | ⟨part, putBack⟩ <;> rfl

/-- A write that fails changes nothing. -/
theorem writeFact_error (plain : f.Plain) {v : Value} {steps : List Step} {e : StepFault} {f' : Fact}
    (h : writeFact v steps f = (.error e, f')) : f' = f := by
  induction steps generalizing f f' with
  | nil =>
    cases h
    rfl
  | cons step rest ih =>
    cases rest with
    | nil =>
      rw [writeFact] at h
      split at h
      · cases h
      · next refused =>
        cases h
        exact store_error refused
    | cons next rest =>
      rw [writeFact_cons (List.cons_ne_nil next rest)] at h
      split at h
      · next part putBack found =>
        obtain ⟨plain', same⟩ := part?_plain plain found
        rcases written : writeFact v (next :: rest) part with ⟨result, part'⟩
        rw [written] at h
        cases h
        rw [ih plain' written, same]
      · cases h
        rfl

end Chain

end Rulebook
