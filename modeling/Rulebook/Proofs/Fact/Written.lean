import Mathlib
import Rulebook.Proofs.Fact.Edit

/-!
# What a write does to a fact

A write that succeeds is read back, converted to the type of the place, and nothing that can be read
elsewhere is different after it. One that fails changes nothing.
-/

namespace Rulebook.Chain

variable {f f' p q : Fact} {v : Value} {step : Step} {rest steps : List Step}

/-- At some link the paths name different fields, keys or positions. -/
def Apart : List Step → List Step → Prop
  | p :: ps, q :: qs => p.link.target? ≠ q.link.target? ∨ Apart ps qs
  | _, _ => False

/-- The part that links navigate to. -/
def partAt? : List Step → Fact → Option Fact
  | [], f => some f
  | step :: rest, f => ((part? f step.link).map Prod.fst).bind (partAt? rest)

/-- The type of the place that a write through the links assigns. -/
def typeAt? : List Step → Fact → Option HostType
  | [], _ => none
  | [step], f => f.slotType? step.link
  | step :: rest, f => ((part? f step.link).map Prod.fst).bind (typeAt? rest)

/-- The length of the list that links navigate to. -/
def lengthAt? (steps : List Step) (f : Fact) : Option Nat := (partAt? steps f).bind Fact.length?

/-- The effect of a successful write. -/
structure Written (v : Value) (steps : List Step) (f f' : Fact) : Prop where
  read : ∃ type x, typeAt? steps f = some type ∧ type.read v = .ok x ∧
    (readFact steps f').1 = .ok (type.write x)
  apart : ∀ others, Apart steps others → (readFact others f').1 = (readFact others f).1
  lengths : ∀ k < steps.length, lengthAt? (steps.take k) f' = lengthAt? (steps.take k) f

/-! ## Reading one link -/

theorem readFact_part (more : rest ≠ []) (found : (part? f step.link).map Prod.fst = some p) :
    (readFact (step :: rest) f).1 = (readFact rest p).1 := by
  obtain ⟨⟨p, putBack⟩, is, rfl⟩ := Option.map_eq_some_iff.mp found
  rw [readFact, if_neg (by simpa using more), is]

theorem readFact_leave (last : rest = [] ∨ (part? f step.link).map Prod.fst = none) :
    (readFact (step :: rest) f).1 =
      match (leave step.link f).1 with
      | .ok v => readValue rest v
      | .error e => .error ⟨e, step.span⟩ := by
  have nowhere : (if rest.isEmpty then none else part? f step.link) = none := by
    rcases last with rfl | none
    · rfl
    · rw [Option.map_eq_none_iff.mp none, ite_self]
  rw [readFact, nowhere]
  rcases leave step.link f with ⟨e | v, g⟩ <;> rfl

theorem Same.readFact (same : Same step.link f f') (rest : List Step) :
    (readFact (step :: rest) f').1 = (readFact (step :: rest) f).1 := by
  by_cases more : rest = []
  · rw [readFact_leave (.inl more), readFact_leave (.inl more), same.leave]
  cases found : (part? f step.link).map Prod.fst with
  | some p => rw [readFact_part more (same.part.trans found), readFact_part more found]
  | none =>
    rw [readFact_leave (.inr (same.part.trans found)), readFact_leave (.inr found), same.leave]

theorem Apart.cons (apart : Apart (step :: rest) steps) :
    ∃ other others, steps = other :: others ∧
      (other.link.target? ≠ step.link.target? ∨
        other.link.target? = step.link.target? ∧ Apart rest others) := by
  cases steps with
  | nil => cases apart
  | cons other others =>
    refine ⟨other, others, rfl, ?_⟩
    by_cases same : other.link.target? = step.link.target?
    · exact .inr ⟨same, apart.resolve_left fun ne => ne same.symm⟩
    · exact .inl same

theorem Apart.ne_nil (apart : Apart rest steps) : rest ≠ [] ∧ steps ≠ [] := by
  cases rest <;> cases steps <;> simp_all [Apart]

/-! ## Writing -/

theorem written_of_stored (stored : Stored step.link v f f') : Written v [step] f f' := by
  obtain ⟨⟨t, target, edits⟩, type, x, slot, read, left⟩ := stored
  refine ⟨⟨type, x, slot, read, ?_⟩, fun steps apart => ?_, fun k lt => ?_⟩
  · rw [readFact_leave (.inl rfl), left]
    rfl
  · obtain ⟨other, others, rfl, ne | ⟨-, none⟩⟩ := apart.cons
    · exact (edits.same (target ▸ ne)).readFact others
    · cases others <;> cases none
  · obtain rfl : k = 0 := by simpa using lt
    exact edits.length?_eq

theorem written_of_replaced (more : rest ≠ []) (replaced : Replaced step.link p q f f')
    (found : (part? f step.link).map Prod.fst = some p) (written : Written v rest p q) :
    Written v (step :: rest) f f' := by
  obtain ⟨⟨t, target, edits⟩, part, others_lead⟩ := replaced
  refine ⟨?_, fun steps apart => ?_, fun k lt => ?_⟩
  · obtain ⟨type, x, at_end, read, back⟩ := written.read
    refine ⟨type, x, ?_, read, by rw [readFact_part more part, back]⟩
    obtain ⟨next, rest, rfl⟩ := List.exists_cons_of_ne_nil more
    rw [typeAt?, found, Option.bind_some, at_end]
    simp
  · obtain ⟨other, others, rfl, ne | ⟨same, further⟩⟩ := apart.cons
    · exact (edits.same (target ▸ ne)).readFact others
    -- The other path goes on in the part that was written, or never got into it.
    rcases others_lead other.link same with ⟨old, new⟩ | alike
    · rw [readFact_part further.ne_nil.2 new, readFact_part further.ne_nil.2 old]
      exact written.apart others further
    · exact alike.readFact others
  · cases k with
    | zero => exact edits.length?_eq
    | succ k =>
      have inner := written.lengths k (by simpa using lt)
      unfold lengthAt? at inner ⊢
      rw [List.take_succ_cons, partAt?, partAt?, part, found]
      exact inner

theorem cellType?_writeFact (plain : f.Plain) (h : writeFact v steps f = (.ok (), f')) :
    f'.cellType? = f.cellType? := by
  match steps with
  | [] => cases h
  | [step] =>
    rw [writeFact] at h
    split at h
    · next stored =>
      cases h
      obtain ⟨t, -, edits⟩ := (stored_of_store plain stored).edits
      exact edits.cellType?_eq
    · cases h
  | step :: next :: rest =>
    rw [writeFact_cons (List.cons_ne_nil next rest)] at h
    split at h
    · next part putBack found =>
      obtain ⟨-, rfl⟩ := Prod.mk.inj h
      exact cellType?_putBack found _
    · cases h

theorem written_of_writeFact (plain : f.Plain) (h : writeFact v steps f = (.ok (), f')) :
    Written v steps f f' := by
  -- The effect on a part becomes one on the whole when the part is put back.
  induction steps generalizing f f' with
  | nil => cases h
  | cons step rest ih =>
    by_cases last : rest = []
    · subst last
      rw [writeFact] at h
      split at h
      · next stored =>
        cases h
        exact written_of_stored (stored_of_store plain stored)
      · cases h
    rw [writeFact_cons last] at h
    split at h
    · next part putBack found =>
      rcases ran : writeFact v rest part with ⟨result, part'⟩
      rw [ran] at h
      cases h
      have inside := (part?_plain plain found).1
      have replaced := replaced_of_part? plain found (cellType?_writeFact inside ran)
      exact written_of_replaced last replaced (by rw [found]; rfl) (ih inside ran)
    · cases h

/-- A write either is read back where it was made and leaves the rest alone, or changes nothing. -/
theorem writeFact_effect (plain : f.Plain) (v : Value) (steps : List Step) (f' : Fact) :
    (writeFact v steps f = (.ok (), f') → Written v steps f f') ∧
      ∀ e, writeFact v steps f = (.error e, f') → f' = f :=
  ⟨written_of_writeFact plain, fun _ => writeFact_error plain⟩

/-- A record with an array in a field, a number, and a list of bytes that is no field. -/
def parcel (first : Json) : Fact :=
  .record { name := "Parcel", nested := ["Data"] }
    [("Data", ⟨.json, .array [first, .null]⟩), ("Total", ⟨.int .i64, (3 : Int)⟩)]
    [("Sizes", .list (.int .u8) [(1 : Int), (2 : Int)])]

theorem parcel_plain : (parcel .null).Plain := by
  refine .record (fun _ _ _ => rfl) (by unfold Entries.Sorted; decide) ?_
    (List.pairwise_singleton ..) ?_
  · simp only [List.forall_mem_cons]
    refine ⟨?_, ?_, by simp⟩
    · rintro _ ⟨⟩
      exact .document (.array (by simpa using .null))
    · rintro _ ⟨⟩
  · simpa using .list

theorem writeFact_effect_parcel :
    Written (.int 7) [⟨.member "Data", {}⟩, ⟨.index (.int 0), {}⟩] (parcel .null)
      (parcel (.ofInt64 7)) :=
  (writeFact_effect parcel_plain (.int 7) [⟨.member "Data", {}⟩, ⟨.index (.int 0), {}⟩]
    (parcel (.ofInt64 7))).1 rfl

end Rulebook.Chain
