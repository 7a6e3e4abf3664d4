import Mathlib
import Rulebook.Proofs.Fact.Plain
import Rulebook.Proofs.Result

/-!
# Members spelled as indexes

A document has the same at a member and at an index by its text: to read, to navigate into and to
assign. So has a plain value, also one that a call gives. A chain can therefore be spelled either
way, but not where it is still in a fact of another kind.
-/

namespace Rulebook

/-- Both results are failures or the same, and both leave the same state behind. -/
def Agree {ε α σ : Type} (x y : Except ε α × σ) : Prop := x.1.toOption = y.1.toOption ∧ x.2 = y.2

/-- Results that agree are both errors or the same, with one state. -/
theorem Agree.cases {ε α σ : Type} {x y : Except ε α × σ} (agree : Agree x y) :
    (∃ e e' s, x = (.error e, s) ∧ y = (.error e', s)) ∨ ∃ a s, x = (.ok a, s) ∧ y = (.ok a, s) := by
  obtain ⟨r, s⟩ := x
  obtain ⟨r', s'⟩ := y
  obtain ⟨result, rfl⟩ : r.toOption = r'.toOption ∧ s = s' := agree
  obtain ⟨e, e', rfl, rfl⟩ | ⟨a, rfl, rfl⟩ := cases_of_toOption_eq result
  · exact .inl ⟨e', e, s, rfl, rfl⟩
  · exact .inr ⟨a, s, rfl, rfl⟩

namespace Link

/-- A member as an index by its text, and every other link as it is. -/
def indexed : Link → Link
  | member name => index (.text name)
  | l => l

/-- Only the members of a chain that is `free` are spelled as indexes. -/
def spelled (free : Bool) (l : Link) : Link := if free then l.indexed else l

/-- What holds of a link and itself, and of the two spellings of a member. -/
theorem spelled_cases {C : Link → Link → Prop} (free : Bool) (l : Link) (same : C l l)
    (member : ∀ name, free = true → C (index (.text name)) (member name)) :
    C (l.spelled free) l := by
  cases free with
  | false => exact same
  | true =>
    cases l with
    | member name => exact member name rfl
    | _ => exact same

theorem spelled_index (free : Bool) (key : Value) : (index key).spelled free = index key := by
  cases free <;> rfl

theorem spelled_call (free : Bool) (name : String) (args : List Value) :
    (call name args).spelled free = call name args := by
  cases free <;> rfl

def isCall : Link → Bool
  | call .. => true
  | _ => false

end Link

namespace Chain

/-- The steps without spans, and with indexes for members: for all of them if the chain is free, and
for those behind a call in any case. -/
def indexed (free : Bool) : List Step → List Step
  | [] => []
  | m :: ms =>
    ⟨m.link.spelled free, {}⟩ :: indexed (free || m.link.isCall) ms

theorem isEmpty_indexed (free : Bool) (steps : List Step) :
    (indexed free steps).isEmpty = steps.isEmpty := by
  cases steps <;> rfl

theorem indexed_append (free : Bool) (ms : List Step) (m : Step) :
    indexed free (ms ++ [m]) =
      indexed free ms ++ [⟨m.link.spelled (free || ms.any fun m => m.link.isCall), {}⟩] := by
  induction ms generalizing free with
  | nil => simp [indexed]
  | cons n ms ih => simp only [List.cons_append, indexed, ih, List.any_cons, Bool.or_assoc]

/-- Places have their steps the other way round. -/
theorem reverse_indexed_cons (free : Bool) (m : Step) (ms : List Step) :
    (indexed free (m :: ms).reverse).reverse =
      ⟨m.link.spelled (free || ms.any fun m => m.link.isCall), {}⟩ ::
        (indexed free ms.reverse).reverse := by
  rw [List.reverse_cons, indexed_append, List.reverse_append, List.any_reverse]
  rfl

/-! ## Plain values -/

theorem follow_index_text (v : Value) (name : String) :
    (follow v (.index (.text name))).toOption = (follow v (.member name)).toOption := by
  cases v with
  | map entries =>
    rw [follow_text, follow]
    cases Entries.get? entries name <;> rfl
  | _ => rfl

theorem follow_spelled (v : Value) (free : Bool) (l : Link) :
    (follow v (l.spelled free)).toOption = (follow v l).toOption :=
  l.spelled_cases (C := fun l' l => (follow v l').toOption = (follow v l).toOption) free rfl
    fun name _ => follow_index_text v name

theorem readValue_indexed (free : Bool) (steps : List Step) (v : Value) :
    (readValue (indexed free steps) v).toOption = (readValue steps v).toOption := by
  induction steps generalizing free v with
  | nil => rfl
  | cons m ms ih =>
    rw [indexed, readValue, readValue]
    obtain ⟨e, e', left, right⟩ | ⟨w, left, right⟩ :=
      cases_of_toOption_eq (follow_spelled v free m.link)
    · rw [left, right]
      rfl
    · rw [left, right]
      exact ih _ w

/-! ## Facts -/

variable {φ : Type} [FactOps φ]

/-- Facts of a kind that have the same at a member and at an index by its text, and whose parts are
of the same kind. -/
structure Uniform (P : φ → Prop) : Prop where
  part {f name} : P f → part? f (.index (.text name)) = part? f (.member name)
  leave {f name} : P f → Agree (leave (.index (.text name)) f) (leave (.member name) f)
  store {f name v} : P f → Agree (store (.index (.text name)) v f) (store (.member name) v f)
  inner {f l p putBack} : P f → part? f l = some (p, putBack) → P p ∧ ∀ q, P q → P (putBack q)
  kept_leave {f l} : P f → P (Chain.leave l f).2
  kept_store {f l v} : P f → P (Chain.store l v f).2

namespace Uniform

variable {P : φ → Prop} {f : φ} {free : Bool}

/-- If there is no fact of the kind, there is nothing to show. -/
theorem none : Uniform fun _ : φ => False where
  part := False.elim
  leave := False.elim
  store := False.elim
  inner := False.elim
  kept_leave := False.elim
  kept_store := False.elim

theorem part?_spelled (uniform : Uniform P) (kind : free = true → P f) (l : Link) :
    part? f (l.spelled free) = part? f l :=
  l.spelled_cases (C := fun l' l => part? f l' = part? f l) free rfl
    fun _ is => uniform.part (kind is)

theorem leave_spelled (uniform : Uniform P) (kind : free = true → P f) (l : Link) :
    Agree (Chain.leave (l.spelled free) f) (Chain.leave l f) :=
  l.spelled_cases (C := fun l' l => Agree (Chain.leave l' f) (Chain.leave l f)) free ⟨rfl, rfl⟩
    fun _ is => uniform.leave (kind is)

theorem store_spelled (uniform : Uniform P) (kind : free = true → P f) (l : Link) (v : Value) :
    Agree (Chain.store (l.spelled free) v f) (Chain.store l v f) :=
  l.spelled_cases (C := fun l' l => Agree (Chain.store l' v f) (Chain.store l v f)) free ⟨rfl, rfl⟩
    fun _ is => uniform.store (kind is)

/-- Where a link leads into a part, the chain is not any freer behind it. -/
theorem inner_free (uniform : Uniform P) (kind : free = true → P f) {l : Link} {p : φ}
    {putBack : φ → φ} (found : part? f l = some (p, putBack)) :
    (free || l.isCall) = free ∧ (free = true → P p) := by
  refine ⟨?_, fun is => (uniform.inner (kind is) found).1⟩
  cases l with
  | call => cases found
  | _ => exact Bool.or_false free

/-- The last link is never navigated, so what is found is the part of a link before it. -/
theorem part?_of_found {ms : List Step} {l : Link} {part : φ × (φ → φ)}
    (found : (if ms.isEmpty then Option.none else part? f l) = some part) :
    part? f l = some part := by
  split at found
  · cases found
  · exact found

theorem readFact_indexed (uniform : Uniform P) (steps : List Step) (kind : free = true → P f) :
    Agree (readFact (indexed free steps) f) (readFact steps f) := by
  induction steps generalizing free f with
  | nil => exact ⟨rfl, rfl⟩
  | cons m ms ih =>
    rw [indexed, readFact, readFact, isEmpty_indexed]
    dsimp only
    rw [uniform.part?_spelled kind]
    cases found : if ms.isEmpty then Option.none else part? f m.link with
    | some part =>
      obtain ⟨p, putBack⟩ := part
      obtain ⟨same_free, kind_p⟩ := uniform.inner_free kind (part?_of_found found)
      rw [same_free]
      obtain ⟨result, part⟩ := ih kind_p
      exact ⟨result, congrArg putBack part⟩
    | none =>
      obtain ⟨e, e', g, left, left'⟩ | ⟨w, g, left, left'⟩ :=
        (uniform.leave_spelled kind m.link).cases
      · rw [left, left']
        exact ⟨rfl, rfl⟩
      · rw [left, left']
        exact ⟨readValue_indexed _ ms w, rfl⟩

theorem writeFact_indexed (uniform : Uniform P) (v : Value) (steps : List Step)
    (kind : free = true → P f) :
    Agree (writeFact v (indexed free steps) f) (writeFact v steps f) := by
  induction steps generalizing free f with
  | nil => exact ⟨rfl, rfl⟩
  | cons m ms ih =>
    cases ms with
    | nil =>
      rw [indexed, indexed, writeFact, writeFact]
      dsimp only
      obtain ⟨e, e', g, stored, stored'⟩ | ⟨w, g, stored, stored'⟩ :=
        (uniform.store_spelled kind m.link v).cases <;>
          rw [stored, stored'] <;> exact ⟨rfl, rfl⟩
    | cons n ms =>
      rw [indexed, indexed, writeFact, writeFact]
      · dsimp only
        rw [uniform.part?_spelled kind]
        cases reached : part? f m.link with
        | some part =>
          obtain ⟨p, putBack⟩ := part
          obtain ⟨same_free, kind_p⟩ := uniform.inner_free kind reached
          have inner := ih kind_p
          rw [indexed] at inner
          rw [same_free]
          exact ⟨inner.1, congrArg putBack inner.2⟩
        | none => exact ⟨rfl, rfl⟩
      all_goals simp

theorem kept_readFact (uniform : Uniform P) (steps : List Step) (kind : P f) :
    P (readFact steps f).2 := by
  induction steps generalizing f with
  | nil => exact kind
  | cons m ms ih =>
    rw [readFact]
    split
    · next p putBack found =>
      obtain ⟨kind_p, put⟩ := uniform.inner kind (part?_of_found found)
      exact put _ (ih kind_p)
    · have kept := uniform.kept_leave (l := m.link) kind
      split <;> next left => rwa [left] at kept

theorem kept_writeFact (uniform : Uniform P) (v : Value) (steps : List Step) (kind : P f) :
    P (writeFact v steps f).2 := by
  induction steps generalizing f with
  | nil => exact kind
  | cons m ms ih =>
    cases ms with
    | nil =>
      have kept := uniform.kept_store (l := m.link) (v := v) kind
      rw [writeFact]
      split <;> next stored => rwa [stored] at kept
    | cons n ms =>
      rw [writeFact]
      · split
        · next p putBack reached =>
          obtain ⟨kind_p, put⟩ := uniform.inner kind reached
          exact put _ (ih kind_p)
        · exact kind
      · simp

end Uniform

/-! ## Documents -/

open Json

variable {j : Json}

theorem part?_text (j : Json) (name : String) :
    part? (Fact.document j) (.index (.text name)) = part? (Fact.document j) (.member name) := by
  have element : j.element? (.text name) = j.at? (.key name) := element?_eq j (.text name)
  change ((j.element? (.text name)).map Fact.document).map _ =
    ((j.field? name).map Fact.document).map _
  rw [element, field?_eq]
  cases there : j.at? (.key name) with
  | none => rfl
  | some inner =>
    have same (q : Fact) : Fact.putElement (.document j) (.text name) q =
        Fact.putMember (.document j) name q := by
      rcases at?_eq_some there with ⟨entries, k, rfl, ⟨⟩, -⟩ | ⟨_, _, _, _, ⟨⟩, _⟩
      cases q with
      | document new => exact congrArg Fact.document (putElement_eq rfl there new)
      | _ => rfl
    exact congrArg (fun g => some (Fact.document inner, g)) (funext same)

theorem leave_document_snd (j : Json) (l : Link) : (leave l (Fact.document j)).2 = .document j := by
  cases l with
  | member name =>
    cases field : j.field? name <;>
      simp [leave, FactOps.get?, Fact.get?, field, accessor, FactOps.call, Fact.call]
  | _ => rfl

theorem store_document_text (j : Json) (name : String) (v : Value) :
    Agree (store (.index (.text name)) v (Fact.document j))
      (store (.member name) v (Fact.document j)) := by
  cases j <;> exact ⟨rfl, rfl⟩

/-- A fact that is a document. -/
def IsDocument (f : Fact) : Prop := ∃ j, f = .document j

theorem IsDocument.update {f : Fact} (is : IsDocument f) {update : Fact → Except AccessError Fact}
    (kept : ∀ g, update f = .ok g → IsDocument g) : IsDocument (Access.ofUpdate update f).2 := by
  unfold Access.ofUpdate
  split
  · next g updated => exact kept g updated
  · exact is

theorem IsDocument.store {f : Fact} (is : IsDocument f) (l : Link) (v : Value) :
    IsDocument (store l v f).2 := by
  obtain ⟨j, rfl⟩ := is
  cases l with
  | call => exact ⟨j, rfl⟩
  | member | index =>
    refine IsDocument.update ⟨j, rfl⟩ fun g updated => ?_
    obtain ⟨j', -, rfl⟩ := map_eq_ok_iff.mp updated
    exact ⟨j', rfl⟩

theorem IsDocument.putMember {f : Fact} (is : IsDocument f) (name : String) (q : Fact) :
    IsDocument (f.putMember name q) := by
  obtain ⟨j, rfl⟩ := is
  unfold Fact.putMember
  split
  · exact ⟨_, rfl⟩
  · next same => cases same
  · exact ⟨j, rfl⟩

theorem IsDocument.putElement {f : Fact} (is : IsDocument f) (key : Value) (q : Fact) :
    IsDocument (f.putElement key q) := by
  obtain ⟨j, rfl⟩ := is
  unfold Fact.putElement
  split <;> exact ⟨_, rfl⟩

theorem uniform_document : Uniform IsDocument where
  part := by
    rintro _ name ⟨j, rfl⟩
    exact part?_text j name
  leave := by
    rintro _ name ⟨j, rfl⟩
    refine ⟨?_, ?_⟩
    · rw [leave_document, leave_document]
      rfl
    · rw [leave_document_snd, leave_document_snd]
  store := by
    rintro _ name v ⟨j, rfl⟩
    exact store_document_text j name v
  inner := by
    rintro _ l p putBack is reached
    obtain ⟨_, inner, -, -, rfl, -⟩ := put_of_part? (is.choose_spec ▸ reached)
    refine ⟨⟨inner, rfl⟩, fun q _ => ?_⟩
    cases l with
    | member name =>
      obtain ⟨_, -, eq⟩ := Option.map_eq_some_iff.mp reached
      cases eq
      exact is.putMember name q
    | index key =>
      obtain ⟨_, -, eq⟩ := Option.map_eq_some_iff.mp reached
      cases eq
      exact is.putElement key q
    | call => cases reached
  kept_leave := by
    rintro _ l ⟨j, rfl⟩
    exact ⟨j, leave_document_snd j l⟩
  kept_store is := is.store _ _

end Chain

end Rulebook
