/-!
# Key-sorted entries

A finite map from text to values, as the list of its entries in ascending order of the keys. Text is
ordered by its code points.
-/

namespace Rulebook

abbrev Entries (α : Type) := List (String × α)

namespace Entries

variable {α : Type}

def get? (es : Entries α) (key : String) : Option α := List.lookup key es

def contains (es : Entries α) (key : String) : Bool := (get? es key).isSome

def keys (es : Entries α) : List String := List.map Prod.fst es

/-- Replaces the value of a key, or puts a new key in its place. -/
def insert : Entries α → String → α → Entries α
  | [], key, value => [(key, value)]
  | (k, v) :: es, key, value =>
    if key = k then (k, value) :: es
    else if key < k then (key, value) :: (k, v) :: es
    else (k, v) :: insert es key value

def erase (es : Entries α) (key : String) : Entries α := List.filter (fun e => e.1 ≠ key) es

def ofList (es : List (String × α)) : Entries α := es.foldl (fun m e => insert m e.1 e.2) []

@[simp] theorem get?_nil (key : String) : get? ([] : Entries α) key = none := rfl

theorem get?_cons (k : String) (v : α) (es : Entries α) (key : String) :
    get? ((k, v) :: es) key = if key = k then some v else get? es key := by
  rw [get?, List.lookup_cons]
  by_cases h : key = k
  · simp [h]
  · have : (key == k) = false := by simpa using h
    simp [get?, h, this]

theorem get?_insert (es : Entries α) (key : String) (value : α) (other : String) :
    get? (insert es key value) other = if other = key then some value else get? es other := by
  induction es with
  | nil => simp [insert, get?_cons]
  | cons e es ih =>
    obtain ⟨k, v⟩ := e
    unfold insert
    by_cases h : key = k
    · subst h
      by_cases ho : other = key <;> simp [get?_cons, ho]
    · by_cases hlt : key < k
      · simp [h, hlt, get?_cons]
      · by_cases ho : other = k
        · subst ho; simp [h, hlt, get?_cons, Ne.symm h]
        · simp [h, hlt, get?_cons, ho, ih]

theorem mem_keys_insert (es : Entries α) (key : String) (value : α) (other : String) :
    other ∈ keys (insert es key value) ↔ other = key ∨ other ∈ keys es := by
  induction es with
  | nil => simp [insert, keys]
  | cons e es ih =>
    obtain ⟨k, v⟩ := e
    unfold insert
    by_cases h : key = k
    · subst h; simp [keys]
    · by_cases hlt : key < k
      · simp [h, hlt, keys]
      · simp only [keys] at ih
        simp only [h, hlt, ↓reduceIte, keys, List.map_cons, List.mem_cons, ih]
        constructor <;> rintro (h | h | h) <;> simp [h]

theorem get?_erase (es : Entries α) (key other : String) :
    get? (erase es key) other = if other = key then none else get? es other := by
  induction es with
  | nil => simp [erase]
  | cons e es ih =>
    obtain ⟨k, v⟩ := e
    by_cases h : k = key
    · subst h
      have : erase ((k, v) :: es) k = erase es k := by simp [erase]
      rw [this, ih, get?_cons]
      split <;> rfl
    · have : erase ((k, v) :: es) key = (k, v) :: erase es key := by simp [erase, h]
      rw [this, get?_cons, get?_cons, ih]
      by_cases ho : other = k
      · subst ho; simp [h]
      · simp [ho]

/-! ## Order -/

/-- Keys strictly ascending, so each at most once. -/
def Sorted (es : Entries α) : Prop := List.Pairwise (· < ·) (keys es)

theorem sorted_insert {es : Entries α} (h : Sorted es) (key : String) (value : α) :
    Sorted (insert es key value) := by
  induction es with
  | nil => simp [insert, Sorted, keys]
  | cons e es ih =>
    obtain ⟨k, v⟩ := e
    obtain ⟨above, rest⟩ := List.pairwise_cons.mp h
    unfold insert
    split
    · exact h
    split
    · next lt =>
      refine List.pairwise_cons.mpr ⟨?_, h⟩
      intro other mem
      rcases List.mem_cons.mp mem with rfl | mem
      · exact lt
      · exact String.lt_trans lt (above other mem)
    · next ne nlt =>
      refine List.pairwise_cons.mpr ⟨?_, ih rest⟩
      intro other mem
      rcases (mem_keys_insert es key value other).mp mem with rfl | mem
      · exact Std.lt_of_le_of_ne (String.not_lt.mp nlt) (Ne.symm ne)
      · exact above other mem

theorem mem_of_get? {es : Entries α} {key : String} {value : α} (h : get? es key = some value) :
    (key, value) ∈ es := by
  induction es with
  | nil => cases h
  | cons e es ih =>
    obtain ⟨k, v⟩ := e
    rw [get?_cons] at h
    split at h
    · next eq =>
      cases h
      exact eq ▸ .head _
    · exact .tail _ (ih h)

/-- Writing back what a key has changes nothing. -/
theorem insert_of_get? {es : Entries α} (sorted : Sorted es) {key : String} {value : α}
    (h : get? es key = some value) : insert es key value = es := by
  induction es with
  | nil => cases h
  | cons e es ih =>
    obtain ⟨k, v⟩ := e
    obtain ⟨above, rest⟩ := List.pairwise_cons.mp sorted
    rw [get?_cons] at h
    unfold insert
    split at h
    · next eq =>
      cases h
      rw [if_pos eq]
    · next ne =>
      have lt := above key (List.mem_map_of_mem (mem_of_get? h))
      rw [if_neg ne, if_neg (fun gt => String.lt_irrefl k (String.lt_trans lt gt)), ih rest h]

theorem sorted_erase {es : Entries α} (h : Sorted es) (key : String) : Sorted (erase es key) :=
  List.Pairwise.sublist (List.Sublist.map _ List.filter_sublist) h

theorem sorted_ofList (es : List (String × α)) : Sorted (ofList es) := by
  suffices ∀ m : Entries α, Sorted m → Sorted (es.foldl (fun m e => insert m e.1 e.2) m) from
    this [] .nil
  induction es with
  | nil => exact fun m h => h
  | cons e es ih => exact fun m h => ih _ (sorted_insert h e.1 e.2)

/-! ## Listed entries -/

theorem get?_foldl_insert_iff {es : List (String × α)} (nodup : (es.map Prod.fst).Nodup)
    (m : Entries α) (key : String) (value : α) :
    get? (es.foldl (fun m e => insert m e.1 e.2) m) key = some value ↔
      (key, value) ∈ es ∨ (key ∉ es.map Prod.fst ∧ get? m key = some value) := by
  induction es generalizing m with
  | nil => simp
  | cons e es ih =>
    obtain ⟨k, v⟩ := e
    obtain ⟨new, nodup⟩ := List.nodup_cons.mp nodup
    rw [List.foldl_cons, ih nodup, get?_insert]
    by_cases same : key = k
    · subst same
      rw [if_pos rfl]
      constructor
      · rintro (mem | ⟨-, same⟩)
        · exact .inl (.tail _ mem)
        · exact .inl (Option.some.inj same ▸ .head _)
      · rintro (mem | ⟨out, -⟩)
        · rcases List.mem_cons.mp mem with same | mem
          · cases same
            exact .inr ⟨new, rfl⟩
          · exact .inl mem
        · exact absurd (.head _) out
    · simp [same]

/-- Different keys do not overwrite each other. -/
theorem get?_ofList_iff {es : List (String × α)} (nodup : (es.map Prod.fst).Nodup) (key : String)
    (value : α) : get? (ofList es) key = some value ↔ (key, value) ∈ es := by
  rw [ofList, get?_foldl_insert_iff nodup]
  simp

end Entries

end Rulebook
