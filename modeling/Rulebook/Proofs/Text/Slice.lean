import Mathlib
import Rulebook.Position

/-!
# Ranges of a text

A range of bytes holds a piece of a text if it begins and ends between two characters. What stands
before it gives its place.
-/

namespace Rulebook

open String (utf8Len)

/-! ## Slices -/

namespace Text

/-- What stands behind the first `n` bytes, unless they end inside a character. -/
def dropBytes? : Nat → List Char → Option (List Char)
  | 0, cs => some cs
  | _ + 1, [] => none
  | n + 1, c :: cs => if c.utf8Size ≤ n + 1 then dropBytes? (n + 1 - c.utf8Size) cs else none

/-- The first `n` bytes, unless they end inside a character. -/
def takeBytes? : Nat → List Char → Option (List Char)
  | 0, _ => some []
  | _ + 1, [] => none
  | n + 1, c :: cs =>
    if c.utf8Size ≤ n + 1 then (takeBytes? (n + 1 - c.utf8Size) cs).map (c :: ·) else none

/-- The text of a range of bytes, unless it is reversed or cuts a character. -/
def slice? (text : List Char) (start stop : Nat) : Option (List Char) :=
  if start ≤ stop then (dropBytes? start text).bind (takeBytes? (stop - start)) else none

variable {text pre cs post : List Char} {n start stop : Nat}

theorem dropBytes?_eq_some_iff :
    dropBytes? n text = some post ↔ ∃ pre, text = pre ++ post ∧ utf8Len pre = n := by
  induction n, text using dropBytes?.induct with
  | case1 cs =>
    rw [dropBytes?, Option.some_inj]
    constructor
    · rintro rfl
      exact ⟨[], rfl, rfl⟩
    · rintro ⟨pre, rfl, empty⟩
      rw [String.utf8Len_eq_zero.mp empty, List.nil_append]
  | case2 n =>
    rw [dropBytes?]
    constructor
    · rintro ⟨⟩
    · rintro ⟨pre, eq, some⟩
      rw [(List.append_eq_nil_iff.mp eq.symm).1] at some
      cases some
  | case3 n c cs fits ih =>
    rw [dropBytes?, if_pos fits, ih]
    constructor
    · rintro ⟨pre, rfl, len⟩
      exact ⟨c :: pre, rfl, by rw [String.utf8Len_cons, len, Nat.sub_add_cancel fits]⟩
    · rintro ⟨_ | ⟨d, pre⟩, eq, len⟩
      · cases len
      · cases eq
        rw [String.utf8Len_cons] at len
        exact ⟨pre, rfl, Nat.eq_sub_of_add_eq len⟩
  | case4 n c cs tight =>
    rw [dropBytes?, if_neg tight]
    constructor
    · rintro ⟨⟩
    · rintro ⟨_ | ⟨d, pre⟩, eq, len⟩
      · cases len
      · cases eq
        rw [String.utf8Len_cons] at len
        omega

theorem takeBytes?_eq_some_iff :
    takeBytes? n text = some pre ↔ ∃ post, text = pre ++ post ∧ utf8Len pre = n := by
  induction n, text using takeBytes?.induct generalizing pre with
  | case1 cs =>
    rw [takeBytes?, Option.some_inj]
    constructor
    · rintro rfl
      exact ⟨cs, rfl, rfl⟩
    · rintro ⟨post, -, empty⟩
      exact (String.utf8Len_eq_zero.mp empty).symm
  | case2 n =>
    rw [takeBytes?]
    constructor
    · rintro ⟨⟩
    · rintro ⟨post, eq, some⟩
      rw [(List.append_eq_nil_iff.mp eq.symm).1] at some
      cases some
  | case3 n c cs fits ih =>
    rw [takeBytes?, if_pos fits, Option.map_eq_some_iff]
    constructor
    · rintro ⟨pre, found, rfl⟩
      obtain ⟨post, rfl, len⟩ := ih.mp found
      exact ⟨post, rfl, by rw [String.utf8Len_cons, len, Nat.sub_add_cancel fits]⟩
    · rintro ⟨post, eq, len⟩
      rcases pre with _ | ⟨d, pre⟩
      · cases len
      · cases eq
        rw [String.utf8Len_cons] at len
        exact ⟨pre, ih.mpr ⟨post, rfl, Nat.eq_sub_of_add_eq len⟩, rfl⟩
  | case4 n c cs tight =>
    rw [takeBytes?, if_neg tight]
    constructor
    · rintro ⟨⟩
    · rintro ⟨post, eq, len⟩
      rcases pre with _ | ⟨d, pre⟩
      · cases len
      · cases eq
        rw [String.utf8Len_cons] at len
        omega

/-- A slice is a piece of the text, with as many bytes before it as its start says. -/
theorem slice?_eq_some_iff :
    slice? text start stop = some cs ↔
      ∃ pre post, text = pre ++ cs ++ post ∧ utf8Len pre = start ∧ start + utf8Len cs = stop := by
  unfold slice?
  constructor
  · intro h
    split at h
    · next le =>
      obtain ⟨behind, dropped, taken⟩ := Option.bind_eq_some_iff.mp h
      obtain ⟨pre, rfl, len⟩ := dropBytes?_eq_some_iff.mp dropped
      obtain ⟨post, rfl, len'⟩ := takeBytes?_eq_some_iff.mp taken
      exact ⟨pre, post, (List.append_assoc ..).symm, len, by omega⟩
    · cases h
  · rintro ⟨pre, post, rfl, rfl, rfl⟩
    rw [if_pos (Nat.le_add_right ..), Option.bind_eq_some_iff]
    refine ⟨cs ++ post, dropBytes?_eq_some_iff.mpr ⟨pre, List.append_assoc .., rfl⟩, ?_⟩
    exact takeBytes?_eq_some_iff.mpr ⟨post, rfl, by omega⟩

theorem slice?_append (pre cs post : List Char) :
    slice? (pre ++ (cs ++ post)) (utf8Len pre) (utf8Len (pre ++ cs)) = some cs := by
  rw [slice?_eq_some_iff, String.utf8Len_append]
  exact ⟨pre, post, (List.append_assoc ..).symm, rfl, rfl⟩

end Text

/-! ## Places -/

namespace Position

theorem offset_after (p : Position) (text : List Char) :
    (p.after text).offset = p.offset + utf8Len text := by
  induction text generalizing p with
  | nil => rfl
  | cons c text ih =>
    rw [after_cons, ih, String.utf8Len_cons, advance]
    split <;> simp only <;> omega

theorem line_after (p : Position) (text : List Char) :
    (p.after text).line = p.line + text.count '\n' := by
  induction text generalizing p with
  | nil => rfl
  | cons c text ih =>
    rw [after_cons, ih, List.count_cons, advance]
    split
    · next newline =>
      subst newline
      simp only [beq_self_eq_true, if_true]
      omega
    · next other => simp [other]

theorem seek_after (p : Position) (pre cs : List Char) :
    p.seek (p.after pre).offset (pre ++ cs) = (p.after pre, cs) := by
  induction pre generalizing p with
  | nil => cases cs <;> simp [seek]
  | cons c pre ih =>
    have pos := c.utf8Size_pos
    rw [List.cons_append, seek, if_neg, after_cons, ih]
    rw [offset_after, String.utf8Len_cons]
    omega

end Position

theorem Position.offset_after_empty (text : List Char) :
    (({} : Position).after text).offset = utf8Len text := by
  rw [offset_after]
  exact Nat.zero_add _

/-- The place behind the beginning of a text. -/
theorem Span.atOffset_append (pre cs : List Char) :
    atOffset (pre ++ cs) (utf8Len pre) = point (({} : Position).after pre) := by
  have inside : utf8Len pre ≤ (({} : Position).after (pre ++ cs)).offset := by
    rw [Position.after_append, Position.offset_after, Position.offset_after_empty]
    exact Nat.le_add_right ..
  unfold atOffset
  simp only [Nat.min_eq_left inside]
  rw [← Position.offset_after_empty pre, Position.seek_after]
  rfl

end Rulebook
