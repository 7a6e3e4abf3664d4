import Mathlib
import Rulebook.Proofs.Text.Slice

/-!
# Many ranges of one text

A tracker goes on from the place that it came to last. Whatever it is asked for, in any order, its
answers have the places that a scan from the top finds: the line counts the newlines before a place,
and the column the characters behind the last of them.
-/

namespace Rulebook

open String (utf8Len)

/-! ## Places -/

namespace Position

variable {p : Position} {pre : List Char} {offset : Nat}

theorem col_after_empty (text : List Char) :
    (({} : Position).after text).col = (text.rtakeWhile (· ≠ '\n')).length + 1 := by
  induction text using List.reverseRecOn with
  | nil => rfl
  | append_singleton text c ih =>
    rw [after_append, after_cons, after_nil, advance]
    split
    · next newline =>
      rw [List.rtakeWhile_concat_neg _ _ _ (by simp [newline])]
      rfl
    · next other =>
      rw [List.rtakeWhile_concat_pos _ _ _ (by simp [other]), List.length_append]
      exact congrArg (· + 1) ih

theorem seek_append (beyond : (p.after pre).offset ≤ offset) (cs : List Char) :
    p.seek offset (pre ++ cs) = (p.after pre).seek offset cs := by
  induction pre generalizing p with
  | nil => rfl
  | cons c pre ih =>
    have pos := c.utf8Size_pos
    have ahead : ¬ offset ≤ p.offset := by
      rw [offset_after, String.utf8Len_cons] at beyond
      omega
    rw [List.cons_append, seek, if_neg ahead, ih beyond, after_cons]

theorem exists_seek (p : Position) (offset : Nat) (text : List Char) :
    ∃ passed, text = passed ++ (p.seek offset text).2 ∧
      (p.seek offset text).1 = p.after passed := by
  induction text generalizing p with
  | nil => exact ⟨[], rfl, rfl⟩
  | cons c text ih =>
    rw [seek]
    split
    · exact ⟨[], rfl, rfl⟩
    · obtain ⟨passed, rest, place⟩ := ih (p.advance c)
      exact ⟨c :: passed, congrArg (c :: ·) rest, place⟩

/-- Offsets beyond the end stand for the end. -/
theorem seek_min (p : Position) (offset : Nat) (text : List Char) :
    p.seek (min offset (p.after text).offset) text = p.seek offset text := by
  rcases le_total offset (p.after text).offset with inside | beyond
  · rw [min_eq_left inside]
  · have atEnd : p.seek (p.after text).offset (text ++ []) = _ := seek_append le_rfl []
    have further : p.seek offset (text ++ []) = _ := seek_append beyond []
    rw [List.append_nil] at atEnd further
    rw [min_eq_right beyond, atEnd, further]
    rfl

end Position

/-! ## Trackers -/

namespace Tracker

variable {t : Tracker} {pre : List Char}

/-- What the tracker answers to one range after the other. -/
def spans (t : Tracker) : List (Nat × Nat) → List Span
  | [] => []
  | r :: rs => (t.span r.1 r.2).1 :: (t.span r.1 r.2).2.spans rs

/-- The tracker has come so far in the text. -/
structure IsAt (t : Tracker) (pre : List Char) : Prop where
  text : t.text = pre ++ t.rest
  here : t.here = ({} : Position).after pre

/-- Going on from there leads where beginning again at the top would. -/
theorem IsAt.span (h : t.IsAt pre) (start stop : Nat) :
    (t.span start stop).1 = { Span.atOffset t.text start with start := start, stop := stop } ∧
      (t.span start stop).2.text = t.text ∧ ∃ pre, (t.span start stop).2.IsAt pre := by
  unfold Tracker.span
  split
  next origin rest found =>
    have sought : origin.seek start rest = ({} : Position).seek start t.text := by
      split at found
      · cases found
        rfl
      · next ahead =>
        cases found
        rw [h.here, Nat.not_lt] at ahead
        rw [h.text, h.here, Position.seek_append ahead]
    rw [sought]
    refine ⟨?_, rfl, ?_⟩
    · rw [Span.atOffset, Position.seek_min]
    · obtain ⟨passed, whole, place⟩ := Position.exists_seek {} start t.text
      exact ⟨passed, whole, place⟩

theorem IsAt.answers (h : t.IsAt pre) (rs : List (Nat × Nat)) :
    t.spans rs = rs.map fun r => { Span.atOffset t.text r.1 with start := r.1, stop := r.2 } := by
  induction rs generalizing t pre with
  | nil => rfl
  | cons r rs ih =>
    obtain ⟨first, same, pre, next⟩ := h.span r.1 r.2
    rw [Tracker.spans, List.map_cons, ih next, same, first]

/-- A range that begins between two characters has the line and column of its first byte. -/
theorem IsAt.spans (h : t.IsAt pre) {rs : List (Nat × Nat)}
    (begin : ∀ r ∈ rs, ∃ before, before <+: t.text ∧ utf8Len before = r.1) :
    t.spans rs = rs.map fun r => { Span.atOffset t.text r.1 with stop := r.2 } := by
  rw [h.answers]
  refine List.map_congr_left fun r mem => ?_
  obtain ⟨before, ⟨behind, text⟩, start⟩ := begin r mem
  rw [← text, ← start, Span.atOffset_append, Span.point, Span.ofPositions,
    Position.offset_after_empty]

/-- One tracker that is asked for any ranges of a text in any order answers each with its own start
and end, and with the line and column that a scan of the text from the top finds for the start. For
a start between two characters these count the newlines before it, and the characters behind the
last of them. -/
theorem spans_eq_atOffset (text : List Char) (ranges : List (Nat × Nat)) :
    ({ text } : Tracker).spans ranges =
      ranges.map (fun r => { Span.atOffset text r.1 with start := r.1, stop := r.2 }) ∧
    ∀ before behind, Span.atOffset (before ++ behind) (utf8Len before) =
      ⟨utf8Len before, utf8Len before, before.count '\n' + 1,
        (before.rtakeWhile (· ≠ '\n')).length + 1⟩ := by
  have start : ({ text } : Tracker).IsAt [] := ⟨rfl, rfl⟩
  refine ⟨start.answers ranges, fun before behind => ?_⟩
  rw [Span.atOffset_append, Span.point, Span.ofPositions, Position.offset_after_empty,
    Position.line_after, Position.col_after_empty, Nat.add_comm]

-- forward over a letter of two bytes and a newline, back to the top, and to the same place again
example : ({ text := "é\nab".toList } : Tracker).spans [(4, 5), (0, 2), (2, 3), (3, 4), (3, 5)] =
    [⟨4, 5, 2, 2⟩, ⟨0, 2, 1, 1⟩, ⟨2, 3, 1, 2⟩, ⟨3, 4, 2, 1⟩, ⟨3, 5, 2, 1⟩] := by decide

end Tracker

end Rulebook
