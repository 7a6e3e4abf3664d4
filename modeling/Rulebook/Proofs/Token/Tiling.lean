import Mathlib
import Rulebook.Proofs.Result
import Rulebook.Proofs.Text.Tracked
import Rulebook.Proofs.Token.Layout

/-!
# Tokens tile their text

The spans of the tokens and the ranges between them cover the text one behind the other. A span
holds the text of its token, and a range between two of them a gap.
-/

namespace Rulebook.Token

open String (utf8Len)

/-! ## One token -/

/-- The span of the token holds its text, and is placed where the text begins. -/
structure StandsIn (text : List Char) (t : Token) : Prop where
  kind : t.kind ≠ .eof
  nonempty : t.span.start < t.span.stop
  slice : Text.slice? text t.span.start t.span.stop = some t.text.toList
  place : t.span = { Span.atOffset text t.span.start with stop := t.span.stop }

variable {pre cs : List Char} {ts us : List Token}

theorem start_writtenAt (pre : List Char) (k : Ink) (kind : Kind) :
    (writtenAt (({} : Position).after pre) k kind).span.start = utf8Len pre :=
  Position.offset_after_empty pre

theorem stop_writtenAt (pre : List Char) (k : Ink) (kind : Kind) :
    (writtenAt (({} : Position).after pre) k kind).span.stop = utf8Len (pre ++ k.text) := by
  rw [← Position.offset_after_empty, Position.after_append]
  rfl

theorem standsIn_writtenAt {k : Ink} {kind : Kind} (means : k.Means (some kind))
    (stands : k.Stands cs) :
    (writtenAt (({} : Position).after pre) k kind).StandsIn (pre ++ (k.text ++ cs)) := by
  refine ⟨kindOf?_ne_eof (means {}), ?_, ?_, ?_⟩
  · obtain ⟨c, ds, text, -⟩ := stands.exists_cons means
    have pos := c.utf8Size_pos
    rw [start_writtenAt, stop_writtenAt, String.utf8Len_append, text, String.utf8Len_cons]
    omega
  · rw [start_writtenAt, stop_writtenAt, Text.slice?_append]
    exact congrArg some (String.toList_ofList).symm
  · rw [start_writtenAt, Span.atOffset_append]
    rfl

theorem Laid.standsIn (pre : List Char) (h : Laid (({} : Position).after pre) cs us) :
    ∀ t ∈ us, t.StandsIn (pre ++ cs) := by
  generalize at' : ({} : Position).after pre = p at h
  induction h generalizing pre with
  | nil => exact fun t mem => absurd mem List.not_mem_nil
  | @cons p g k kind cs ts _ means stands _ ih =>
    subst at'
    rw [List.forall_mem_cons]
    constructor
    · rw [← Position.after_append, ← List.append_assoc]
      exact standsIn_writtenAt means stands
    · have others := ih (pre ++ g ++ k.text) (by simp only [Position.after_append])
      simp only [List.append_assoc] at others ⊢
      exact others

/-! ## The tokens in order -/

theorem Laid.ordered {p : Position} (h : Laid p cs us) :
    (∀ t ∈ us, p.offset ≤ t.span.start) ∧ us.Pairwise fun t u => t.span.stop ≤ u.span.start := by
  induction h with
  | nil => exact ⟨fun t mem => absurd mem List.not_mem_nil, .nil⟩
  | @cons p g k kind cs ts _ _ _ _ ih =>
    obtain ⟨behind, ordered⟩ := ih
    refine ⟨List.forall_mem_cons.mpr ⟨?_, fun t mem => ?_⟩, .cons behind ordered⟩
    · exact (Nat.le_add_right ..).trans_eq (Position.offset_after p g).symm
    · refine Nat.le_trans ?_ (behind t mem)
      rw [Position.offset_after, Position.offset_after, Nat.add_assoc]
      exact Nat.le_add_right ..

/-! ## The gaps between them -/

/-- The ranges where no token stands: from `start` on one before each of them, and one behind. -/
def gapRanges (start stop : Nat) : List Token → List (Nat × Nat)
  | [] => [(start, stop)]
  | t :: ts => (start, t.span.start) :: gapRanges t.span.stop stop ts

/-- The texts of the tokens with a gap before each of them and one behind. -/
def written (gaps : List (List Char)) (us : List Token) (last : List Char) : List Char :=
  (gaps.zipWith (fun g t => g ++ t.text.toList) us).flatten ++ last

@[simp] theorem written_nil (last : List Char) : written [] [] last = last := rfl

@[simp] theorem written_cons (g : List Char) (gaps : List (List Char)) (t : Token) (us : List Token)
    (last : List Char) :
    written (g :: gaps) (t :: us) last = g ++ (t.text.toList ++ written gaps us last) := by
  simp [written]

/-- The gaps, and the gap at the end, are what stands between the tokens. -/
structure Filled (text : List Char) (start : Nat) (us : List Token) (gaps : List (List Char))
    (last : List Char) : Prop where
  slices : (gapRanges start (utf8Len text) us).map (fun r => Text.slice? text r.1 r.2) =
    (gaps ++ [last]).map some
  gap : ∀ g ∈ gaps, Gap g
  atEnd : Gap.AtEnd last

theorem Laid.filled (pre : List Char) (h : Laid (({} : Position).after pre) cs us) :
    ∃ gaps last, Filled (pre ++ cs) (utf8Len pre) us gaps last ∧ gaps.length = us.length ∧
      cs = written gaps us last := by
  generalize at' : ({} : Position).after pre = p at h
  induction h generalizing pre with
  | @nil p g atEnd =>
    have slice := Text.slice?_append pre g []
    rw [List.append_nil] at slice
    exact ⟨[], g, ⟨congrArg ([·]) slice, by simp, atEnd⟩, rfl, rfl⟩
  | @cons p g k kind cs ts gap _ _ _ ih =>
    subst at'
    have whole : pre ++ g ++ k.text ++ cs = pre ++ (g ++ (k.text ++ cs)) := by
      simp only [List.append_assoc]
    obtain ⟨gaps, last, filled, length, text⟩ := ih (pre ++ g ++ k.text) (by
      simp only [Position.after_append])
    have slices := filled.slices
    rw [whole] at slices
    refine ⟨g :: gaps, last, ⟨?_, ?_, filled.atEnd⟩, ?_, ?_⟩
    · rw [gapRanges, ← Position.after_append, start_writtenAt, stop_writtenAt, List.map_cons,
        slices, Text.slice?_append]
      rfl
    · exact List.forall_mem_cons.mpr ⟨gap, filled.gap⟩
    · rw [List.length_cons, List.length_cons, length]
    · rw [written_cons, ← text]
      exact congrArg (g ++ ·) (congrArg (· ++ cs) String.toList_ofList.symm)

/-! ## The whole text -/

/-- A text with tokens ends in one `eof` at its end. The others are not empty, stand in order and
hold their texts; what is between them are gaps, and together these are the text. A tracker that is
asked for the spans one behind the other finds the same places. -/
theorem scan_tiles {text : List Char} (h : scan text = .ok ts) :
    ∃ us gaps last, ts = us ++ [eof (.atOffset text (utf8Len text))] ∧
      (∀ t ∈ us, t.StandsIn text) ∧ (us.Pairwise fun t u => t.span.stop ≤ u.span.start) ∧
      Filled text 0 us gaps last ∧ gaps.length = us.length ∧
      text = written gaps us last ∧
      ({ text } : Tracker).spans (us.map fun t => (t.span.start, t.span.stop)) =
        us.map Token.span := by
  obtain ⟨us, laid, rfl⟩ := scan_eq_ok_iff_laid.mp h
  have stands := Laid.standsIn [] laid
  obtain ⟨gaps, last, filled, length, whole⟩ := Laid.filled [] laid
  have ending := Span.atOffset_append text []
  rw [List.append_nil] at ending
  refine ⟨us, gaps, last, by rw [ending], stands, laid.ordered.2, filled, length, whole, ?_⟩
  have start : ({ text } : Tracker).IsAt [] := ⟨rfl, rfl⟩
  rw [start.spans, List.map_map]
  · exact List.map_congr_left fun t mem => (stands t mem).place.symm
  · intro r mem
    obtain ⟨t, mem', rfl⟩ := List.mem_map.mp mem
    obtain ⟨before, behind, eq, begins, -⟩ := Text.slice?_eq_some_iff.mp (stands t mem').slice
    exact ⟨before, ⟨_, by rw [← List.append_assoc]; exact eq.symm⟩, begins⟩

/-- Comments before, between and behind, one of them around a letter of two bytes, and a string that
looks like the end of a comment. -/
def crowded : List Char := "/* é */a// b\r\n<=\"*/é\"/**///".toList

theorem scan_tiles_crowded : ∃ ts us gaps last, scan crowded = .ok ts ∧
    ts.map span = [⟨8, 9, 1, 8⟩, ⟨15, 17, 2, 1⟩, ⟨17, 23, 2, 3⟩, ⟨29, 29, 2, 14⟩] ∧
    ts = us ++ [eof (.atOffset crowded (utf8Len crowded))] ∧ Filled crowded 0 us gaps last ∧
    written gaps us last = crowded := by
  have spans : (scan crowded).toOption.map (·.map span) =
      some [⟨8, 9, 1, 8⟩, ⟨15, 17, 2, 1⟩, ⟨17, 23, 2, 3⟩, ⟨29, 29, 2, 14⟩] := by decide +kernel
  obtain ⟨ts, scanned, is⟩ := Option.map_eq_some_iff.mp spans
  have scanned := ok_iff_toOption.mpr scanned
  obtain ⟨us, gaps, last, eq, -, -, filled, -, whole, -⟩ := scan_tiles scanned
  exact ⟨ts, us, gaps, last, scanned, is, eq, filled, whole.symm⟩

end Rulebook.Token
