import Mathlib
import Rulebook.Proofs.Token.Ends
import Rulebook.Proofs.Token.Tiling

/-!
# Tokens with other gaps between them

The tokens of a text may be written anew with any gaps between them that begin with a blank. What is
read then is the same but for the spans.
-/

namespace Rulebook.Token

/-- Gaps for these tokens. Where one token follows the other the gap begins with a blank, and so
does the gap behind them, if there is any. -/
structure Spacing (gaps : List (List Char)) (us : List Token) (last : List Char) : Prop where
  length : gaps.length = us.length
  gap : ∀ g ∈ gaps, Gap g
  between : ∀ g ∈ gaps.tail, ∃ c ∈ g.head?, Piece.isBlank c = true
  atEnd : Gap.AtEnd last
  behind : ∀ c ∈ last.head?, Piece.isBlank c = true

variable {gaps : List (List Char)} {us : List Token} {t : Token} {g last cs : List Char}

theorem Spacing.blank (h : Spacing (g :: gaps) (t :: us) last) :
    NotFirst (fun c => !Piece.isBlank c) (written gaps us last) := by
  rcases gaps with _ | ⟨g', gaps⟩ <;> rcases us with _ | ⟨u, us⟩
  · exact fun c mem => by simpa using h.behind c mem
  · cases h.length
  · cases h.length
  · obtain ⟨c, first, blank⟩ := h.between g' List.mem_cons_self
    obtain ⟨g', rfl⟩ := List.head?_eq_some_iff.mp first
    exact notFirst_cons (by simpa using blank) _

theorem Spacing.tail (h : Spacing (g :: gaps) (t :: us) last) : Spacing gaps us last where
  length := Nat.succ.inj h.length
  gap g mem := h.gap g (List.mem_cons_of_mem _ mem)
  between g mem := h.between g (List.mem_of_mem_tail mem)
  atEnd := h.atEnd
  behind := h.behind

theorem Laid.spaced {p : Position} (laid : Laid p cs us) (spacing : Spacing gaps us last)
    (q : Position) : ∃ us', Laid q (written gaps us last) us' ∧ us'.map bare = us.map bare := by
  induction laid generalizing gaps q with
  | nil =>
    rw [List.length_eq_zero_iff.mp spacing.length]
    exact ⟨[], .nil spacing.atEnd, rfl⟩
  | @cons p g k kind cs ts _ means stands _ ih =>
    rcases gaps with _ | ⟨g', gaps⟩
    · cases spacing.length
    obtain ⟨us', laid, same⟩ := ih spacing.tail ((q.after g').after k.text)
    have stands' := stands.blank means spacing.blank
    refine ⟨writtenAt (q.after g') k kind :: us', ?_, ?_⟩
    · rw [written_cons, writtenAt, String.toList_ofList]
      exact .cons (spacing.gap g' List.mem_cons_self) means stands' laid
    · rw [List.map_cons, List.map_cons, same]
      rfl

/-- Whatever gaps stand between the tokens of a text, the same tokens are read. -/
theorem scan_spaced {text : List Char} {ts : List Token} (h : scan text = .ok ts)
    (spacing : Spacing gaps ts.dropLast last) :
    ∃ ts', scan (written gaps ts.dropLast last) = .ok ts' ∧ ts'.map bare = ts.map bare := by
  obtain ⟨us, laid, rfl⟩ := scan_eq_ok_iff_laid.mp h
  rw [List.dropLast_concat] at spacing ⊢
  obtain ⟨us', laid', same⟩ := laid.spaced spacing {}
  refine ⟨_, scan_eq_ok_iff_laid.mpr ⟨us', laid', rfl⟩, ?_⟩
  rw [List.map_append, List.map_append, same]
  rfl

end Rulebook.Token
