import Mathlib
import Rulebook.Proofs.Token.Scanned

/-!
# Pieces written one behind the other

A text that is put together from pieces is cut into those pieces again, if each of them ends where
the next one begins. Its tokens are then what the pieces stand for.
-/

namespace Rulebook

/-- A piece with its text, wherever it stands. -/
structure Ink where
  piece : Piece
  text : List Char

namespace Ink

variable {ks ls : List Ink} {rest : List Char}

def texts (ks : List Ink) : List Char := ks.flatMap Ink.text

@[simp] theorem texts_nil : texts [] = [] := rfl

@[simp] theorem texts_cons (k : Ink) (ks : List Ink) : texts (k :: ks) = k.text ++ texts ks :=
  List.flatMap_cons

@[simp] theorem texts_append (ks ls : List Ink) : texts (ks ++ ls) = texts ks ++ texts ls :=
  List.flatMap_append

/-! ## Cutting -/

/-- In front of `rest` the piece is cut as it is. -/
def Stands (k : Ink) (rest : List Char) : Prop :=
  ∃ c cs, k.text = c :: cs ∧ Piece.first? c (cs ++ rest) = some (k.piece, cs.length)

/-- Each piece stands in front of those behind it and `rest`. -/
def Stand : List Ink → List Char → Prop
  | [], _ => True
  | k :: ks, rest => k.Stands (texts ks ++ rest) ∧ Stand ks rest

theorem stand_append :
    Stand (ks ++ ls) rest ↔ Stand ks (texts ls ++ rest) ∧ Stand ls rest := by
  induction ks with
  | nil => simp [Stand]
  | cons k ks ih => simp [Stand, ih, and_assoc]

theorem Stand.length_le (h : Stand ks rest) : ks.length ≤ (texts ks).length := by
  induction ks with
  | nil => rfl
  | cons k ks ih =>
    obtain ⟨⟨c, cs, text, -⟩, stand⟩ := h
    have le := ih stand
    simp only [texts_cons, text, List.cons_append, List.length_cons, List.length_append]
    omega

/-- The pieces from a position on. -/
def place (p : Position) : List Ink → List Lexeme
  | [] => []
  | k :: ks => ⟨k.piece, k.text, p⟩ :: place (p.after k.text) ks

theorem cutFrom_texts (stand : Stand ks []) (p : Position) (found : List Lexeme) :
    Lexeme.cutFrom p found (texts ks) = .ok (found.reverse ++ place p ks) := by
  induction ks generalizing p found with
  | nil =>
    rw [texts_nil, Lexeme.cutFrom, place, List.append_nil]
  | cons k ks ih =>
    obtain ⟨⟨c, cs, text, first⟩, stand⟩ := stand
    rw [List.append_nil] at first
    rw [texts_cons, text, List.cons_append, Lexeme.cutFrom, first]
    simp only [List.take_left, List.drop_left]
    rw [ih stand, List.reverse_cons, List.append_assoc, place, text]
    rfl

/-! ## Reading -/

/-- Wherever the piece stands, it is a token of this kind, or none at all. -/
def Means (k : Ink) (kind : Option Token.Kind) : Prop :=
  ∀ p, Token.kindOf? ⟨k.piece, k.text, p⟩ = .ok kind

def AllMean (ks : List Ink) : Prop := ∀ k ∈ ks, ∃ kind, k.Means kind

@[simp] theorem allMean_nil : AllMean [] := List.forall_mem_nil _

@[simp] theorem allMean_cons {k : Ink} : AllMean (k :: ks) ↔ (∃ kind, k.Means kind) ∧ AllMean ks :=
  List.forall_mem_cons

@[simp] theorem allMean_append : AllMean (ks ++ ls) ↔ AllMean ks ∧ AllMean ls :=
  List.forall_mem_append

/-- The tokens are what the pieces stand for. -/
inductive Reads : List Ink → List Token → Prop
  | nil : Reads [] []
  | skip {k ks ts} : k.Means none → Reads ks ts → Reads (k :: ks) ts
  | token {k ks t ts} : k.Means (some t.kind) → t.text = String.ofList k.text → Reads ks ts →
      Reads (k :: ks) (t :: ts)

theorem ofLexemes_place (means : AllMean ks) (p : Position) (found : List Token) :
    ∃ ts, Token.ofLexemes found (place p ks) = .ok (found.reverse ++ ts) ∧ Reads ks ts := by
  induction ks generalizing p found with
  | nil => exact ⟨[], by rw [List.append_nil]; rfl, .nil⟩
  | cons k ks ih =>
    obtain ⟨⟨kind, is⟩, means⟩ := allMean_cons.mp means
    have others := ih means
    rw [place, Token.ofLexemes, is p]
    cases kind with
    | none =>
      obtain ⟨ts, read, reads⟩ := others (p.after k.text) found
      exact ⟨ts, read, .skip is reads⟩
    | some kind =>
      let t : Token := ⟨kind, String.ofList k.text, Lexeme.span ⟨k.piece, k.text, p⟩⟩
      obtain ⟨ts, read, reads⟩ := others (p.after k.text) (t :: found)
      refine ⟨t :: ts, ?_, .token is rfl reads⟩
      rw [List.reverse_cons, List.append_assoc] at read
      exact read

/-- One piece that has no meaning spoils the text. -/
theorem ofLexemes_place_error {k : Ink} (mem : k ∈ ks)
    (bad : ∀ p, ∃ e, Token.kindOf? ⟨k.piece, k.text, p⟩ = .error e) (p : Position)
    (found : List Token) : ∃ e, Token.ofLexemes found (place p ks) = .error e := by
  induction ks generalizing p found with
  | nil => simp at mem
  | cons k' ks ih =>
    rw [place, Token.ofLexemes]
    rcases is : Token.kindOf? ⟨k'.piece, k'.text, p⟩ with e | kind
    · exact ⟨e, rfl⟩
    · rcases List.mem_cons.mp mem with rfl | mem
      · obtain ⟨e, eq⟩ := bad p
        rw [eq] at is
        cases is
      · cases kind with
        | none => exact ih mem _ _
        | some kind => exact ih mem _ _

theorem scan_texts (stand : Stand ks []) (means : AllMean ks) :
    ∃ ts last, Token.scan (texts ks) = .ok (ts ++ [last]) ∧ last.kind = .eof ∧ Reads ks ts := by
  obtain ⟨ts, read, reads⟩ := ofLexemes_place means {} []
  refine ⟨ts, Token.eof (.point (({} : Position).after (texts ks))), ?_, rfl, reads⟩
  unfold Token.scan Lexeme.cut
  rw [cutFrom_texts stand {} [], List.reverse_nil, List.nil_append]
  simp only
  rw [read]
  rfl

theorem scan_texts_error {k : Ink} (stand : Stand ks []) (mem : k ∈ ks)
    (bad : ∀ p, ∃ e, Token.kindOf? ⟨k.piece, k.text, p⟩ = .error e) :
    ∃ e, Token.scan (texts ks) = .error e := by
  obtain ⟨e, eq⟩ := ofLexemes_place_error mem bad {} []
  refine ⟨e, ?_⟩
  unfold Token.scan Lexeme.cut
  rw [cutFrom_texts stand {} [], List.reverse_nil, List.nil_append]
  simp only
  rw [eq]
  rfl

/-! ## Taking token lists apart -/

namespace Reads

variable {k : Ink} {ts : List Token}

theorem length_le (h : Reads ks ts) : ts.length ≤ ks.length := by
  induction h with
  | nil => rfl
  | skip _ _ ih => exact Nat.le_succ_of_le ih
  | token _ _ _ ih => exact Nat.succ_le_succ ih

theorem append_inv (h : Reads (ks ++ ls) ts) :
    ∃ us vs, ts = us ++ vs ∧ Reads ks us ∧ Reads ls vs := by
  induction ks generalizing ts with
  | nil => exact ⟨[], ts, rfl, .nil, h⟩
  | cons k ks ih =>
    cases h with
    | skip is more =>
      obtain ⟨us, vs, rfl, reads, reads'⟩ := ih more
      exact ⟨us, vs, rfl, .skip is reads, reads'⟩
    | @token _ _ t _ is text more =>
      obtain ⟨us, vs, rfl, reads, reads'⟩ := ih more
      exact ⟨t :: us, vs, rfl, .token is text reads, reads'⟩

theorem skip_inv (h : Reads (k :: ks) ts) (none : k.Means none) : Reads ks ts := by
  cases h with
  | skip _ more => exact more
  | token is =>
    have eq := (is {}).symm.trans (none {})
    cases eq

theorem token_inv {kind : Token.Kind} (h : Reads (k :: ks) ts) (is : k.Means (some kind)) :
    ∃ t us, ts = t :: us ∧ t.kind = kind ∧ t.text = String.ofList k.text ∧ Reads ks us := by
  cases h with
  | skip none =>
    have eq := (is {}).symm.trans (none {})
    cases eq
  | @token _ _ t us is' text more =>
    have eq := (is {}).symm.trans (is' {})
    cases eq
    exact ⟨t, us, rfl, rfl, text, more⟩

theorem nil_inv (h : Reads [] ts) : ts = [] := by
  cases h
  rfl

theorem single_inv {kind : Token.Kind} (h : Reads [k] ts) (is : k.Means (some kind)) :
    ∃ t, ts = [t] ∧ t.kind = kind ∧ t.text = String.ofList k.text := by
  obtain ⟨t, us, rfl, kind, text, more⟩ := h.token_inv is
  rw [more.nil_inv]
  exact ⟨t, rfl, kind, text⟩

end Reads

end Ink

end Rulebook
