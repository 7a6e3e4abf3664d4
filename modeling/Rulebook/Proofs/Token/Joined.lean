import Mathlib
import Rulebook.Proofs.Text.Slice
import Rulebook.Proofs.Token.Newline

/-!
# Tokens of texts that are joined by a newline

A text is read piece by piece from a position on. What is read does not depend on where the text
stands, but for the spans, and a newline behind it is one blank more, unless the text leaves a
comment open.
-/

namespace Rulebook

/-! ## Further down -/

/-- The same column, so many bytes and lines further down. -/
def Position.shift (bytes lines : Nat) (p : Position) : Position :=
  ⟨p.offset + bytes, p.line + lines, p.col⟩

/-- The span of the same text, so many bytes and lines further down. -/
def Span.shift (bytes lines : Nat) (s : Span) : Span :=
  ⟨s.start + bytes, s.stop + bytes, s.line + lines, s.col⟩

section

variable (bytes lines : Nat)

theorem Position.advance_shift (p : Position) (c : Char) :
    (p.shift bytes lines).advance c = (p.advance c).shift bytes lines := by
  unfold advance shift
  split <;> simp only [Position.mk.injEq, and_true] <;> omega

theorem Position.after_shift (p : Position) (text : List Char) :
    (p.shift bytes lines).after text = (p.after text).shift bytes lines := by
  induction text generalizing p with
  | nil => rfl
  | cons c text ih => rw [after_cons, after_cons, advance_shift, ih]

theorem Span.ofPositions_shift (p q : Position) :
    ofPositions (p.shift bytes lines) (q.shift bytes lines) =
      (ofPositions p q).shift bytes lines :=
  rfl

theorem Span.cover_shift (s t : Span) :
    (s.shift bytes lines).cover (t.shift bytes lines) = (s.cover t).shift bytes lines := by
  simp [cover, shift, Nat.add_max_add_right]

end

namespace Position

/-- Behind a text and a newline a line begins. -/
theorem after_newline (text : List Char) :
    (({} : Position).after text).advance '\n' =
      ({} : Position).shift (String.utf8Len text + 1) (text.count '\n' + 1) := by
  unfold advance
  rw [if_pos rfl, offset_after, line_after]
  simp only [shift, Position.mk.injEq, and_true]
  exact ⟨by simp; rfl, by omega⟩

end Position

/-! ## Reading from a position -/

namespace Token

def respan (f : Span → Span) (t : Token) : Token := { t with span := f t.span }

theorem kind_respan (f : Span → Span) {t : Token} {kind : Kind} (is : t.kind = kind) :
    (t.respan f).kind = kind :=
  is

/-- The token without its place. -/
def bare (t : Token) : Token := t.respan fun _ => {}

theorem bare_eq_bare_iff {t u : Token} : t.bare = u.bare ↔ t.kind = u.kind ∧ t.text = u.text := by
  rcases t with ⟨kind, text, span⟩
  rcases u with ⟨kind', text', span'⟩
  simp [bare, respan]

theorem shown_bare (t : Token) : t.bare.shown = t.shown := by
  rcases t with ⟨kind, text, span⟩
  cases kind <;> rfl

/-- What does not look at the span is the same for both. -/
theorem congr_of_bare {α : Type} (f : Token → α) (blind : ∀ t, f (bare t) = f t) {t u : Token}
    (same : t.bare = u.bare) : f t = f u := by
  rw [← blind t, same, blind u]

/-- The token that a lexeme is, if it is of a kind. -/
def ofLexeme (l : Lexeme) (kind : Option Kind) : List Token :=
  kind.toList.map fun k => ⟨k, String.ofList l.text, l.span⟩

theorem reverse_ofLexeme (l : Lexeme) (kind : Option Kind) :
    (ofLexeme l kind).reverse = ofLexeme l kind := by
  cases kind <;> rfl

theorem ofLexemes_cons {l : Lexeme} {kind : Option Kind} (is : kindOf? l = .ok kind)
    (found : List Token) (ls : List Lexeme) :
    ofLexemes found (l :: ls) = ofLexemes (ofLexeme l kind ++ found) ls := by
  rw [ofLexemes, is]
  cases kind <;> rfl

/-- The tokens of the text from a position on, without the end. -/
inductive ReadFrom : Position → List Char → List Token → Prop
  | nil {p} : ReadFrom p [] []
  | cons {p c cs piece n kind ts} : Piece.first? c cs = some (piece, n) →
      kindOf? ⟨piece, c :: cs.take n, p⟩ = .ok kind →
      ReadFrom (p.after (c :: cs.take n)) (cs.drop n) ts →
        ReadFrom p (c :: cs) (ofLexeme ⟨piece, c :: cs.take n, p⟩ kind ++ ts)

theorem readFrom_of_cutFrom {p : Position} {found ls : List Lexeme} {cs : List Char}
    (h : Lexeme.cutFrom p found cs = .ok ls) :
    ∃ more, ls = found.reverse ++ more ∧ ∀ {before ts}, ofLexemes before more = .ok ts →
      ∃ us, ts = before.reverse ++ us ∧ ReadFrom p cs us := by
  induction p, found, cs using Lexeme.cutFrom.induct with
  | case1 p found =>
    unfold Lexeme.cutFrom at h
    cases h
    refine ⟨[], (List.append_nil _).symm, fun read => ⟨[], ?_, .nil⟩⟩
    cases read
    rw [List.append_nil]
  | case2 p found c cs piece n first text ih =>
    unfold Lexeme.cutFrom at h
    rw [first] at h
    obtain ⟨more, rfl, reads⟩ := ih h
    refine ⟨⟨piece, text, p⟩ :: more, by simp, fun {before ts} read => ?_⟩
    rcases is : kindOf? ⟨piece, text, p⟩ with e | kind
    · rw [ofLexemes, is] at read
      cases read
    · rw [ofLexemes_cons is] at read
      obtain ⟨us, rfl, others⟩ := reads read
      refine ⟨_, ?_, .cons first is others⟩
      rw [List.reverse_append, reverse_ofLexeme, List.append_assoc]
  | case3 p found c cs first =>
    unfold Lexeme.cutFrom at h
    rw [first] at h
    cases h

theorem ReadFrom.cut {p : Position} {cs : List Char} {us : List Token} (h : ReadFrom p cs us)
    (found : List Lexeme) : ∃ more, Lexeme.cutFrom p found cs = .ok (found.reverse ++ more) ∧
      ∀ before, ofLexemes before more = .ok (before.reverse ++ us) := by
  induction h generalizing found with
  | nil =>
    refine ⟨[], ?_, fun before => ?_⟩
    · rw [Lexeme.cutFrom, List.append_nil]
    · rw [ofLexemes, List.append_nil]
  | @cons p c cs piece n kind ts first is _ ih =>
    obtain ⟨more, cut, reads⟩ := ih (⟨piece, c :: cs.take n, p⟩ :: found)
    refine ⟨⟨piece, c :: cs.take n, p⟩ :: more, ?_, fun before => ?_⟩
    · rw [Lexeme.cutFrom, first]
      simp only
      rw [cut, List.reverse_cons, List.append_assoc, List.singleton_append]
    · rw [ofLexemes_cons is, reads, List.reverse_append, reverse_ofLexeme, List.append_assoc]

theorem scan_eq_ok_iff {text : List Char} {ts : List Token} :
    scan text = .ok ts ↔
      ∃ us, ReadFrom {} text us ∧ ts = us ++ [eof (.point (({} : Position).after text))] := by
  constructor
  · intro h
    unfold scan Lexeme.cut at h
    rcases cut : Lexeme.cutFrom {} [] text with ⟨p, c, cs⟩ | ls
    · rw [cut] at h
      cases h
    · rw [cut] at h
      obtain ⟨more, eq, reads⟩ := readFrom_of_cutFrom cut
      rw [List.reverse_nil, List.nil_append] at eq
      subst eq
      rcases read : ofLexemes [] ls with e | before
      · simp only [read] at h
        cases h
      · simp only [read] at h
        cases h
        obtain ⟨us, eq, started⟩ := reads read
        exact ⟨us, started, by rw [eq]; rfl⟩
  · rintro ⟨us, reads, rfl⟩
    obtain ⟨more, cut, read⟩ := reads.cut []
    unfold scan Lexeme.cut
    rw [cut]
    simp only [List.reverse_nil, List.nil_append]
    rw [read []]
    rfl

/-! ## Reading elsewhere -/

/-- The place of a lexeme makes no difference to what it is. -/
theorem kindOf?_at {piece : Piece} {text : List Char} {p : Position} {kind : Option Kind}
    (h : kindOf? ⟨piece, text, p⟩ = .ok kind) (q : Position) :
    kindOf? ⟨piece, text, q⟩ = .ok kind := by
  cases piece with
  | blank | comment | word | operator | mark => exact h
  | integer =>
    simp only [kindOf?] at h ⊢
    split at h
    · exact h
    · cases h
  | float =>
    simp only [kindOf?] at h ⊢
    split at h
    · split at h
      · next finite => rwa [if_pos finite]
      · cases h
    · cases h
  | string =>
    simp only [kindOf?, stringValue] at h ⊢
    split at h
    · exact h
    · cases h

theorem ReadFrom.shift {p : Position} {cs : List Char} {ts : List Token} (h : ReadFrom p cs ts)
    (bytes lines : Nat) :
    ReadFrom (p.shift bytes lines) cs (ts.map (respan (Span.shift bytes lines))) := by
  induction h with
  | nil => exact .nil
  | @cons p c cs piece n kind ts first is _ ih =>
    rw [← Position.after_shift] at ih
    have here := ReadFrom.cons first (kindOf?_at is (p.shift bytes lines)) ih
    cases kind with
    | none => exact here
    | some kind =>
      simp only [ofLexeme, Lexeme.span, Position.after_shift, Span.ofPositions_shift] at here
      exact here

/-! ## Joining -/

section

variable {p : Position} {c : Char} {cs ds : List Char} {ts us : List Token}

theorem ReadFrom.eq_nil_of_blank (h : ReadFrom p cs ts)
    (all : ∀ c ∈ cs, Piece.isBlank c = true) : ts = [] := by
  cases h with
  | nil => rfl
  | @cons _ c cs piece n kind ts first is more =>
    rw [List.forall_mem_cons] at all
    rw [Piece.first?_blank all.1, Piece.run_eq_length all.2] at first
    cases first
    cases is
    rw [List.drop_length] at more
    cases more
    rfl

theorem ReadFrom.blank (is : Piece.isBlank c = true) (h : ReadFrom (p.advance c) cs ts) :
    ReadFrom p (c :: cs) ts := by
  have none (text : List Char) : kindOf? ⟨.blank, text, p⟩ = .ok none := rfl
  refine .cons (Piece.first?_blank is cs) (none _) ?_
  rcases cs with _ | ⟨d, cs⟩
  · exact h
  by_cases more : Piece.isBlank d = true
  · -- the blank behind it belongs to the same piece
    have taken : Piece.run Piece.isBlank (d :: cs) = Piece.run Piece.isBlank cs + 1 := by
      unfold Piece.run
      rw [List.takeWhile_cons_of_pos more, List.length_cons]
    rw [taken, List.take_succ_cons, List.drop_succ_cons, Position.after_cons]
    cases h with
    | cons first kind others =>
      rw [Piece.first?_blank more] at first
      cases first
      cases kind
      exact others
  · have none : Piece.run Piece.isBlank (d :: cs) = 0 := by
      unfold Piece.run
      rw [List.takeWhile_cons_of_neg more, List.length_nil]
    rw [none]
    exact h

theorem ReadFrom.blanks (all : ∀ c ∈ cs, Piece.isBlank c = true) (h : ReadFrom (p.after cs) ds ts) :
    ReadFrom p (cs ++ ds) ts := by
  induction cs generalizing p with
  | nil => exact h
  | cons c cs ih =>
    rw [List.forall_mem_cons] at all
    exact (ih all.2 h).blank all.1

/-- No slash stands before a star: they would be the beginning of a comment without an end. -/
def NoOpening (ts : List Token) : Prop :=
  ts.IsChain fun t u => ¬ (t.kind = .operator .slash ∧ u.kind = .operator .star)

theorem ReadFrom.first_star (h : ReadFrom p ('*' :: cs) ts) :
    ∃ t us, ts = t :: us ∧ t.kind = .operator .star := by
  cases h with
  | cons first is _ =>
    rw [Piece.first?_star] at first
    cases first
    cases is
    exact ⟨_, _, rfl, rfl⟩

/-- A text that leaves a comment open has a slash before a star among its tokens. -/
theorem ReadFrom.closes (h : ReadFrom p ('/' :: cs) ts) (closed : NoOpening ts)
    (star : cs.head? = some '*') : Piece.comment? cs ≠ none := by
  intro unclosed
  obtain ⟨cs, rfl⟩ := List.head?_eq_some_iff.mp star
  cases h with
  | cons first is more =>
    rw [Piece.first?_slash unclosed] at first
    cases first
    cases is
    obtain ⟨t, us, rfl, kind⟩ := more.first_star
    exact closed.rel ⟨rfl, kind⟩

theorem ReadFrom.join (h : ReadFrom p cs ts) (closed : NoOpening ts)
    (k : ReadFrom ((p.after cs).advance '\n') ds us) :
    ReadFrom p (cs ++ '\n' :: ds) (ts ++ us) := by
  induction h with
  | nil => exact k.blank rfl
  | @cons p c cs piece n kind ts first is more ih =>
    by_cases trailing : ∀ b ∈ c :: cs, Piece.isBlank b = true
    · rw [(ReadFrom.cons first is more).eq_nil_of_blank trailing]
      exact .blanks trailing (k.blank rfl)
    have ends (blank : Piece.isBlank c = true) : n < cs.length := by
      rw [Piece.first?_blank blank] at first
      cases first
      exact Piece.run_lt_length fun all => trailing (List.forall_mem_cons.mpr ⟨blank, all⟩)
    have comments (slash : c = '/') : cs.head? = some '*' → Piece.comment? cs ≠ none := by
      subst slash
      exact (ReadFrom.cons first is more).closes closed
    obtain ⟨le, front⟩ := Piece.first?_newline first ends comments ds
    have taken : (cs ++ '\n' :: ds).take n = cs.take n := List.take_append_of_le_length le
    have left : (cs ++ '\n' :: ds).drop n = cs.drop n ++ '\n' :: ds :=
      List.drop_append_of_le_length le
    have behind : (p.after (c :: cs.take n)).after (cs.drop n) = p.after (c :: cs) := by
      rw [← Position.after_append, List.cons_append, List.take_append_drop]
    rw [← behind] at k
    have others := ih closed.right_of_append k
    rw [← taken] at is others ⊢
    rw [← left] at others
    rw [List.append_assoc]
    exact .cons front is others

end

/-- The tokens of two texts with a newline between them. Those of the second stand further down. -/
theorem scan_join {s t : List Char} {us ts : List Token} {last : Token}
    (first : scan s = .ok (us ++ [last])) (second : scan t = .ok ts) (closed : NoOpening us) :
    scan (s ++ '\n' :: t) =
      .ok (us ++ ts.map (respan (Span.shift (String.utf8Len s + 1) (s.count '\n' + 1)))) := by
  obtain ⟨us', reads, eq⟩ := scan_eq_ok_iff.mp first
  obtain ⟨ts, reads', rfl⟩ := scan_eq_ok_iff.mp second
  obtain ⟨rfl, -⟩ := List.append_inj' eq rfl
  have moved := reads'.shift (String.utf8Len s + 1) (s.count '\n' + 1)
  rw [← Position.after_newline] at moved
  refine scan_eq_ok_iff.mpr ⟨_, reads.join closed moved, ?_⟩
  rw [List.map_append, List.append_assoc, Position.after_append, Position.after_cons,
    Position.after_newline, Position.after_shift]
  rfl

end Token

end Rulebook
