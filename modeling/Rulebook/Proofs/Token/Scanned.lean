import Mathlib
import Rulebook.Token.Scan

/-!
# Tokens come from lexemes

Each token of a text but the last is what one of its lexemes stands for; only the last is `eof`.
-/

namespace Rulebook

/-! ## Lexemes -/

/-- The piece stands at the front of some text. -/
def Lexeme.IsCut (l : Lexeme) : Prop :=
  ∃ c cs n, Piece.first? c cs = some (l.piece, n) ∧ l.text = c :: cs.take n

theorem Lexeme.isCut_of_cutFrom {p : Position} {found ls : List Lexeme} {cs : List Char}
    (h : cutFrom p found cs = .ok ls) (all : ∀ l ∈ found, l.IsCut) : ∀ l ∈ ls, l.IsCut := by
  induction p, found, cs using cutFrom.induct with
  | case1 p found =>
    unfold cutFrom at h
    cases h
    intro l mem
    exact all l (List.mem_reverse.mp mem)
  | case2 p found c cs piece n is text ih =>
    unfold cutFrom at h
    rw [is] at h
    refine ih h fun l mem => ?_
    rcases List.mem_cons.mp mem with rfl | mem
    · exact ⟨c, cs, n, is, rfl⟩
    · exact all l mem
  | case3 p found c cs is =>
    unfold cutFrom at h
    rw [is] at h
    cases h

namespace Token

/-! ## Kinds -/

theorem wordKind_cases (word : String) :
    (∃ v, wordKind word = .literal v ∧ (v = .bool true ∨ v = .bool false ∨ v = .nil)) ∨
      (∃ k, wordKind word = .keyword k) ∨ wordKind word = .identifier := by
  unfold wordKind
  split
  · exact .inl ⟨_, rfl, .inl rfl⟩
  split
  · exact .inl ⟨_, rfl, .inr (.inl rfl)⟩
  split
  · exact .inl ⟨_, rfl, .inr (.inr rfl)⟩
  split
  · next k _ => exact .inr (.inl ⟨k, rfl⟩)
  · exact .inr (.inr rfl)

/-- What a lexeme stands for, by its piece. -/
theorem kindOf?_cases {l : Lexeme} {k : Kind} (h : kindOf? l = .ok (some k)) :
    (l.piece = .integer ∧ ∃ n, Number.readInt? l.text = some n ∧ k = .literal (.int n)) ∨
      (l.piece = .float ∧ ∃ x, Number.readDecimal? l.text = some x ∧ x.isFinite = true ∧
        k = .literal (.float x)) ∨
      (l.piece = .string ∧ ∃ s, stringValue l = .ok s ∧ k = .literal (.text s)) ∨
      (l.piece = .word ∧ k = wordKind (String.ofList l.text)) ∨
      (∃ o, l.piece = .operator o ∧ k = .operator o) ∨ ∃ m, l.piece = .mark m ∧ k = .mark m := by
  unfold kindOf? at h
  split at h
  · cases h
  · cases h
  · next piece =>
    split at h
    · next n read =>
      cases h
      exact .inl ⟨piece, n, read, rfl⟩
    · cases h
  · next piece =>
    split at h
    · next x read =>
      split at h
      · next finite =>
        cases h
        exact .inr (.inl ⟨piece, x, read, finite, rfl⟩)
      · cases h
    · cases h
  · next piece =>
    rcases value : stringValue l with e | s
    · rw [value] at h
      cases h
    · rw [value] at h
      cases h
      exact .inr (.inr (.inl ⟨piece, s, rfl, rfl⟩))
  · next piece =>
    cases h
    exact .inr (.inr (.inr (.inl ⟨piece, rfl⟩)))
  · next o piece =>
    cases h
    exact .inr (.inr (.inr (.inr (.inl ⟨o, piece, rfl⟩))))
  · next m piece =>
    cases h
    exact .inr (.inr (.inr (.inr (.inr ⟨m, piece, rfl⟩))))

theorem kindOf?_ne_eof {l : Lexeme} {k : Kind} (h : kindOf? l = .ok (some k)) : k ≠ .eof := by
  rintro rfl
  rcases kindOf?_cases h with ⟨_, n, _, is⟩ | ⟨_, x, _, _, is⟩ | ⟨_, s, _, is⟩ | ⟨_, is⟩ |
    ⟨o, _, is⟩ | ⟨m, _, is⟩
  · cases is
  · cases is
  · cases is
  · rcases wordKind_cases (String.ofList l.text) with ⟨v, eq, -⟩ | ⟨k, eq⟩ | eq <;>
      rw [eq] at is <;> cases is
  · cases is
  · cases is

/-! ## Token lists -/

/-- The token is what a lexeme stands for. -/
def IsRead (t : Token) : Prop :=
  ∃ l : Lexeme, l.IsCut ∧ kindOf? l = .ok (some t.kind) ∧ t.text = String.ofList l.text

theorem isRead_of_ofLexemes {found : List Token} {ls : List Lexeme} {ts : List Token}
    (h : ofLexemes found ls = .ok ts) (cuts : ∀ l ∈ ls, l.IsCut) (all : ∀ t ∈ found, t.IsRead) :
    ∀ t ∈ ts, t.IsRead := by
  induction ls generalizing found with
  | nil =>
    cases h
    intro t mem
    exact all t (List.mem_reverse.mp mem)
  | cons l ls ih =>
    have others : ∀ l ∈ ls, l.IsCut := fun l mem => cuts l (List.mem_cons_of_mem _ mem)
    unfold ofLexemes at h
    rcases kind : kindOf? l with e | k
    · rw [kind] at h
      cases h
    · rw [kind] at h
      cases k with
      | none => exact ih h others all
      | some k =>
        refine ih h others fun t mem => ?_
        rcases List.mem_cons.mp mem with rfl | mem
        · exact ⟨l, cuts l List.mem_cons_self, kind, rfl⟩
        · exact all t mem

/-- The tokens of a text are read from it, up to an `eof` that is not. -/
theorem scan_eq_ok {text : List Char} {ts : List Token} (h : scan text = .ok ts) :
    ∃ before last, ts = before ++ [last] ∧ (∀ t ∈ before, t.IsRead) ∧ last.kind = .eof := by
  unfold scan at h
  split at h
  · cases h
  · next lexemes cut =>
    rcases read : ofLexemes [] lexemes with e | tokens
    · rw [read] at h
      cases h
    · rw [read] at h
      cases h
      have cuts := Lexeme.isCut_of_cutFrom cut (by simp)
      exact ⟨tokens, _, rfl, isRead_of_ofLexemes read cuts (by simp), rfl⟩

theorem IsRead.ne_eof {t : Token} (h : t.IsRead) : t.kind ≠ .eof := by
  obtain ⟨l, -, kind, -⟩ := h
  exact kindOf?_ne_eof kind

end Token

end Rulebook
