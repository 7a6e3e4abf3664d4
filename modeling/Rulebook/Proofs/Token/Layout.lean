import Mathlib
import Rulebook.Proofs.Token.Joined

/-!
# How tokens are laid out in a text

A text with tokens is made of their texts and of gaps, which hold blanks and comments. Being laid
out so is the same as being read so.
-/

namespace Rulebook

/-! ## Comments -/

namespace Piece

variable {c : Char} {cs rest body : List Char} {piece : Piece} {m n : Nat}

theorem isBlank_of_isNewline (h : isNewline c = true) : isBlank c = true := by
  simp only [isNewline, isBlank, Bool.or_eq_true, decide_eq_true_eq] at h ⊢
  tauto

theorem comment?_line (all : ∀ b ∈ body, isNewline b = false)
    (stop : NotFirst (fun c => !isNewline c) rest) :
    comment? ('/' :: (body ++ rest)) = some (1 + body.length) := by
  rw [comment?, run_append (fun b mem => by rw [all b mem, Bool.not_false]) stop]

/-- A block comment ends at the first star with a slash behind it. -/
theorem blockEnd?_eq_some_iff : blockEnd? m cs = some n ↔
    ∃ body rest, cs = body ++ '*' :: '/' :: rest ∧ ¬ ['*', '/'] <:+: body ∧
      m + body.length + 2 = n := by
  induction m, cs using blockEnd?.induct with
  | case1 => simp [blockEnd?]
  | case2 m cs =>
    rw [blockEnd?, Option.some_inj]
    constructor
    · rintro rfl
      exact ⟨[], cs, rfl, by simp, rfl⟩
    · rintro ⟨_ | ⟨b, body⟩, rest, eq, closed, len⟩
      · exact len
      · -- the star and the slash would stand within the comment
        rcases body with _ | ⟨b', body⟩ <;> cases eq
        exact absurd (List.prefix_append ['*', '/'] body).isInfix closed
  | case3 m c cs other ih =>
    rw [blockEnd?.eq_3 _ _ _ other, ih]
    constructor
    · rintro ⟨body, rest, rfl, closed, rfl⟩
      refine ⟨c :: body, rest, rfl, ?_, by rw [List.length_cons]; omega⟩
      rw [List.infix_cons_iff, not_or]
      refine ⟨fun here => ?_, closed⟩
      obtain ⟨rfl, more, rfl⟩ := List.cons_prefix_cons.mp here
      exact other _ rfl rfl
    · rintro ⟨_ | ⟨b, body⟩, rest, eq, closed, rfl⟩
      · cases eq
        exact absurd rfl (other rest rfl)
      · cases eq
        have inside := (List.suffix_cons c body).isInfix
        refine ⟨body, rest, rfl, fun inner => closed (inner.trans inside), ?_⟩
        rw [List.length_cons]
        omega

theorem comment?_cases (h : comment? cs = some n) :
    (∃ body rest, cs = '/' :: body ++ rest ∧ (∀ b ∈ body, isNewline b = false) ∧
      NotFirst (fun c => !isNewline c) rest ∧ n = ('/' :: body).length) ∨
      ∃ body rest, cs = '*' :: body ++ ['*', '/'] ++ rest ∧ ¬ ['*', '/'] <:+: body ∧
        n = ('*' :: body ++ ['*', '/']).length := by
  unfold comment? at h
  split at h
  · next cs =>
    cases h
    let p c := !isNewline c
    refine .inl ⟨cs.takeWhile p, cs.dropWhile p, ?_, fun b mem => ?_, fun c first => ?_, ?_⟩
    · rw [List.cons_append, List.takeWhile_append_dropWhile]
    · simpa [p] using List.mem_takeWhile_imp mem
    · have stop := List.head?_dropWhile_not p cs
      rw [Option.mem_def.mp first] at stop
      exact stop
    · rw [List.length_cons, Nat.add_comm]
      rfl
  · next cs =>
    obtain ⟨body, rest, rfl, closed, rfl⟩ := blockEnd?_eq_some_iff.mp h
    refine .inr ⟨body, rest, by simp, closed, ?_⟩
    simp only [List.length_append, List.length_cons, List.length_nil]
    omega
  · cases h

theorem number?_piece (h : number? cs = some (piece, n)) : piece = .float ∨ piece = .integer := by
  have ends {b : Bool} {k : Nat} (h : (if b then some (integer, k) else none) = some (piece, n)) :
      piece = .float ∨ piece = .integer := by
    cases (Option.ite_none_right_eq_some.mp h).2
    exact .inr rfl
  unfold number? at h
  simp only at h
  split at h
  · split at h
    · cases h
      exact .inl rfl
    · exact ends h
  · exact ends h

theorem token?_ne (h : token? c cs = some (piece, n)) : piece ≠ .blank ∧ piece ≠ .comment := by
  unfold token? at h
  split at h
  · rcases number?_piece h with rfl | rfl <;> simp
  split at h
  · obtain ⟨k, -, eq⟩ := Option.map_eq_some_iff.mp h
    cases eq
    simp
  split at h
  · cases h
    simp
  split at h
  · cases h
    simp
  · obtain ⟨m, -, eq⟩ := Option.map_eq_some_iff.mp h
    cases eq
    simp

theorem first?_le (h : first? c cs = some (piece, n)) : n ≤ cs.length := by
  unfold first? at h
  split at h
  · cases h
    exact run_le _ _
  split at h
  · next found =>
    cases h
    exact (comment?_newline (Option.ite_none_right_eq_some.mp found).2 []).1
  · exact (token?_newline h []).1

theorem first?_comment (h : comment? cs = some n) : first? '/' cs = some (.comment, n) := by
  unfold first?
  rw [if_neg (by decide), if_pos rfl, h]

end Piece

namespace Ink

variable {body rest : List Char} {c : Char}

/-- A line comment without the newline that ends it. -/
def lineComment (body : List Char) : Ink := ⟨.comment, '/' :: '/' :: body⟩

def blockComment (body : List Char) : Ink := ⟨.comment, '/' :: '*' :: body ++ ['*', '/']⟩

theorem stands_lineComment (all : ∀ b ∈ body, Piece.isNewline b = false)
    (stop : NotFirst (fun c => !Piece.isNewline c) rest) : (lineComment body).Stands rest := by
  refine ⟨'/', '/' :: body, rfl, Piece.first?_comment ?_⟩
  rw [List.cons_append, Piece.comment?_line all stop, List.length_cons, Nat.add_comm]

theorem stands_blockComment (closed : ¬ ['*', '/'] <:+: body) (rest : List Char) :
    (blockComment body).Stands rest := by
  refine ⟨'/', '*' :: body ++ ['*', '/'], rfl, Piece.first?_comment ?_⟩
  rw [List.append_assoc]
  refine Piece.blockEnd?_eq_some_iff.mpr ⟨body, rest, rfl, closed, ?_⟩
  simp only [List.length_append, List.length_cons, List.length_nil]
  omega

theorem means_lineComment (body : List Char) : (lineComment body).Means none := fun _ => rfl

theorem means_blockComment (body : List Char) : (blockComment body).Means none := fun _ => rfl

theorem Means.ne {k : Ink} {kind : Token.Kind} (means : k.Means (some kind)) :
    k.piece ≠ .blank ∧ k.piece ≠ .comment := by
  constructor <;> intro piece <;> have none := means {} <;> rw [piece] at none <;> cases none

/-- A token is not empty and begins with no blank. -/
theorem Stands.exists_cons {k : Ink} {kind : Token.Kind} (h : k.Stands rest)
    (means : k.Means (some kind)) :
    ∃ c cs, k.text = c :: cs ∧ Piece.isBlank c = false := by
  obtain ⟨c, cs, text, first⟩ := h
  exact ⟨c, cs, text, Piece.isBlank_of_first? first means.ne.1⟩

end Ink

/-! ## Gaps -/

/-- Blanks and comments. A line comment is there with the newline that ends it. -/
inductive Gap : List Char → Prop
  | nil : Gap []
  | blank {c cs} : Piece.isBlank c = true → Gap cs → Gap (c :: cs)
  | line {body c cs} : (∀ b ∈ body, Piece.isNewline b = false) → Piece.isNewline c = true →
      Gap cs → Gap ('/' :: '/' :: body ++ c :: cs)
  | block {body cs} : ¬ ['*', '/'] <:+: body → Gap cs →
      Gap ('/' :: '*' :: body ++ ['*', '/'] ++ cs)

/-- The gap at the end of a text, where the end may stand for the newline of a line comment. -/
inductive Gap.AtEnd : List Char → Prop
  | gap {cs} : Gap cs → AtEnd cs
  | line {cs body} : Gap cs → (∀ b ∈ body, Piece.isNewline b = false) →
      AtEnd (cs ++ '/' :: '/' :: body)

namespace Gap

variable {g h body cs : List Char} {c : Char}

theorem append (hg : Gap g) (hh : Gap h) : Gap (g ++ h) := by
  induction hg with
  | nil => exact hh
  | blank is _ ih => exact .blank is ih
  | line all newline _ ih =>
    rw [List.append_assoc]
    exact .line all newline ih
  | block closed _ ih =>
    rw [List.append_assoc]
    exact .block closed ih

theorem append_atEnd (hg : Gap g) (hh : AtEnd h) : AtEnd (g ++ h) := by
  cases hh with
  | gap hh => exact .gap (hg.append hh)
  | line hh all =>
    rw [← List.append_assoc]
    exact .line (hg.append hh) all

theorem blanks (all : ∀ c ∈ g, Piece.isBlank c = true) : Gap g := by
  induction g with
  | nil => exact .nil
  | cons c g ih =>
    rw [List.forall_mem_cons] at all
    exact .blank all.1 (ih all.2)

/-- A line comment in front of a newline that stands in a gap. -/
theorem line_cons (all : ∀ b ∈ body, Piece.isNewline b = false) (newline : Piece.isNewline c = true)
    (hg : Gap (c :: g)) : Gap ('/' :: '/' :: body ++ c :: g) := by
  cases hg with
  | blank _ hg => exact .line all newline hg
  | line => cases newline
  | block => cases newline

theorem line_cons_atEnd (all : ∀ b ∈ body, Piece.isNewline b = false)
    (newline : Piece.isNewline c = true) (hg : AtEnd (c :: g)) :
    AtEnd ('/' :: '/' :: body ++ c :: g) := by
  generalize eq : c :: g = whole at hg
  cases hg with
  | gap hg =>
    subst eq
    exact .gap (hg.line_cons all newline)
  | line hg all' =>
    rcases List.cons_eq_append_iff.mp eq with ⟨-, eq⟩ | ⟨before, rfl, rfl⟩
    · cases eq
      cases newline
    · rw [← List.append_assoc]
      exact .line (hg.line_cons all newline) all'

end Gap

/-! ## Tokens with gaps between them -/

namespace Token

/-- The token that is written so from `p` on. -/
def writtenAt (p : Position) (k : Ink) (kind : Kind) : Token :=
  ⟨kind, String.ofList k.text, .ofPositions p (p.after k.text)⟩

/-- From a position on the text holds these tokens, a gap before each of them and one behind. Each
token ends where it does because of what follows. -/
inductive Laid : Position → List Char → List Token → Prop
  | nil {p g} : Gap.AtEnd g → Laid p g []
  | cons {p g k kind cs ts} : Gap g → k.Means (some kind) → k.Stands cs →
      Laid ((p.after g).after k.text) cs ts →
        Laid p (g ++ (k.text ++ cs)) (writtenAt (p.after g) k kind :: ts)

variable {p : Position} {g cs body : List Char} {c : Char} {ts us : List Token}

/-! ### What is laid out is read -/

/-- The piece at the front, and then what stands behind it. -/
theorem ReadFrom.ink {k : Ink} {kind : Option Kind} (stands : k.Stands cs) (means : k.Means kind)
    (h : ReadFrom (p.after k.text) cs ts) :
    ReadFrom p (k.text ++ cs) (ofLexeme ⟨k.piece, k.text, p⟩ kind ++ ts) := by
  obtain ⟨piece, text⟩ := k
  obtain ⟨c, ds, rfl, first⟩ := stands
  have taken : (ds ++ cs).take ds.length = ds := List.take_left
  have left : (ds ++ cs).drop ds.length = cs := List.drop_left
  have is : kindOf? ⟨piece, c :: (ds ++ cs).take ds.length, p⟩ = .ok kind := by
    rw [taken]
    exact means p
  have more : ReadFrom (p.after (c :: (ds ++ cs).take ds.length))
      ((ds ++ cs).drop ds.length) ts := by
    rw [taken, left]
    exact h
  have whole := ReadFrom.cons first is more
  rwa [taken] at whole

theorem ReadFrom.gap (hg : Gap g) (h : ReadFrom (p.after g) cs ts) : ReadFrom p (g ++ cs) ts := by
  induction hg generalizing p with
  | nil => exact h
  | blank is _ ih => exact (ih h).blank is
  | @line body c g all newline _ ih =>
    rw [Position.after_append] at h
    rw [List.append_assoc]
    have stands : (Ink.lineComment body).Stands (c :: g ++ cs) :=
      Ink.stands_lineComment all (notFirst_cons (by rw [newline, Bool.not_true]) _)
    exact .ink stands (Ink.means_lineComment body)
      ((ih h).blank (Piece.isBlank_of_isNewline newline))
  | block closed _ ih =>
    rw [Position.after_append] at h
    rw [List.append_assoc]
    exact .ink (Ink.stands_blockComment closed _) (Ink.means_blockComment _) (ih h)

theorem ReadFrom.atEnd (hg : Gap.AtEnd g) : ReadFrom p g [] := by
  cases hg with
  | gap hg =>
    have reads := ReadFrom.gap (p := p) hg .nil
    rwa [List.append_nil] at reads
  | @line g body hg all =>
    refine .gap hg ?_
    have stands : (Ink.lineComment body).Stands [] :=
      Ink.stands_lineComment all (by simp [NotFirst])
    have reads := ReadFrom.ink (p := p.after g) stands (Ink.means_lineComment body) .nil
    rwa [List.append_nil] at reads

theorem Laid.reads (h : Laid p cs ts) : ReadFrom p cs ts := by
  induction h with
  | nil atEnd => exact .atEnd atEnd
  | cons hg means stands _ ih => exact .gap hg (.ink stands means ih)

/-! ### What is read is laid out -/

theorem Laid.gap (hg : Gap g) (h : Laid (p.after g) cs ts) : Laid p (g ++ cs) ts := by
  cases h with
  | nil atEnd => exact .nil (hg.append_atEnd atEnd)
  | cons hg' means stands more =>
    rw [← Position.after_append p] at more ⊢
    rw [← List.append_assoc]
    exact .cons (hg.append hg') means stands more

/-- A line comment in front of a newline with the rest of the text. -/
theorem Laid.line (all : ∀ b ∈ body, Piece.isNewline b = false) (newline : Piece.isNewline c = true)
    (h : Laid (p.after ('/' :: '/' :: body)) (c :: cs) ts) :
    Laid p ('/' :: '/' :: body ++ c :: cs) ts := by
  generalize eq : c :: cs = whole at h
  cases h with
  | nil atEnd =>
    subst eq
    exact .nil (Gap.line_cons_atEnd all newline atEnd)
  | @cons _ g k kind cs' ts hg means stands more =>
    rcases List.cons_eq_append_iff.mp eq with ⟨rfl, eq⟩ | ⟨g, rfl, rfl⟩
    · -- no token begins with a newline
      obtain ⟨d, ds, text, front⟩ := stands.exists_cons means
      rw [text] at eq
      cases eq
      rw [Piece.isBlank_of_isNewline newline] at front
      cases front
    · rw [← Position.after_append p] at more ⊢
      rw [← List.append_assoc]
      exact .cons (hg.line_cons all newline) means stands more

theorem Laid.comment (h : Laid (p.after ('/' :: '/' :: body)) cs ts)
    (all : ∀ b ∈ body, Piece.isNewline b = false)
    (stop : NotFirst (fun c => !Piece.isNewline c) cs) : Laid p ('/' :: '/' :: body ++ cs) ts := by
  rcases cs with _ | ⟨c, cs⟩
  · generalize eq : ([] : List Char) = whole at h
    cases h with
    | nil => exact eq ▸ .nil (by rw [List.append_nil]; exact .line .nil all)
    | cons _ means stands _ =>
      obtain ⟨c, ds, text, -⟩ := stands.exists_cons means
      simp [text] at eq
  · exact .line all (by simpa using stop c rfl) h

theorem kindOf?_eq_none {l : Lexeme} (h : kindOf? l = .ok none) :
    l.piece = .blank ∨ l.piece = .comment := by
  rcases l with ⟨piece, text, p⟩
  cases piece with
  | blank => exact .inl rfl
  | comment => exact .inr rfl
  | integer =>
    simp only [kindOf?] at h
    split at h <;> cases h
  | float =>
    simp only [kindOf?] at h
    split at h
    · split at h <;> cases h
    · cases h
  | string =>
    simp only [kindOf?] at h
    rcases value : stringValue ⟨.string, text, p⟩ with e | s <;> rw [value] at h <;> cases h
  | word | operator | mark => cases h

/-- Behind a blank or a comment. -/
theorem Laid.skip {piece : Piece} {n : Nat} (first : Piece.first? c cs = some (piece, n))
    (is : piece = .blank ∨ piece = .comment)
    (h : Laid (p.after (c :: cs.take n)) (cs.drop n) ts) : Laid p (c :: cs) ts := by
  unfold Piece.first? at first
  split at first
  · next blank =>
    cases first
    have all : ∀ b ∈ c :: cs.take (Piece.run Piece.isBlank cs), Piece.isBlank b = true := by
      refine List.forall_mem_cons.mpr ⟨blank, fun b mem => ?_⟩
      rw [Piece.run, ← List.prefix_iff_eq_take.mp (List.takeWhile_prefix _)] at mem
      exact List.mem_takeWhile_imp mem
    have whole := Laid.gap (.blanks all) h
    rwa [List.cons_append, List.take_append_drop] at whole
  split at first
  · next m found =>
    cases first
    obtain ⟨rfl, found⟩ := Option.ite_none_right_eq_some.mp found
    rcases Piece.comment?_cases found with ⟨body, rest, rfl, all, stop, rfl⟩ |
      ⟨body, rest, rfl, closed, rfl⟩
    · rw [List.take_left, List.drop_left] at h
      exact h.comment all stop
    · rw [List.take_left, List.drop_left] at h
      have comment : Gap ('/' :: '*' :: body ++ ['*', '/'] ++ []) := .block closed .nil
      rw [List.append_nil] at comment
      exact .gap comment h
  · obtain ⟨blank, comment⟩ := Piece.token?_ne first
    rcases is with rfl | rfl <;> contradiction

theorem ReadFrom.laid (h : ReadFrom p cs ts) : Laid p cs ts := by
  induction h with
  | nil => exact .nil (.gap .nil)
  | @cons p c cs piece n kind ts first is more ih =>
    cases kind with
    | none => exact ih.skip first (kindOf?_eq_none is)
    | some kind =>
      have stands : Ink.Stands ⟨piece, c :: cs.take n⟩ (cs.drop n) := by
        refine ⟨c, cs.take n, rfl, ?_⟩
        rw [List.take_append_drop, List.length_take_of_le (Piece.first?_le first)]
        exact first
      have whole := Laid.cons (p := p) .nil (kindOf?_at is) stands ih
      rwa [List.nil_append, List.cons_append, List.take_append_drop] at whole

/-- A text has the tokens that are laid out in it, and an `eof` at its end. -/
theorem scan_eq_ok_iff_laid {text : List Char} : scan text = .ok ts ↔
    ∃ us, Laid {} text us ∧ ts = us ++ [eof (.point (({} : Position).after text))] := by
  rw [scan_eq_ok_iff]
  exact exists_congr fun us => and_congr_left fun _ => ⟨ReadFrom.laid, Laid.reads⟩

end Token

end Rulebook
