import Mathlib
import Rulebook.Proofs.Number.Written
import Rulebook.Proofs.Text.Shown
import Rulebook.Proofs.Token.Ink

/-!
# The forms of pieces

Where each written form ends, and what it means as a token.
-/

namespace Rulebook

/-! ## What stands behind -/

/-- The text begins with no character of this sort. -/
def NotFirst (p : Char → Bool) (cs : List Char) : Prop := ∀ c ∈ cs.head?, p c = false

theorem notFirst_cons {p : Char → Bool} {c : Char} (h : p c = false) (cs : List Char) :
    NotFirst p (c :: cs) := by
  rintro _ ⟨⟩
  exact h

namespace Piece

theorem run_append {p : Char → Bool} {cs rest : List Char} (all : ∀ c ∈ cs, p c = true)
    (stop : NotFirst p rest) : run p (cs ++ rest) = cs.length := by
  unfold run
  rw [List.takeWhile_append_of_pos all]
  cases rest with
  | nil => simp
  | cons c rest => simp [stop c rfl]

/-! ## Sorts of characters -/

theorem isWordStart_cases {c : Char} (h : isWordStart c = true) :
    c.isDigit = false ∧ isBlank c = false ∧ c ≠ '/' ∧ c ≠ '"' := by
  have digit : c.isDigit = false := by
    simp only [isWordStart, Char.isAlpha, Char.isUpper, Char.isLower, Char.isDigit,
      Bool.or_eq_true, Bool.and_eq_true, decide_eq_true_eq, Bool.and_eq_false_iff,
      decide_eq_false_iff_not, ge_iff_le, UInt32.le_iff_toNat_le] at h ⊢
    rcases h with (upper | lower) | rfl
    · simp at upper ⊢
      omega
    · simp at lower ⊢
      omega
    · decide
  refine ⟨digit, ?_, ?_, ?_⟩
  · unfold isBlank
    simp only [Bool.or_eq_false_iff, decide_eq_false_iff_not]
    refine ⟨⟨⟨?_, ?_⟩, ?_⟩, ?_⟩ <;> rintro rfl <;> cases h
  · rintro rfl
    cases h
  · rintro rfl
    cases h

theorem isDigit_cases {c : Char} (h : c.isDigit = true) : isBlank c = false ∧ c ≠ '/' := by
  constructor
  · unfold isBlank
    simp only [Bool.or_eq_false_iff, decide_eq_false_iff_not]
    refine ⟨⟨⟨?_, ?_⟩, ?_⟩, ?_⟩ <;> rintro rfl <;> cases h
  · rintro rfl
    cases h

theorem isWordChar_eq_false {c : Char} (h : isWordChar c = false) :
    c.isDigit = false ∧ isWordStart c = false := by
  unfold isWordChar Char.isAlphanum at h
  unfold isWordStart
  simp only [Bool.or_eq_false_iff] at h ⊢
  exact ⟨h.1.2, h.1.1, h.2⟩

/-! ## Pieces at the front -/

theorem first?_of_token? {c : Char} (blank : isBlank c = false) (slash : c ≠ '/') (cs : List Char) :
    first? c cs = token? c cs := by
  unfold first?
  rw [blank, if_neg Bool.false_ne_true, if_neg slash]

theorem isBlank_of_first? {c : Char} {cs : List Char} {piece : Piece} {n : Nat}
    (h : first? c cs = some (piece, n)) (ne : piece ≠ .blank) : isBlank c = false := by
  unfold first? at h
  split at h
  · cases h
    exact absurd rfl ne
  · next other => simpa using other

theorem first?_equals (cs : List Char) :
    ∃ o n, first? '=' cs = some (.operator o, n) ∧ (o = .equal ∨ o = .assign) := by
  have found : ∃ o n, operator? '=' cs.head? = some (o, n) ∧ (o = .equal ∨ o = .assign) := by
    by_cases twice : cs.head? = some '='
    · rw [twice]
      exact ⟨.equal, 1, rfl, .inl rfl⟩
    · refine ⟨.assign, 0, ?_, .inr rfl⟩
      unfold operator?
      split <;> simp_all
  obtain ⟨o, n, eq, which⟩ := found
  refine ⟨o, n, ?_, which⟩
  rw [first?_of_token? rfl (by decide), token?, if_neg (by decide), if_neg (by decide),
    if_neg (by decide), eq]

theorem first?_word {c : Char} {cs rest : List Char} (start : isWordStart c = true)
    (all : ∀ c ∈ cs, isWordChar c = true) (stop : NotFirst isWordChar rest) :
    first? c (cs ++ rest) = some (.word, cs.length) := by
  obtain ⟨digit, blank, slash, quote⟩ := isWordStart_cases start
  rw [first?_of_token? blank slash]
  unfold token?
  rw [digit, if_neg Bool.false_ne_true, if_neg quote, start, if_pos rfl, run_append all stop]

theorem first?_digit {d : Char} (digit : d.isDigit = true) (cs : List Char) :
    first? d cs = number? cs := by
  obtain ⟨blank, slash⟩ := isDigit_cases digit
  rw [first?_of_token? blank slash]
  unfold token?
  rw [digit, if_pos rfl]

theorem exponent?_eq_none {rest : List Char} (stop : NotFirst isWordChar rest) :
    exponent? rest = none := by
  cases rest with
  | nil => rfl
  | cons c rest =>
    have other := stop c rfl
    simp only [exponent?]
    rw [if_neg]
    rintro (rfl | rfl) <;> cases other

theorem endsNumber_of_stop {rest : List Char} (stop : NotFirst isWordChar rest) :
    endsNumber rest = true := by
  cases rest with
  | nil => rfl
  | cons c rest => simp [endsNumber, (isWordChar_eq_false (stop c rfl)).2]

theorem notFirst_isDigit {rest : List Char} (stop : NotFirst isWordChar rest) :
    NotFirst Char.isDigit rest :=
  fun c mem => (isWordChar_eq_false (stop c mem)).1

theorem number?_integer {ds rest : List Char} (all : ∀ d ∈ ds, d.isDigit = true)
    (stop : NotFirst isWordChar rest) (point : NotFirst (· = '.') rest) :
    number? (ds ++ rest) = some (.integer, ds.length) := by
  have none : fraction? rest = none := by
    unfold fraction?
    split
    · have eq := point _ rfl
      simp at eq
    · exact exponent?_eq_none stop
  unfold number?
  simp only
  rw [run_append all (notFirst_isDigit stop), List.drop_left, none]
  simp only
  rw [endsNumber_of_stop stop, if_pos rfl]

theorem number?_float {whole fraction rest : List Char}
    (wholes : ∀ d ∈ whole, d.isDigit = true) (fractions : ∀ d ∈ fraction, d.isDigit = true)
    (some : fraction ≠ []) (stop : NotFirst isWordChar rest) :
    number? (whole ++ '.' :: fraction ++ rest) =
      Option.some (.float, (whole ++ '.' :: fraction).length) := by
  have found : fraction? ('.' :: (fraction ++ rest)) = Option.some (1 + fraction.length) := by
    have pos := List.length_pos_iff.mpr some
    unfold fraction?
    simp only
    rw [run_append fractions (notFirst_isDigit stop), if_neg (by omega), List.drop_left,
      exponent?_eq_none stop, Option.getD_none, Nat.add_zero]
  have dropped : ('.' :: (fraction ++ rest)).drop (1 + fraction.length) = rest := by
    rw [Nat.add_comm, List.drop_succ_cons, List.drop_left]
  unfold number?
  simp only
  rw [List.append_assoc, List.cons_append, run_append wholes (notFirst_cons rfl _),
    List.drop_left, found]
  simp only
  rw [dropped, endsNumber_of_stop stop, if_pos rfl, List.length_append, List.length_cons,
    Nat.add_comm 1]

end Piece

/-! ## Forms -/

namespace Ink

def blank (cs : List Char) : Ink := ⟨.blank, cs⟩

def space : Ink := blank [' ']

def mark (m : Mark) : Ink := ⟨.mark m, [m.char]⟩

def op (o : Operator) : Ink := ⟨.operator o, o.text.toList⟩

def word (s : String) : Ink := ⟨.word, s.toList⟩

/-- A text as it is displayed. -/
def quoted (s : String) : Ink := ⟨.string, (Text.Quoted.shown s).toList⟩

def integer (ds : List Char) : Ink := ⟨.integer, ds⟩

def float (cs : List Char) : Ink := ⟨.float, cs⟩

variable {rest : List Char}

/-! ### Where they end -/

theorem stands_blank {c : Char} {cs : List Char} (all : ∀ b ∈ c :: cs, Piece.isBlank b = true)
    (stop : NotFirst Piece.isBlank rest) : (blank (c :: cs)).Stands rest := by
  refine ⟨c, cs, rfl, ?_⟩
  unfold Piece.first?
  rw [all c List.mem_cons_self, if_pos rfl,
    Piece.run_append (fun c mem => all c (List.mem_cons_of_mem _ mem)) stop]
  rfl

theorem stands_mark (m : Mark) : (mark m).Stands rest := by
  refine ⟨m.char, [], rfl, ?_⟩
  cases m <;> rfl

theorem stands_op (o : Operator) : (op o).Stands (' ' :: rest) := by
  cases o <;> exact ⟨_, _, rfl, rfl⟩

theorem stands_minus : (op .minus).Stands rest := ⟨'-', [], rfl, rfl⟩

theorem stands_bang (stop : NotFirst (· = '=') rest) : (op .bang).Stands rest := by
  refine ⟨'!', [], rfl, ?_⟩
  cases rest with
  | nil => rfl
  | cons c rest =>
    have ne : c ≠ '=' := by simpa using stop c rfl
    unfold Piece.first? Piece.token? Piece.operator?
    simp [Piece.isBlank, Piece.isWordStart, ne]
    rfl

/-- Written like a name. -/
def IsWord (s : String) : Prop :=
  ∃ c cs, s.toList = c :: cs ∧ Piece.isWordStart c = true ∧ ∀ c ∈ cs, Piece.isWordChar c = true

/-- So that the words of the language can be checked. -/
instance : DecidablePred IsWord := fun s =>
  decidable_of_iff (s.toList.head?.any Piece.isWordStart = true ∧
    s.toList.tail.all Piece.isWordChar = true) <| by
      unfold IsWord
      rcases s.toList with _ | ⟨c, cs⟩ <;> simp

theorem stands_word {s : String} (is : IsWord s) (stop : NotFirst Piece.isWordChar rest) :
    (word s).Stands rest := by
  obtain ⟨c, cs, eq, start, all⟩ := is
  exact ⟨c, cs, eq, Piece.first?_word start all stop⟩

theorem stands_quoted (s : String) : (quoted s).Stands rest := by
  refine ⟨'"', Text.Quoted.shownBody s.toList ++ ['"'], Text.Quoted.toList_shown s, ?_⟩
  have ends := Text.Quoted.stringEnd?_shownBody s.toList rest 0
  rw [Nat.zero_add] at ends
  rw [Piece.first?_of_token? rfl (by decide), List.append_assoc, List.singleton_append,
    List.length_append]
  change (Piece.stringEnd? 0 _).map _ = _
  rw [ends]
  rfl

theorem stands_integer {ds : List Char} (some : ds ≠ []) (all : ∀ d ∈ ds, d.isDigit = true)
    (stop : NotFirst Piece.isWordChar rest) (point : NotFirst (· = '.') rest) :
    (integer ds).Stands rest := by
  cases ds with
  | nil => exact absurd rfl some
  | cons d ds =>
    refine ⟨d, ds, rfl, ?_⟩
    rw [Piece.first?_digit (all d List.mem_cons_self)]
    exact Piece.number?_integer (fun d mem => all d (List.mem_cons_of_mem _ mem)) stop point

theorem stands_float {cs : List Char} (pointed : Number.Pointed cs)
    (stop : NotFirst Piece.isWordChar rest) : (float cs).Stands rest := by
  obtain ⟨whole, fraction, rfl, some, some', wholes, fractions⟩ := pointed
  cases whole with
  | nil => exact absurd rfl some
  | cons d whole =>
    refine ⟨d, whole ++ '.' :: fraction, rfl, ?_⟩
    rw [Piece.first?_digit (wholes d List.mem_cons_self)]
    exact Piece.number?_float (fun d mem => wholes d (List.mem_cons_of_mem _ mem)) fractions some'
      stop

/-! ### What they mean -/

theorem means_blank (cs : List Char) : (blank cs).Means none := fun _ => rfl

theorem means_mark (m : Mark) : (mark m).Means (some (.mark m)) := fun _ => rfl

theorem means_op (o : Operator) : (op o).Means (some (.operator o)) := fun _ => rfl

theorem means_word {s : String} {kind : Token.Kind} (is : Token.wordKind s = kind) :
    (word s).Means (some kind) := by
  intro p
  unfold Token.kindOf? word
  simp only [String.ofList_toList, is]

theorem means_integer {ds : List Char} {n : Int64} (read : Number.readInt? ds = some n) :
    (integer ds).Means (some (.literal (.int n))) := by
  intro p
  unfold Token.kindOf? integer
  simp only [read]

theorem means_float {cs : List Char} {x : Float} (read : Number.readDecimal? cs = some x)
    (finite : x.isFinite = true) : (float cs).Means (some (.literal (.float x))) := by
  intro p
  unfold Token.kindOf? float
  simp only [read, finite, if_true]

theorem body_quoted (s : String) :
    ((Text.Quoted.shown s).toList.drop 1).dropLast = Text.Quoted.shownBody s.toList := by
  rw [Text.Quoted.toList_shown, List.drop_one, List.tail_cons, List.dropLast_concat]

theorem means_quoted {s : String} (plain : Text.Quoted.PlainText s) :
    (quoted s).Means (some (.literal (.text s))) := by
  intro p
  have value : Token.stringValue ⟨.string, (Text.Quoted.shown s).toList, p⟩ = .ok s := by
    unfold Token.stringValue
    simp only
    rw [body_quoted, Text.Quoted.decode_shownBody plain]
    simp only [String.ofList_toList]
  change (Token.stringValue ⟨.string, (Text.Quoted.shown s).toList, p⟩).map _ = _
  rw [value]
  rfl

theorem kindOf?_quoted_error {s : String} (other : ¬ Text.Quoted.PlainText s) (p : Position) :
    ∃ e, Token.kindOf? ⟨(quoted s).piece, (quoted s).text, p⟩ = .error e := by
  unfold Text.Quoted.PlainText at other
  push Not at other
  obtain ⟨e, bad⟩ := Text.Quoted.decode_shownBody_error other
  have value : ∃ f, Token.stringValue ⟨.string, (Text.Quoted.shown s).toList, p⟩ = .error f := by
    unfold Token.stringValue
    simp only
    rw [body_quoted, bad]
    exact ⟨_, rfl⟩
  obtain ⟨f, value⟩ := value
  refine ⟨f, ?_⟩
  change (Token.stringValue ⟨.string, (Text.Quoted.shown s).toList, p⟩).map _ = _
  rw [value]
  rfl

end Ink

end Rulebook
