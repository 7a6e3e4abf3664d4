import Mathlib
import Rulebook.Proofs.Token.Layout

/-!
# Where tokens end

A token goes on as far as it can, so what stands behind it must not continue it. Whether it does is
decided by one character, whatever comes after that.
-/

namespace Rulebook

namespace Piece

/-- Whether a piece of this sort surely ends in front of the character. -/
def endsBefore : Piece → Char → Bool
  | .word, d | .float, d => !isWordChar d
  | .integer, d => !isWordChar d && d ≠ '.'
  | .operator .slash, d => d ≠ '/' && d ≠ '*'
  | .operator .greater, d | .operator .less, d | .operator .bang, d | .operator .assign, d => d ≠ '='
  | _, _ => true

/-- The text is empty or ends a piece of this sort by its first character. -/
def Ends (piece : Piece) (rest : List Char) : Prop := ∀ d ∈ rest.head?, piece.endsBefore d = true

variable {c : Char} {cs rest rest' : List Char} {piece : Piece} {m n : Nat}

theorem ends_of_blank (blank : NotFirst (fun c => !isBlank c) rest) : piece.Ends rest := by
  intro d mem
  have is := blank d mem
  simp only [Bool.not_eq_false', isBlank, Bool.or_eq_true, decide_eq_true_eq] at is
  rcases is with ((rfl | rfl) | rfl) | rfl <;> cases piece <;> first
    | rfl
    | next o => cases o <;> rfl

/-! ## Runs and strings -/

theorem run_append_eq_length {p : Char → Bool} (h : run p (cs ++ rest) = cs.length) :
    (∀ c ∈ cs, p c = true) ∧ NotFirst p rest := by
  induction cs with
  | nil =>
    refine ⟨List.forall_mem_nil _, ?_⟩
    rintro d first
    cases rest with
    | nil => cases first
    | cons c rest =>
      cases first
      by_contra is
      rw [Bool.not_eq_false] at is
      rw [List.nil_append, run, List.takeWhile_cons_of_pos is] at h
      cases h
  | cons c cs ih =>
    by_cases is : p c = true
    · rw [List.cons_append, run, List.takeWhile_cons_of_pos is, List.length_cons,
        List.length_cons] at h
      obtain ⟨all, stop⟩ := ih (Nat.succ.inj h)
      exact ⟨List.forall_mem_cons.mpr ⟨is, all⟩, stop⟩
    · rw [List.cons_append, run, List.takeWhile_cons_of_neg is] at h
      cases h

theorem stringEnd?_cons (quote : c ≠ '"') (escape : c ≠ '\\') :
    stringEnd? m (c :: cs) = if isNewline c then none else stringEnd? (m + 1) cs :=
  stringEnd?.eq_5 _ _ _ quote (absurd · escape) fun _ _ eq => absurd eq escape

theorem ne_escape (none : c = '\\' → cs = [] → False)
    (some : ∀ d ds, c = '\\' → cs = d :: ds → False) : c ≠ '\\' := by
  intro eq
  cases cs with
  | nil => exact none eq rfl
  | cons d ds => exact some d ds eq rfl

theorem lt_of_stringEnd? (h : stringEnd? m cs = some n) : m < n := by
  induction m, cs using stringEnd?.induct with
  | case1 => cases h
  | case2 m cs =>
    cases h
    exact Nat.lt_succ_self m
  | case3 => cases h
  | case4 m c cs ih =>
    rw [stringEnd?] at h
    exact Nat.lt_of_succ_lt (Nat.lt_of_succ_lt (ih h))
  | case5 m c cs quote escape escape' newline =>
    rw [stringEnd?_cons quote (ne_escape escape escape'), if_pos newline] at h
    cases h
  | case6 m c cs quote escape escape' newline ih =>
    rw [stringEnd?_cons quote (ne_escape escape escape'), if_neg newline] at h
    exact Nat.lt_of_succ_lt (ih h)

/-- A string carries its end in itself. -/
theorem stringEnd?_congr (h : stringEnd? m (cs ++ rest) = some (m + cs.length))
    (rest' : List Char) : stringEnd? m (cs ++ rest') = some (m + cs.length) := by
  induction m, cs using stringEnd?.induct with
  | case1 m => exact absurd (lt_of_stringEnd? h) (Nat.lt_irrefl m)
  | case2 m cs =>
    rw [List.cons_append, stringEnd?] at h ⊢
    exact h
  | case3 m =>
    rcases rest with _ | ⟨d, rest⟩
    · cases h
    · have lt := lt_of_stringEnd? (m := m + 2) h
      simp at lt
  | case4 m c cs ih =>
    have more : m + ('\\' :: c :: cs).length = m + 2 + cs.length := by
      rw [List.length_cons, List.length_cons]
      omega
    rw [more] at h ⊢
    exact ih h
  | case5 m c cs quote escape escape' newline =>
    rw [List.cons_append, stringEnd?_cons quote (ne_escape escape escape'), if_pos newline] at h
    cases h
  | case6 m c cs quote escape escape' newline ih =>
    have more : m + (c :: cs).length = m + 1 + cs.length := by
      rw [List.length_cons]
      omega
    rw [List.cons_append, stringEnd?_cons quote (ne_escape escape escape'), if_neg newline,
      more] at h ⊢
    exact ih h

/-! ## Numbers -/

theorem exists_run (p : Char → Bool) (cs : List Char) :
    ∃ ds rest, cs = ds ++ rest ∧ run p cs = ds.length ∧ (∀ d ∈ ds, p d = true) ∧
      NotFirst p rest := by
  have split := (List.takeWhile_append_dropWhile (p := p) (l := cs)).symm
  have whole : run p (cs.takeWhile p ++ cs.dropWhile p) = (cs.takeWhile p).length := by
    rw [← split]
    rfl
  exact ⟨_, _, split, rfl, run_append_eq_length whole⟩

theorem notFirst_isWordChar (digit : NotFirst Char.isDigit rest) (ends : endsNumber rest = true) :
    NotFirst isWordChar rest := by
  intro c first
  have other : isWordStart c = false := by
    obtain ⟨cs, rfl⟩ := List.head?_eq_some_iff.mp first
    simpa [endsNumber] using ends
  have noDigit := digit c first
  simp only [isWordStart, Bool.or_eq_false_iff] at other
  simp only [isWordChar, Char.isAlphanum, other.1, noDigit, other.2, Bool.or_false]

/-- A mark, perhaps a sign, and digits. -/
def IsExponent (cs : List Char) : Prop :=
  ∃ e sign ds, cs = e :: (sign ++ ds) ∧ (e = 'e' ∨ e = 'E') ∧
    (sign = [] ∨ sign = ['+'] ∨ sign = ['-']) ∧ ds ≠ [] ∧ ∀ d ∈ ds, d.isDigit = true

theorem exponent?_append (is : IsExponent cs) (stop : NotFirst Char.isDigit rest) :
    exponent? (cs ++ rest) = some cs.length := by
  obtain ⟨e, sign, ds, rfl, mark, sign, some, all⟩ := is
  have digits := run_append all stop
  have pos := List.length_pos_iff.mpr some
  rcases sign with rfl | rfl | rfl
  · rcases ds with _ | ⟨d, ds⟩
    · exact absurd rfl some
    have digit := all d List.mem_cons_self
    have plus : d ≠ '+' := by rintro rfl; cases digit
    have minus : d ≠ '-' := by rintro rfl; cases digit
    simp only [List.nil_append, List.cons_append, exponent?] at digits ⊢
    simp [mark, plus, minus, digits, Nat.add_comm]
  · simp [exponent?, mark, digits, some]
    omega
  · simp [exponent?, mark, digits, some]
    omega

theorem exists_of_exponent? (h : exponent? cs = some n) :
    ∃ es rest, cs = es ++ rest ∧ IsExponent es ∧ n = es.length ∧ NotFirst Char.isDigit rest := by
  rcases cs with _ | ⟨e, cs⟩
  · cases h
  have parts {sign cs : List Char} (mark : e = 'e' ∨ e = 'E')
      (is : sign = [] ∨ sign = ['+'] ∨ sign = ['-']) (some : run Char.isDigit cs ≠ 0) :
      ∃ es rest, e :: (sign ++ cs) = es ++ rest ∧ IsExponent es ∧
        1 + sign.length + run Char.isDigit cs = es.length ∧ NotFirst Char.isDigit rest := by
    obtain ⟨ds, rest, rfl, length, all, stop⟩ := exists_run Char.isDigit cs
    rw [length] at some ⊢
    refine ⟨e :: (sign ++ ds), rest, by simp, ⟨e, sign, ds, rfl, mark, is, ?_, all⟩, ?_, stop⟩
    · rintro rfl
      exact some rfl
    · simp only [List.length_cons, List.length_append]
      omega
  simp only [exponent?, Option.ite_none_right_eq_some, Option.ite_none_left_eq_some,
    Option.some.injEq] at h
  obtain ⟨mark, some, rfl⟩ := h
  split at some
  · exact parts mark (.inr (.inl rfl)) some
  · exact parts mark (.inr (.inr rfl)) some
  · exact parts mark (.inl rfl) some

/-- What makes a number a float. -/
def IsFraction (cs : List Char) : Prop :=
  IsExponent cs ∨ ∃ ds es, cs = '.' :: (ds ++ es) ∧ ds ≠ [] ∧ (∀ d ∈ ds, d.isDigit = true) ∧
    (es = [] ∨ IsExponent es)

theorem IsExponent.notFirst {es : List Char} (is : IsExponent es) (rest : List Char) :
    NotFirst Char.isDigit (es ++ rest) := by
  obtain ⟨e, sign, ds, rfl, rfl | rfl, -⟩ := is <;> exact notFirst_cons rfl _

theorem fraction?_append (is : IsFraction cs) (stop : NotFirst isWordChar rest) :
    fraction? (cs ++ rest) = some cs.length := by
  rcases is with is | ⟨ds, es, rfl, some, all, more⟩
  · have found := exponent?_append is (notFirst_isDigit stop)
    obtain ⟨e, sign, ds, rfl, mark, -⟩ := is
    rwa [List.cons_append, fraction?.eq_2]
    rintro cs ⟨⟩
    rcases mark with mark | mark <;> cases mark
  · have pos := List.length_pos_iff.mpr some
    simp only [List.cons_append, fraction?, List.append_assoc]
    rcases more with rfl | is
    · rw [List.nil_append, run_append all (notFirst_isDigit stop), if_neg (by omega),
        List.drop_left, exponent?_eq_none stop]
      simp [Nat.add_comm]
    · rw [run_append all (is.notFirst rest), if_neg (by omega), List.drop_left,
        exponent?_append is (notFirst_isDigit stop), Option.getD_some, List.length_cons,
        List.length_append]
      exact congrArg Option.some (by omega)

theorem exists_of_fraction? (h : fraction? cs = some n) :
    ∃ fs rest, cs = fs ++ rest ∧ IsFraction fs ∧ n = fs.length ∧ NotFirst Char.isDigit rest := by
  unfold fraction? at h
  split at h
  · next cs =>
    simp only [Option.ite_none_left_eq_some, Option.some.injEq] at h
    obtain ⟨some, rfl⟩ := h
    obtain ⟨ds, rest, rfl, length, all, stop⟩ := exists_run Char.isDigit cs
    rw [length] at some ⊢
    have ne : ds ≠ [] := by
      rintro rfl
      exact some rfl
    rw [List.drop_left]
    rcases more : exponent? rest with _ | k
    · exact ⟨'.' :: ds, rest, rfl, .inr ⟨ds, [], by rw [List.append_nil], ne, all, .inl rfl⟩,
        by rw [Option.getD_none, List.length_cons]; omega, stop⟩
    · obtain ⟨es, rest, rfl, is, rfl, stop⟩ := exists_of_exponent? more
      refine ⟨'.' :: (ds ++ es), rest, by simp, .inr ⟨ds, es, rfl, ne, all, .inr is⟩, ?_, stop⟩
      rw [Option.getD_some, List.length_cons, List.length_append]
      omega
  · obtain ⟨es, rest, rfl, is, rfl, stop⟩ := exists_of_exponent? h
    exact ⟨es, rest, rfl, .inl is, rfl, stop⟩

/-- The digits of a number, what makes it a float, and that no word goes on behind it. -/
theorem exists_of_number? (h : number? cs = some (piece, n)) :
    ∃ ds fs rest, cs = ds ++ fs ++ rest ∧ n = (ds ++ fs).length ∧ (∀ d ∈ ds, d.isDigit = true) ∧
      NotFirst isWordChar rest ∧ (piece = .integer ∧ fs = [] ∨ piece = .float ∧ IsFraction fs) := by
  obtain ⟨ds, rest, rfl, length, all, stop⟩ := exists_run Char.isDigit cs
  have whole (h : (if endsNumber rest then some (integer, ds.length) else none) = some (piece, n)) :
      ∃ ds' fs rest', ds ++ rest = ds' ++ fs ++ rest' ∧ n = (ds' ++ fs).length ∧
        (∀ d ∈ ds', d.isDigit = true) ∧ NotFirst isWordChar rest' ∧
        (piece = .integer ∧ fs = [] ∨ piece = .float ∧ IsFraction fs) := by
    obtain ⟨ends, eq⟩ := Option.ite_none_right_eq_some.mp h
    cases eq
    exact ⟨ds, [], rest, by simp, by simp, all, notFirst_isWordChar stop ends, .inl ⟨rfl, rfl⟩⟩
  unfold number? at h
  simp only [length, List.drop_left] at h
  split at h
  · next k found =>
    split at h
    · next ends =>
      cases h
      obtain ⟨fs, rest, rfl, is, rfl, stop⟩ := exists_of_fraction? found
      rw [List.drop_left] at ends
      exact ⟨ds, fs, rest, by simp, by simp, all, notFirst_isWordChar stop ends, .inr ⟨rfl, is⟩⟩
    · exact whole h
  · exact whole h

theorem number?_of_isFraction {ds fs : List Char} (all : ∀ d ∈ ds, d.isDigit = true)
    (is : IsFraction fs) (stop : NotFirst isWordChar rest) :
    number? (ds ++ fs ++ rest) = some (.float, (ds ++ fs).length) := by
  have behind : NotFirst Char.isDigit (fs ++ rest) := by
    rcases is with is | ⟨ds, es, rfl, -⟩
    · exact is.notFirst rest
    · exact notFirst_cons rfl _
  unfold number?
  simp only
  rw [List.append_assoc, run_append all behind, List.drop_left, fraction?_append is stop]
  simp only
  rw [List.drop_left, endsNumber_of_stop stop, if_pos rfl, List.length_append]

/-! ## Operators -/

variable {o : Operator}

theorem operator?_append (text : o.text.toList = c :: cs) (ends : (operator o).Ends rest) :
    operator? c (cs ++ rest).head? = some (o, cs.length) := by
  -- of those that could go on, none does
  have alone (h : ∀ d, (operator o).endsBefore d = true → d ≠ '=') : rest.head? ≠ some '=' :=
    fun eq => h '=' (ends '=' eq) rfl
  cases o
  case greater =>
    obtain ⟨rfl, rfl⟩ : '>' = c ∧ [] = cs := List.cons.inj text
    have other := alone (by simp [endsBefore])
    unfold operator?
    split <;> simp_all
  case less =>
    obtain ⟨rfl, rfl⟩ : '<' = c ∧ [] = cs := List.cons.inj text
    have other := alone (by simp [endsBefore])
    unfold operator?
    split <;> simp_all
  case bang =>
    obtain ⟨rfl, rfl⟩ : '!' = c ∧ [] = cs := List.cons.inj text
    have other := alone (by simp [endsBefore])
    unfold operator?
    split <;> simp_all
  case assign =>
    obtain ⟨rfl, rfl⟩ : '=' = c ∧ [] = cs := List.cons.inj text
    have other := alone (by simp [endsBefore])
    unfold operator?
    split <;> simp_all
  all_goals
    cases text
    rfl

theorem text_of_operator? (h : operator? c (cs ++ rest).head? = some (o, cs.length)) :
    o.text.toList = c :: cs ∧
      ∀ d ∈ rest.head?, (operator o).endsBefore d = true ∨ o = .slash := by
  generalize next : (cs ++ rest).head? = first at h
  have double {d : Char} (one : 1 = cs.length) (eq : (cs ++ rest).head? = some d) : cs = [d] := by
    obtain ⟨d', rfl⟩ := List.length_eq_one_iff.mp one.symm
    cases eq
    rfl
  have single (none : 0 = cs.length) : cs = [] := List.length_eq_zero_iff.mp none.symm
  unfold operator? at h
  split at h
  case h_16 => cases h
  all_goals
    obtain ⟨rfl, length⟩ := Prod.mk.inj (Option.some.inj h)
  case h_1 | h_2 | h_3 | h_4 | h_5 | h_6 =>
    rw [double length next]
    exact ⟨rfl, fun _ _ => .inl rfl⟩
  case h_9 | h_10 | h_11 | h_13 =>
    rw [single length]
    exact ⟨rfl, fun _ _ => .inl rfl⟩
  case h_12 =>
    rw [single length]
    exact ⟨rfl, fun _ _ => .inr rfl⟩
  case h_7 | h_8 | h_14 | h_15 =>
    cases single length
    refine ⟨rfl, fun d mem => .inl ?_⟩
    rw [List.nil_append, Option.mem_def.mp mem] at next
    subst next
    clear double single
    simp_all [endsBefore]

/-! ## Written forms -/

/-- How the pieces that are tokens are written. -/
inductive Form : Piece → List Char → Prop
  | word {c : Char} {cs : List Char} : isWordStart c = true → (∀ c ∈ cs, isWordChar c = true) →
      Form .word (c :: cs)
  | integer {d : Char} {ds : List Char} : (∀ b ∈ d :: ds, b.isDigit = true) →
      Form .integer (d :: ds)
  | float {d : Char} {ds fs : List Char} : (∀ b ∈ d :: ds, b.isDigit = true) → IsFraction fs →
      Form .float (d :: ds ++ fs)
  | string {cs : List Char} : stringEnd? 0 cs = some cs.length → Form .string ('"' :: cs)
  | operator (o : Operator) : Form (.operator o) o.text.toList
  | mark (m : Mark) : Form (.mark m) [m.char]

theorem ofChar?_char (m : Mark) : Mark.ofChar? m.char = some m := by
  cases m <;> decide

theorem char_of_ofChar? {m : Mark} (h : Mark.ofChar? c = some m) : m.char = c := by
  simpa using List.find?_some h

theorem operator?_mark (m : Mark) (next : Option Char) : operator? m.char next = none := by
  cases m <;> rfl

theorem token?_append {text : List Char} (form : Form piece text) (ends : piece.Ends rest) :
    ∃ c cs, text = c :: cs ∧ isBlank c = false ∧ (c = '/' → piece = .operator .slash ∧ cs = []) ∧
      token? c (cs ++ rest) = some (piece, cs.length) := by
  have stop (le : ∀ d, piece.endsBefore d = true → isWordChar d = false) :
      NotFirst isWordChar rest := fun d mem => le d (ends d mem)
  cases form with
  | @word c cs start all =>
    obtain ⟨digit, blank, slash, quote⟩ := isWordStart_cases start
    refine ⟨c, cs, rfl, blank, fun eq => absurd eq slash, ?_⟩
    unfold token?
    rw [digit, if_neg Bool.false_ne_true, if_neg quote, if_pos start,
      run_append all (stop (by simp [endsBefore]))]
  | @integer d ds all =>
    rw [List.forall_mem_cons] at all
    obtain ⟨blank, slash⟩ := isDigit_cases all.1
    refine ⟨d, ds, rfl, blank, fun eq => absurd eq slash, ?_⟩
    unfold token?
    rw [if_pos all.1]
    refine number?_integer all.2 (stop (by simp +contextual [endsBefore])) fun e mem => ?_
    have other := ends e mem
    simp only [endsBefore, Bool.and_eq_true, decide_eq_true_eq] at other
    exact decide_eq_false other.2
  | @float d ds fs all is =>
    rw [List.forall_mem_cons] at all
    obtain ⟨blank, slash⟩ := isDigit_cases all.1
    refine ⟨d, ds ++ fs, rfl, blank, fun eq => absurd eq slash, ?_⟩
    unfold token?
    rw [if_pos all.1]
    exact number?_of_isFraction all.2 is (stop (by simp [endsBefore]))
  | @string cs found =>
    refine ⟨'"', cs, rfl, rfl, by simp, ?_⟩
    have found := (stringEnd?_append found rest).2
    rw [token?, if_neg (by decide), if_pos rfl, found]
    rfl
  | operator o =>
    obtain ⟨c, cs, text⟩ : ∃ c cs, o.text.toList = c :: cs := by cases o <;> exact ⟨_, _, rfl⟩
    have found := operator?_append text ends
    have first : isBlank c = false ∧ (c = '/' → Piece.operator o = .operator .slash ∧ cs = []) ∧
        c.isDigit = false ∧ c ≠ '"' ∧ isWordStart c = false := by
      cases o <;> cases text <;> decide
    obtain ⟨blank, slash, digit, quote, start⟩ := first
    refine ⟨c, cs, text, blank, slash, ?_⟩
    unfold token?
    rw [digit, if_neg Bool.false_ne_true, if_neg quote, start, if_neg Bool.false_ne_true, found]
  | mark m =>
    have first : isBlank m.char = false ∧ m.char ≠ '/' ∧ m.char.isDigit = false ∧ m.char ≠ '"' ∧
        isWordStart m.char = false := by
      cases m <;> decide
    obtain ⟨blank, slash, digit, quote, start⟩ := first
    refine ⟨m.char, [], rfl, blank, fun eq => absurd eq slash, ?_⟩
    unfold token?
    rw [digit, if_neg Bool.false_ne_true, if_neg quote, start, if_neg Bool.false_ne_true,
      operator?_mark]
    simp only [ofChar?_char, Option.map_some, List.length_nil]

/-- A token is cut as it is written, if what follows ends it. -/
theorem first?_append {text : List Char} (form : Form piece text) (ends : piece.Ends rest) :
    ∃ c cs, text = c :: cs ∧ first? c (cs ++ rest) = some (piece, cs.length) := by
  obtain ⟨c, cs, rfl, blank, slash, found⟩ := token?_append form ends
  refine ⟨c, cs, rfl, ?_⟩
  have none : (if c = '/' then comment? (cs ++ rest) else none) = none := by
    rw [ite_eq_right_iff]
    intro eq
    obtain ⟨rfl, rfl⟩ := slash eq
    rw [List.nil_append]
    cases rest with
    | nil => rfl
    | cons d rest =>
      have other := ends d rfl
      simp only [endsBefore, Bool.and_eq_true, decide_eq_true_eq] at other
      exact comment?.eq_3 _ (by simpa using other.1) (by simpa using other.2)
  unfold first?
  rw [blank, if_neg Bool.false_ne_true, none]
  exact found

theorem form_of_token? (h : token? c (cs ++ rest) = some (piece, cs.length)) :
    Form piece (c :: cs) ∧ ∀ d ∈ rest.head?, piece.endsBefore d = true ∨
      piece = .integer ∧ d = '.' ∨ piece = .operator .slash := by
  unfold token? at h
  split at h
  · next digit =>
    obtain ⟨ds, fs, rest', eq, length, all, stop, which⟩ := exists_of_number? h
    obtain ⟨rfl, rfl⟩ := List.append_inj eq length
    have all : ∀ d ∈ c :: ds, d.isDigit = true := List.forall_mem_cons.mpr ⟨digit, all⟩
    rcases which with ⟨rfl, rfl⟩ | ⟨rfl, is⟩
    · rw [List.append_nil]
      refine ⟨.integer all, fun d mem => ?_⟩
      by_cases point : d = '.'
      · exact .inr (.inl ⟨rfl, point⟩)
      · exact .inl (by simp [endsBefore, stop d mem, point])
    · exact ⟨.float all is, fun d mem => .inl (by simp [endsBefore, stop d mem])⟩
  split at h
  · next quote =>
    subst quote
    obtain ⟨n, found, eq⟩ := Option.map_eq_some_iff.mp h
    cases eq
    have found := stringEnd?_congr (m := 0) (found.trans (by rw [Nat.zero_add])) []
    rw [List.append_nil, Nat.zero_add] at found
    exact ⟨.string found, fun _ _ => .inl rfl⟩
  split at h
  · next start =>
    obtain ⟨rfl, length⟩ := Prod.mk.inj (Option.some.inj h)
    obtain ⟨all, stop⟩ := run_append_eq_length length
    exact ⟨.word start all, fun d mem => .inl (by simp [endsBefore, stop d mem])⟩
  split at h
  · next op k found =>
    obtain ⟨rfl, rfl⟩ := Prod.mk.inj (Option.some.inj h)
    obtain ⟨text, stop⟩ := text_of_operator? found
    rw [← text]
    refine ⟨.operator op, fun d mem => (stop d mem).imp_right fun slash => .inr ?_⟩
    rw [slash]
  · obtain ⟨m, found, eq⟩ := Option.map_eq_some_iff.mp h
    obtain ⟨rfl, length⟩ := Prod.mk.inj eq
    rw [List.length_eq_zero_iff.mp length.symm, ← char_of_ofChar? found]
    exact ⟨.mark m, fun _ _ => .inl rfl⟩

theorem token?_of_first? (h : first? c cs = some (piece, n)) (blank : piece ≠ .blank)
    (comment : piece ≠ .comment) :
    token? c cs = some (piece, n) ∧ (c = '/' → comment? cs = none) := by
  unfold first? at h
  split at h
  · cases h
    exact absurd rfl blank
  split at h
  · cases h
    exact absurd rfl comment
  · next none => exact ⟨h, (ite_eq_right_iff.mp none ·)⟩

end Piece

/-! ## Tokens in a text -/

namespace Ink

variable {k : Ink} {kind : Token.Kind} {rest rest' : List Char}

/-- A token is written in its form. What follows ends it, but for a point that makes no float and a
slash that opens no comment. -/
theorem Stands.form (stands : k.Stands rest) (means : k.Means (some kind)) :
    Piece.Form k.piece k.text ∧ ∀ d ∈ rest.head?, k.piece.endsBefore d = true ∨
      k.piece = .integer ∧ d = '.' ∨ k.piece = .operator .slash ∧ d = '*' := by
  obtain ⟨c, cs, text, first⟩ := stands
  obtain ⟨found, closed⟩ := Piece.token?_of_first? first means.ne.1 means.ne.2
  obtain ⟨form, stop⟩ := Piece.form_of_token? found
  rw [← text] at form
  refine ⟨form, fun d mem => ?_⟩
  rcases stop d mem with ends | point | slash
  · exact .inl ends
  · exact .inr (.inl point)
  · have written : c = '/' ∧ cs = [] := by
      rw [slash, text] at form
      generalize eq : c :: cs = whole at form
      cases form
      exact ⟨(List.cons.inj eq).1, (List.cons.inj eq).2⟩
    obtain ⟨rfl, rfl⟩ := written
    obtain ⟨rest, rfl⟩ := List.head?_eq_some_iff.mp mem
    have none := closed rfl
    rw [slash]
    by_cases star : d = '*'
    · exact .inr (.inr ⟨rfl, star⟩)
    · refine .inl ?_
      have other : d ≠ '/' := by
        rintro rfl
        cases none
      simp [Piece.endsBefore, star, other]

theorem stands_of_form (form : Piece.Form k.piece k.text) (ends : k.piece.Ends rest) :
    k.Stands rest :=
  Piece.first?_append form ends

/-- A token stands where a blank follows. -/
theorem Stands.blank (stands : k.Stands rest) (means : k.Means (some kind))
    (blank : NotFirst (fun c => !Piece.isBlank c) rest') : k.Stands rest' :=
  stands_of_form (stands.form means).1 (Piece.ends_of_blank blank)

end Ink

end Rulebook
