import Mathlib
import Rulebook.Proofs.Token.Forms

namespace Rulebook.Piece

variable {c : Char} {cs : List Char} {piece : Piece} {m n : Nat}

/-! ## Lengths -/

theorem run_le (p : Char → Bool) (cs : List Char) : run p cs ≤ cs.length :=
  (List.takeWhile_sublist p).length_le

theorem run_newline {p : Char → Bool} (stop : p '\n' = false) (cs rest : List Char) :
    run p (cs ++ '\n' :: rest) = run p cs := by
  unfold run
  rw [List.takeWhile_append, List.takeWhile_cons_of_neg (by simp [stop]), List.append_nil]
  split
  · next all => exact all.symm
  · rfl

theorem run_eq_length {p : Char → Bool} (all : ∀ c ∈ cs, p c = true) : run p cs = cs.length := by
  unfold run
  rw [List.takeWhile_eq_self_iff.mpr all]

theorem run_lt_length {p : Char → Bool} (some : ¬ ∀ c ∈ cs, p c = true) :
    run p cs < cs.length := by
  refine Nat.lt_of_le_of_ne (run_le p cs) fun eq => some ?_
  have same := (List.takeWhile_prefix p (l := cs)).eq_of_length eq
  exact List.takeWhile_eq_self_iff.mp same

/-- A run that ends within a text ends there in a longer one. -/
theorem run_append_of_lt {p : Char → Bool} (lt : run p cs < cs.length) (rest : List Char) :
    run p (cs ++ rest) = run p cs := by
  unfold run at lt ⊢
  rw [List.takeWhile_append, if_neg (Nat.ne_of_lt lt)]

theorem blockEnd?_append (h : blockEnd? m cs = some n) (rest : List Char) :
    n ≤ m + cs.length ∧ blockEnd? m (cs ++ rest) = some n := by
  induction m, cs using blockEnd?.induct with
  | case1 => cases h
  | case2 m cs =>
    cases h
    simp [blockEnd?]
  | case3 m c cs other ih =>
    rw [blockEnd?.eq_3 _ _ _ other] at h
    obtain ⟨le, found⟩ := ih h
    refine ⟨by simp only [List.length_cons]; omega, ?_⟩
    rw [List.cons_append, blockEnd?.eq_3, found]
    rintro ds rfl eq
    cases cs with
    | nil => cases h
    | cons d cs =>
      cases eq
      exact other cs rfl rfl

theorem stringEnd?_append (h : stringEnd? m cs = some n) (rest : List Char) :
    n ≤ m + cs.length ∧ stringEnd? m (cs ++ rest) = some n := by
  induction m, cs using stringEnd?.induct with
  | case1 => cases h
  | case2 m cs =>
    cases h
    simp [stringEnd?]
  | case3 => cases h
  | case4 m c cs ih =>
    rw [stringEnd?] at h
    obtain ⟨le, found⟩ := ih h
    refine ⟨by simp only [List.length_cons]; omega, ?_⟩
    rw [List.cons_append, List.cons_append, stringEnd?, found]
  | case5 m c cs quote escape escape' newline =>
    rw [stringEnd?.eq_5 _ _ _ quote escape escape', if_pos newline] at h
    cases h
  | case6 m c cs quote escape escape' newline ih =>
    rw [stringEnd?.eq_5 _ _ _ quote escape escape', if_neg newline] at h
    have other : c ≠ '\\' := by
      rintro rfl
      cases cs with
      | nil => exact escape rfl rfl
      | cons d cs => exact escape' d cs rfl rfl
    obtain ⟨le, found⟩ := ih h
    refine ⟨by simp only [List.length_cons]; omega, ?_⟩
    rw [List.cons_append, stringEnd?.eq_5 _ _ _ quote (absurd · other)
      (fun _ _ eq => absurd eq other), if_neg newline, found]

/-! ## Numbers -/

theorem exponent?_newline (cs rest : List Char) :
    exponent? (cs ++ '\n' :: rest) = exponent? cs := by
  rcases cs with _ | ⟨e, _ | ⟨d, cs⟩⟩
  · rfl
  · rfl
  · unfold exponent?
    simp only [List.cons_append]
    obtain rfl | plus := eq_or_ne d '+'
    · simp [run_newline]
    obtain rfl | minus := eq_or_ne d '-'
    · simp [run_newline]
    have digits := run_newline (p := Char.isDigit) rfl (d :: cs) rest
    rw [List.cons_append] at digits
    simp [plus, minus, digits]

theorem exponent?_le (h : exponent? cs = some n) : n ≤ cs.length := by
  rcases cs with _ | ⟨e, cs⟩
  · cases h
  · have bounded (sign : Nat) (some : run Char.isDigit (cs.drop sign) ≠ 0) :
        1 + sign + run Char.isDigit (cs.drop sign) ≤ cs.length + 1 := by
      have le := run_le Char.isDigit (cs.drop sign)
      rw [List.length_drop] at le
      omega
    simp only [exponent?, Option.ite_none_right_eq_some, Option.ite_none_left_eq_some,
      Option.some.injEq] at h
    obtain ⟨-, some, rfl⟩ := h
    exact bounded _ some

theorem endsNumber_newline (cs rest : List Char) :
    endsNumber (cs ++ '\n' :: rest) = endsNumber cs := by
  cases cs <;> rfl

theorem fraction?_newline (cs rest : List Char) :
    fraction? (cs ++ '\n' :: rest) = fraction? cs := by
  rcases cs with _ | ⟨e, cs⟩
  · rfl
  obtain rfl | point := eq_or_ne e '.'
  · have le := run_le Char.isDigit cs
    simp only [List.cons_append, fraction?, run_newline (p := Char.isDigit) rfl,
      List.drop_append_of_le_length le, exponent?_newline]
  · rw [List.cons_append, fraction?.eq_2 _ (by simp [point]), fraction?.eq_2 _ (by simp [point])]
    exact exponent?_newline (e :: cs) rest

theorem fraction?_le (h : fraction? cs = some n) : n ≤ cs.length := by
  unfold fraction? at h
  split at h
  · next cs =>
    simp only [Option.ite_none_left_eq_some, Option.some.injEq] at h
    have le := run_le Char.isDigit cs
    rcases more : exponent? (cs.drop (run Char.isDigit cs)) with _ | k
    · simp only [more, Option.getD_none] at h
      rw [List.length_cons]
      omega
    · have le' := exponent?_le more
      rw [List.length_drop] at le'
      simp only [more, Option.getD_some] at h
      rw [List.length_cons]
      omega
  · exact exponent?_le h

theorem number?_newline (h : number? cs = some (piece, n)) (rest : List Char) :
    n ≤ cs.length ∧ number? (cs ++ '\n' :: rest) = some (piece, n) := by
  have le := run_le Char.isDigit cs
  unfold number? at h ⊢
  simp only [run_newline (p := Char.isDigit) rfl, List.drop_append_of_le_length le,
    fraction?_newline, endsNumber_newline] at h ⊢
  cases found : fraction? (cs.drop (run Char.isDigit cs)) with
  | none =>
    simp only [found] at h ⊢
    refine ⟨?_, h⟩
    simp only [Option.ite_none_right_eq_some, Option.some.injEq, Prod.mk.injEq] at h
    omega
  | some k =>
    have le' := fraction?_le found
    simp only [found, List.drop_append_of_le_length le', endsNumber_newline] at h ⊢
    refine ⟨?_, h⟩
    rw [List.length_drop] at le'
    split at h
    · cases h
      omega
    · simp only [Option.ite_none_right_eq_some, Option.some.injEq, Prod.mk.injEq] at h
      omega

/-! ## Operators -/

theorem operator?_newline (c : Char) (cs rest : List Char) :
    operator? c (cs ++ '\n' :: rest).head? = operator? c cs.head? := by
  rcases cs with _ | ⟨d, cs⟩
  · simp only [List.nil_append, List.head?_cons, List.head?_nil]
    unfold operator?
    split <;> simp_all
  · rfl

theorem operator?_le {next : Option Char} {o : Operator} (h : operator? c next = some (o, n)) :
    n ≤ next.toList.length := by
  unfold operator? at h
  split at h <;> cases h <;> simp

/-! ## The piece at the front -/

theorem token?_newline (h : token? c cs = some (piece, n)) (rest : List Char) :
    n ≤ cs.length ∧ token? c (cs ++ '\n' :: rest) = some (piece, n) := by
  unfold token? at h ⊢
  split at h
  · next digit =>
    rw [if_pos digit]
    exact number?_newline h rest
  next digit =>
  rw [if_neg digit]
  split at h
  · next quote =>
    rw [if_pos quote]
    obtain ⟨k, ends, eq⟩ := Option.map_eq_some_iff.mp h
    cases eq
    obtain ⟨le, ends⟩ := stringEnd?_append ends ('\n' :: rest)
    rw [Nat.zero_add] at le
    exact ⟨le, by rw [ends]; rfl⟩
  next quote =>
  rw [if_neg quote]
  split at h
  · next word =>
    cases h
    rw [if_pos word, run_newline rfl]
    exact ⟨run_le _ _, rfl⟩
  next word =>
  rw [if_neg word, operator?_newline]
  split at h
  · next o k found =>
    cases h
    refine ⟨(operator?_le found).trans ?_, rfl⟩
    cases cs <;> simp
  · next found =>
    refine ⟨?_, h⟩
    obtain ⟨m, -, eq⟩ := Option.map_eq_some_iff.mp h
    cases eq
    exact Nat.zero_le _

theorem comment?_newline (h : comment? cs = some n) (rest : List Char) :
    n ≤ cs.length ∧ comment? (cs ++ '\n' :: rest) = some n := by
  unfold comment? at h
  split at h
  · next cs =>
    cases h
    rw [List.cons_append, comment?, run_newline rfl, List.length_cons, Nat.add_comm 1]
    exact ⟨Nat.succ_le_succ (run_le _ cs), rfl⟩
  · next cs =>
    rw [List.cons_append, comment?, List.length_cons, Nat.add_comm cs.length]
    exact blockEnd?_append h _
  · cases h

theorem comment?_newline_none (h : comment? cs = none) (other : cs.head? ≠ some '*')
    (rest : List Char) : comment? (cs ++ '\n' :: rest) = none := by
  unfold comment? at h
  split at h
  · cases h
  · exact absurd rfl other
  · next slash star =>
    rcases cs with _ | ⟨d, cs⟩
    · rfl
    · exact comment?.eq_3 _ (by simpa using slash cs) (by simpa using other)

theorem first?_blank (is : isBlank c = true) (cs : List Char) :
    first? c cs = some (.blank, run isBlank cs) := by
  unfold first?
  rw [if_pos is]

/-- A newline behind the text makes no difference, unless a blank goes on or a comment is opened
that has no end. -/
theorem first?_newline (h : first? c cs = some (piece, n))
    (blank : isBlank c = true → n < cs.length)
    (closed : c = '/' → cs.head? = some '*' → comment? cs ≠ none) (rest : List Char) :
    n ≤ cs.length ∧ first? c (cs ++ '\n' :: rest) = some (piece, n) := by
  unfold first? at h ⊢
  split at h
  · next is =>
    cases h
    rw [if_pos is, run_append_of_lt (blank is)]
    exact ⟨run_le _ _, rfl⟩
  next other =>
  rw [if_neg other]
  split at h
  · next k found =>
    cases h
    obtain ⟨slash, found⟩ := Option.ite_none_right_eq_some.mp found
    obtain ⟨le, found⟩ := comment?_newline found rest
    rw [if_pos slash, found]
    exact ⟨le, rfl⟩
  · next found =>
    have same : (if c = '/' then comment? (cs ++ '\n' :: rest) else none) = none := by
      rw [ite_eq_right_iff] at found ⊢
      exact fun slash => comment?_newline_none (found slash)
        (fun star => closed slash star (found slash)) rest
    rw [same]
    exact token?_newline h rest

/-- Without an end a comment is not one. -/
theorem first?_slash (h : comment? cs = none) : first? '/' cs = some (.operator .slash, 0) := by
  unfold first?
  rw [if_neg (by decide), if_pos rfl, h]
  rfl

theorem first?_star (cs : List Char) : first? '*' cs = some (.operator .star, 0) := rfl

end Rulebook.Piece
