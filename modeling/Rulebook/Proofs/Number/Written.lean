import Mathlib
import Rulebook.Number.Notation
import Rulebook.Proofs.Number.Digits
import Rulebook.Proofs.Number.Finite

/-!
# How finite doubles are written

As a literal every finite double is digits, a point and digits, behind a minus sign if it is
negative. The point is there because no whole number rounds to a double that is not whole.
-/

namespace Rulebook.Number

/-- Digits, a point and digits. -/
def Pointed (cs : List Char) : Prop :=
  ∃ whole fraction : List Char, cs = whole ++ '.' :: fraction ∧ whole ≠ [] ∧ fraction ≠ [] ∧
    (∀ c ∈ whole, c.isDigit = true) ∧ ∀ c ∈ fraction, c.isDigit = true

/-! ## Decimals -/

theorem toList_zeros (n : Nat) : (zeros n).toList = List.replicate n '0' := by
  unfold zeros
  rw [String.toList_ofList]

theorem pointed_withPoint {digits : String} {places : Nat} (some : digits.toList ≠ [])
    (all : ∀ c ∈ digits.toList, c.isDigit = true) (pos : 0 < places) :
    Pointed (withPoint digits places).toList := by
  unfold withPoint
  rw [if_neg (by omega)]
  split
  · next lt =>
    rw [← String.length_toList] at lt
    simp only [String.toList_append, String.toList_ofList]
    refine ⟨_, digits.toList.drop (digits.toList.length - places), List.append_assoc _ ['.'] _, ?_,
      ?_, fun c mem => ?_, fun c mem => ?_⟩
    · rw [← List.length_pos_iff, List.length_take]
      omega
    · rw [← List.length_pos_iff, List.length_drop]
      omega
    · exact all c (List.mem_of_mem_take mem)
    · exact all c (List.mem_of_mem_drop mem)
  · simp only [String.toList_append, toList_zeros]
    refine ⟨['0'], List.replicate (places - digits.length) '0' ++ digits.toList, rfl, by simp, ?_,
      by simp, fun c mem => ?_⟩
    · intro nil
      exact some (List.append_eq_nil_iff.mp nil).2
    · rcases List.mem_append.mp mem with mem | mem
      · rw [List.eq_of_mem_replicate mem]
        rfl
      · exact all c mem

theorem pointed_positional {d : Decimal} (neg : d.exponent < 0) : Pointed d.positional.toList := by
  have digits : (toString d.digits).toList = Nat.toDigits 10 d.digits := Nat.toList_repr
  unfold Decimal.positional
  simp only
  rw [if_neg (by omega)]
  refine pointed_withPoint ?_ ?_ (by omega)
  · rw [digits]
    exact Nat.toDigits_ne_nil
  · rw [digits]
    exact all_isDigit_toDigits d.digits

/-! ## Shortest decimals -/

theorem exponent_of_onGrid? {i : Interval} {tie : Tie} {exponent : Int} {d : Decimal}
    (h : i.onGrid? tie exponent = some d) :
    d.exponent = exponent ∧
      i.contains (d.digits * (i.denominator * 10 ^ exponent.toNat)) (10 ^ (-exponent).toNat)
        = true := by
  unfold Interval.onGrid? at h
  simp only [Nat.pow_eq] at h
  split at h
  · next below above =>
    cases h
    have either (up : Bool) {k step d : Nat} (below : i.contains (k * step) d = true)
        (above : i.contains ((k + 1) * step) d = true) :
        i.contains ((if up then k + 1 else k) * step) d = true := by
      cases up
      · exact below
      · exact above
    exact ⟨rfl, either _ below above⟩
  · next below _ =>
    cases h
    exact ⟨rfl, below⟩
  · next _ above =>
    cases h
    exact ⟨rfl, above⟩
  · cases h

/-- A grid is hit, or all have been tried. -/
theorem firstGrid_cases (i : Interval) (tie : Tie) (exponent : Int) (steps : Nat) :
    (∃ e, i.onGrid? tie e = some (i.firstGrid tie exponent steps)) ∨
      (i.firstGrid tie exponent steps).exponent = exponent - steps := by
  induction steps generalizing exponent with
  | zero => exact .inr (Int.sub_zero exponent).symm
  | succ steps ih =>
    unfold Interval.firstGrid
    split
    · next d hit => exact .inl ⟨exponent, hit⟩
    · rcases ih (exponent - 1) with hit | last
      · exact .inl hit
      · refine .inr (last.trans ?_)
        omega

/-- No whole number is near a double that is not whole. -/
theorem not_contains_whole {b : Binary} (part : b.whole? = none) (n : Nat) :
    b.interval.contains (n * b.interval.denominator) 1 = false := by
  unfold Binary.whole? at part
  split at part
  · cases part
  · next neg =>
    simp only [Nat.pow_eq] at part
    split at part
    · cases part
    · next rest =>
      have scale : (b.exponent - 2).toNat = 0 := by omega
      have places : (2 - b.exponent).toNat = (-b.exponent).toNat + 2 := by omega
      have ne : n * 2 ^ (-b.exponent).toNat ≠ b.mantissa := by
        intro eq
        rw [← eq, Nat.mul_mod_left] at rest
        exact rest rfl
      unfold Interval.contains Binary.interval
      simp only [Nat.pow_eq, scale, places, Nat.pow_add, Nat.pow_zero, Nat.mul_one]
      rw [← Nat.mul_assoc]
      generalize n * 2 ^ (-b.exponent).toNat = whole at ne
      split
      · simp only [Bool.and_eq_false_iff, decide_eq_false_iff_not]
        split <;> omega
      · simp only [Bool.and_eq_false_iff, decide_eq_false_iff_not]
        split <;> omega

theorem shortest_exponent {b : Binary} (part : b.whole? = none) (lt : b.mantissa < 2 ^ 53)
    (tie : Tie) : (b.shortest tie).exponent < 0 := by
  have neg : b.exponent < 0 := by
    by_contra nonneg
    unfold Binary.whole? at part
    rw [if_pos (by omega)] at part
    cases part
  have log : b.mantissa.log2 < 53 := by
    rcases Nat.eq_zero_or_pos b.mantissa with zero | pos
    · rw [zero]
      decide
    · exact (Nat.log2_lt (by omega)).mpr lt
  unfold Binary.shortest
  simp only
  rcases firstGrid_cases b.interval tie
    (Int.fdiv ((b.exponent + b.mantissa.log2 + 1) * 30103) 100000 + 1) 20 with ⟨e, hit⟩ | last
  · obtain ⟨eq, near⟩ := exponent_of_onGrid? hit
    rw [eq]
    by_contra nonneg
    have none : (-e).toNat = 0 := by omega
    rw [none, Nat.pow_zero, Nat.mul_comm b.interval.denominator, ← Nat.mul_assoc,
      not_contains_whole part] at near
    cases near
  · rw [last, Int.fdiv_eq_ediv_of_nonneg _ (by decide)]
    omega

/-! ## Literals -/

theorem pointed_text {b : Binary} (part : b.whole? = none) (lt : b.mantissa < 2 ^ 53) :
    ∃ body, Pointed body ∧ (b.text.toList = body ∨ b.text.toList = '-' :: body) := by
  have some : b.mantissa ≠ 0 := by
    intro zero
    unfold Binary.whole? at part
    rw [zero] at part
    split at part <;> simp at part
  refine ⟨_, pointed_positional (shortest_exponent part lt .up), ?_⟩
  unfold Binary.text minus
  rw [if_neg some, String.toList_append]
  cases b.negative
  · exact .inl rfl
  · exact .inr rfl

theorem pointed_floatLiteral {x : Float} (finite : x.isFinite = true) :
    ∃ body, Pointed body ∧
      ((floatLiteral x).toList = body ∨ (floatLiteral x).toList = '-' :: body) := by
  obtain ⟨b, decoded, lt⟩ := decode_of_isFinite finite
  unfold floatLiteral
  rw [decoded]
  simp only
  split
  · next n whole =>
    refine ⟨Nat.toDigits 10 n ++ ['.', '0'], ⟨_, ['0'], rfl, Nat.toDigits_ne_nil, by simp,
      all_isDigit_toDigits n, by simp⟩, ?_⟩
    unfold minus
    simp only [String.toList_append, Nat.toString_eq_repr, Nat.toList_repr]
    cases b.negative
    · exact .inl rfl
    · exact .inr rfl
  · next part => exact pointed_text part lt

/-! ## Reading back -/

theorem readFloat?_eq_map {text : String} {negative : Bool} {body : List Char}
    (eq : text.toList = if negative then '-' :: body else body) (pointed : Pointed body) :
    readFloat? text = (readDecimal? body).map fun x => if negative then -x else x := by
  obtain ⟨whole, fraction, rfl, some, -, digits, -⟩ := pointed
  have point : '.' ∈ (whole ++ '.' :: fraction).map Char.toLower :=
    List.mem_map.mpr ⟨'.', by simp, rfl⟩
  have other (word : String) (ne : '.' ∉ word.toList) :
      String.ofList ((whole ++ '.' :: fraction).map Char.toLower) ≠ word := by
    rintro rfl
    rw [String.toList_ofList] at ne
    exact ne point
  have value : (if String.ofList ((whole ++ '.' :: fraction).map Char.toLower) = "inf" ||
        String.ofList ((whole ++ '.' :: fraction).map Char.toLower) = "infinity" then
          Option.some infinity
      else if String.ofList ((whole ++ '.' :: fraction).map Char.toLower) = "nan" then
        Option.some nan
      else readDecimal? (whole ++ '.' :: fraction)) = readDecimal? (whole ++ '.' :: fraction) := by
    rw [if_neg, if_neg (other "nan" (by decide))]
    rw [Bool.or_eq_true, decide_eq_true_eq, decide_eq_true_eq, not_or]
    exact ⟨other "inf" (by decide), other "infinity" (by decide)⟩
  unfold readFloat?
  rw [eq]
  cases negative with
  | true =>
    simp only [if_true]
    rw [value]
  | false =>
    cases whole with
    | nil => exact absurd rfl some
    | cons d ds =>
      have digit := digits d List.mem_cons_self
      have minus : d ≠ '-' := by rintro rfl; cases digit
      have plus : d ≠ '+' := by rintro rfl; cases digit
      simp only [Bool.false_eq_true, if_false, List.cons_append]
      split
      · next eq => exact absurd (List.cons.inj eq).1 minus
      · next eq => exact absurd (List.cons.inj eq).1 plus
      · next eq =>
        simp only [Bool.false_eq_true, if_false]
        rw [List.cons_append] at value
        rw [value]

/-- The digits that a finite double is written with are those of a finite double. -/
theorem readDecimal?_floatLiteral {x : Float} (finite : x.isFinite = true)
    (reads : readFloat? (floatLiteral x) = some x) :
    ∃ body v, Pointed body ∧ readDecimal? body = some v ∧ v.isFinite = true ∧
      ((floatLiteral x).toList = body ∧ v = x ∨ (floatLiteral x).toList = '-' :: body ∧ -v = x) := by
  obtain ⟨body, pointed, eq | eq⟩ := pointed_floatLiteral finite
  · rw [@readFloat?_eq_map _ false _ eq pointed, Option.map_eq_some_iff] at reads
    obtain ⟨v, read, rfl⟩ := reads
    exact ⟨body, v, pointed, read, finite, .inl ⟨eq, rfl⟩⟩
  · rw [@readFloat?_eq_map _ true _ eq pointed, Option.map_eq_some_iff] at reads
    obtain ⟨v, read, rfl⟩ := reads
    exact ⟨body, v, pointed, read, (isFinite_neg v).symm.trans finite, .inr ⟨eq, rfl⟩⟩

end Rulebook.Number
