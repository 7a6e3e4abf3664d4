/-! # Blanks around a text -/

namespace Rulebook.Text

/-- The characters with the Unicode property White_Space. -/
def isSpace (c : Char) : Bool :=
  let n := c.toNat
  (0x09 ≤ n && n ≤ 0x0d) || (0x2000 ≤ n && n ≤ 0x200a)
    || [0x20, 0x85, 0xa0, 0x1680, 0x2028, 0x2029, 0x202f, 0x205f, 0x3000].contains n

/-- The text without blanks at its ends. -/
def trim (s : String) : String :=
  String.ofList ((s.toList.dropWhile isSpace).reverse.dropWhile isSpace).reverse

/-- The parts of a text before and after a character, where it occurs first. -/
def splitAt? (c : Char) (s : String) : Option (String × String) :=
  let before := s.toList.takeWhile (· ≠ c)
  match s.toList.dropWhile (· ≠ c) with
  | [] => none
  | _ :: after => some (String.ofList before, String.ofList after)

theorem splitAt?_eq_some {c : Char} {s a b : String} (h : splitAt? c s = some (a, b)) :
    s.toList = a.toList ++ c :: b.toList ∧ c ∉ a.toList := by
  unfold splitAt? at h
  split at h
  · cases h
  · next d after hd =>
    cases h
    have whole := List.takeWhile_append_dropWhile (p := (· ≠ c)) (l := s.toList)
    have head : d = c := by
      have := List.head?_dropWhile_not (· ≠ c) s.toList
      rw [hd] at this
      simpa using this
    rw [hd, head] at whole
    refine ⟨by simpa using whole.symm, ?_⟩
    intro mem
    have all := List.all_takeWhile (p := (· ≠ c)) (l := s.toList)
    rw [List.all_eq_true] at all
    simpa using all c (by simpa using mem)

end Rulebook.Text
