import Mathlib
import Rulebook.Text.Quoted
import Rulebook.Token.Lexeme

/-!
# Displayed text as a string literal

A displayed text always ends where its closing quote stands. Its body is read back exactly if it
has no escape that rule texts do not know.
-/

namespace Rulebook.Text.Quoted

/-- Displayed as it is, or by an escape that rule texts know. -/
def Plain (c : Char) : Prop :=
  shownChar c = c.toString ∨ shownChar c ∈ ["\\\"", "\\\\", "\\n", "\\r", "\\t"]

instance : DecidablePred Plain := fun _ => inferInstanceAs (Decidable (_ ∨ _))

def PlainText (s : String) : Prop := ∀ c ∈ s.toList, Plain c

instance : DecidablePred PlainText := fun s => List.decidableBAll Plain s.toList

def shownBody (cs : List Char) : List Char := cs.flatMap fun c => (shownChar c).toList

theorem toList_shown (s : String) : (shown s).toList = '"' :: (shownBody s.toList ++ ['"']) := by
  have fold (cs : List Char) (out : String) :
      (cs.foldl (fun out c => out ++ shownChar c) out).toList = out.toList ++ shownBody cs := by
    induction cs generalizing out with
    | nil => simp [shownBody]
    | cons c cs ih => simp [shownBody, ih]
  unfold shown
  rw [String.toList_append, fold]
  rfl

/-! ## One character -/

theorem isHexDigit_of_mem {n : Nat} {c : Char} (mem : c ∈ Nat.toDigits 16 n) :
    c ∈ "0123456789abcdef".toList := by
  induction n using Nat.strong_induction_on with
  | _ n ih =>
    rw [Nat.toDigits_eq_if (by decide)] at mem
    have digit (d : Nat) (lt : d < 16) : d.digitChar ∈ "0123456789abcdef".toList := by
      interval_cases d <;> decide
    split at mem
    · next lt =>
      rw [List.mem_singleton.mp mem]
      exact digit n lt
    · rcases List.mem_append.mp mem with mem | mem
      · exact ih _ (by omega) mem
      · rw [List.mem_singleton.mp mem]
        exact digit _ (Nat.mod_lt n (by decide))

/-- What a string literal may have in its body as it stands. -/
def Unescaped (c : Char) : Prop := c ≠ '"' ∧ c ≠ '\\' ∧ Piece.isNewline c = false

instance : DecidablePred Unescaped := fun _ => inferInstanceAs (Decidable (_ ∧ _))

theorem length_of_plain {c : Char} (h : Plain c) : (shownChar c).toList.length ≤ 2 := by
  rcases h with eq | mem
  · rw [eq, Char.toString_eq_singleton, String.toList_singleton]
    exact Nat.le_succ 1
  · generalize shownChar c = s at mem
    fin_cases mem <;> decide

/-- A character that does not read back is shown behind a backslash that starts no escape. -/
theorem shownChar_cases (c : Char) :
    (Plain c ∧ (shownChar c).toList = encodeChar c) ∨
      ¬ Plain c ∧ ∃ d cs, (shownChar c).toList = '\\' :: d :: cs ∧ escaped? d = none ∧
        ∀ c ∈ cs, Unescaped c := by
  by_cases quote : c = '"'
  · subst quote
    exact .inl (by decide)
  by_cases backslash : c = '\\'
  · subst backslash
    exact .inl (by decide)
  by_cases newline : c = '\n'
  · subst newline
    exact .inl (by decide)
  by_cases carriage : c = '\r'
  · subst carriage
    exact .inl (by decide)
  by_cases tab : c = '\t'
  · subst tab
    exact .inl (by decide)
  by_cases nul : c.toNat = 0
  · have eq : c = '\x00' := Char.toNat_inj.mp nul
    subst eq
    exact .inr ⟨by decide, '0', [], by decide, by decide, by simp⟩
  by_cases code : (extendsGrapheme c || !isPrintable c) = true
  · have eq : (shownChar c).toList =
        '\\' :: 'u' :: ('\x7b' :: (Nat.toDigits 16 c.toNat ++ ['\x7d'])) := by
      unfold shownChar hex
      rw [if_neg quote, if_neg backslash, if_neg newline, if_neg carriage, if_neg tab, if_neg nul,
        if_pos code]
      simp
    refine .inr ⟨fun plain => ?_, 'u', _, eq, by decide, fun c mem => ?_⟩
    · have le := length_of_plain plain
      rw [eq] at le
      simp only [List.length_cons] at le
      omega
    · have all : "\x7b\x7d0123456789abcdef".toList.all (fun c => decide (Unescaped c)) = true := by
        decide
      refine of_decide_eq_true (List.all_eq_true.mp all c ?_)
      rcases List.mem_cons.mp mem with rfl | mem
      · decide
      rcases List.mem_append.mp mem with mem | mem
      · exact List.mem_append_right "\x7b\x7d".toList (isHexDigit_of_mem mem)
      · rw [List.mem_singleton.mp mem]
        decide
  · have eq : shownChar c = c.toString := by
      unfold shownChar
      rw [if_neg quote, if_neg backslash, if_neg newline, if_neg carriage, if_neg tab, if_neg nul,
        if_neg code]
    refine .inl ⟨.inl eq, ?_⟩
    unfold encodeChar
    rw [eq, if_neg quote, if_neg backslash, if_neg newline, if_neg tab, if_neg carriage]
    rw [Char.toString_eq_singleton, String.toList_singleton]

/-! ## Where the closing quote stands -/

theorem stringEnd?_append {cs : List Char} (all : ∀ c ∈ cs, Unescaped c) (rest : List Char)
    (n : Nat) : Piece.stringEnd? n (cs ++ rest) = Piece.stringEnd? (n + cs.length) rest := by
  induction cs generalizing n with
  | nil => rfl
  | cons c cs ih =>
    obtain ⟨quote, backslash, newline⟩ := all c List.mem_cons_self
    have others := ih (fun c mem => all c (List.mem_cons_of_mem _ mem)) (n + 1)
    rw [List.length_cons, Nat.add_comm cs.length 1, ← Nat.add_assoc, ← others, List.cons_append,
      Piece.stringEnd?]
    · rw [newline, if_neg Bool.false_ne_true]
    · exact quote
    · exact fun eq _ => backslash eq
    · exact fun _ _ eq => absurd eq backslash

theorem stringEnd?_escape (d : Char) (cs : List Char) (n : Nat) :
    Piece.stringEnd? n ('\\' :: d :: cs) = Piece.stringEnd? (n + 2) cs := by
  rw [Piece.stringEnd?]

theorem stringEnd?_encodeChar (c : Char) (rest : List Char) (n : Nat) :
    Piece.stringEnd? n (encodeChar c ++ rest) =
      Piece.stringEnd? (n + (encodeChar c).length) rest := by
  unfold encodeChar
  split
  · exact stringEnd?_escape _ rest n
  split
  · exact stringEnd?_escape _ rest n
  split
  · exact stringEnd?_escape _ rest n
  split
  · exact stringEnd?_escape _ rest n
  split
  · exact stringEnd?_escape _ rest n
  · next quote backslash newline _ carriage =>
    refine stringEnd?_append (fun d mem => ?_) rest n
    rw [List.mem_singleton.mp mem]
    exact ⟨quote, backslash, by simp [Piece.isNewline, newline, carriage]⟩

theorem stringEnd?_shownBody (cs rest : List Char) (n : Nat) :
    Piece.stringEnd? n (shownBody cs ++ '"' :: rest) = some (n + (shownBody cs).length + 1) := by
  induction cs generalizing n with
  | nil => simp [shownBody, Piece.stringEnd?]
  | cons c cs ih =>
    have cons : shownBody (c :: cs) = (shownChar c).toList ++ shownBody cs := List.flatMap_cons
    rw [cons, List.append_assoc, List.length_append]
    rcases shownChar_cases c with ⟨-, eq⟩ | ⟨-, d, ds, eq, -, all⟩
    · rw [eq, stringEnd?_encodeChar, ih]
      simp [Nat.add_assoc]
    · rw [eq, List.cons_append, List.cons_append, stringEnd?_escape, stringEnd?_append all, ih]
      simp only [List.length_cons, Option.some.injEq]
      omega

/-! ## What the body reads as -/

theorem shownBody_of_plain {cs : List Char} (all : ∀ c ∈ cs, Plain c) : shownBody cs = encode cs := by
  refine List.flatMap_congr fun c mem => ?_
  rcases shownChar_cases c with ⟨-, eq⟩ | ⟨none, -⟩
  · exact eq
  · exact absurd (all c mem) none

theorem decode_shownBody {cs : List Char} (all : ∀ c ∈ cs, Plain c) :
    decode (shownBody cs) = .ok cs := by
  rw [shownBody_of_plain all, decode_encode]

theorem decodeFrom_shownBody {cs : List Char} (some : ∃ c ∈ cs, ¬ Plain c) (taken : Nat)
    (found : List Char) : ∃ e, decodeFrom taken found (shownBody cs) = .error e := by
  induction cs generalizing taken found with
  | nil => simp at some
  | cons c cs ih =>
    have cons : shownBody (c :: cs) = (shownChar c).toList ++ shownBody cs := List.flatMap_cons
    rw [cons]
    rcases shownChar_cases c with ⟨plain, eq⟩ | ⟨-, d, ds, eq, unknown, -⟩
    · rw [eq, decodeFrom_encodeChar]
      refine ih ?_ _ _
      obtain ⟨c', mem, not⟩ := some
      rcases List.mem_cons.mp mem with rfl | mem
      · exact absurd plain not
      · exact ⟨c', mem, not⟩
    · refine ⟨⟨taken, Option.some d⟩, ?_⟩
      rw [eq, List.cons_append, List.cons_append, decodeFrom, unknown]

theorem decode_shownBody_error {cs : List Char} (some : ∃ c ∈ cs, ¬ Plain c) :
    ∃ e, decode (shownBody cs) = .error e :=
  decodeFrom_shownBody some 0 []

end Rulebook.Text.Quoted
