import Mathlib
import Rulebook.Proofs.Text.Shown
import Rulebook.Proofs.Token.Ends

/-!
# The body of a string literal

Between its quotes a literal has characters by themselves and backslashes, each with the character
behind it. That is where its closing quote is looked for; what the escapes stand for is found out
later. The body is then read up to the first backslash that starts no known escape.
-/

namespace Rulebook.Text.Quoted

/-- What may stand between the quotes. A backslash takes any character with it. -/
inductive Body : List Char → Prop
  | nil : Body []
  | plain {c : Char} {cs : List Char} : Unescaped c → Body cs → Body (c :: cs)
  | escape (c : Char) {cs : List Char} : Body cs → Body ('\\' :: c :: cs)

variable {body before cs : List Char} {c d : Char}

/-! ## The closing quote -/

theorem Body.stringEnd? (h : Body body) (rest : List Char) (n : Nat) :
    Piece.stringEnd? n (body ++ '"' :: rest) = some (n + body.length + 1) := by
  induction h generalizing n with
  | nil => rfl
  | plain is _ ih =>
    rw [List.cons_append, Piece.stringEnd?_cons is.1 is.2.1, is.2.2, if_neg Bool.false_ne_true, ih,
      List.length_cons]
    congr 1
    omega
  | escape c _ ih =>
    rw [List.cons_append, List.cons_append, stringEnd?_escape, ih, List.length_cons,
      List.length_cons]
    congr 1
    omega

/-- What a quote closes is a body. -/
theorem exists_of_stringEnd? {m n : Nat} (h : Piece.stringEnd? n cs = some m) :
    ∃ body rest, cs = body ++ '"' :: rest ∧ Body body ∧ m = n + body.length + 1 := by
  induction n, cs using Piece.stringEnd?.induct with
  | case1 => cases h
  | case2 n cs =>
    cases h
    exact ⟨[], cs, rfl, .nil, rfl⟩
  | case3 => cases h
  | case4 n c cs ih =>
    rw [stringEnd?_escape] at h
    obtain ⟨body, rest, rfl, is, rfl⟩ := ih h
    refine ⟨'\\' :: c :: body, rest, rfl, .escape c is, ?_⟩
    rw [List.length_cons, List.length_cons]
    omega
  | case5 n c cs quote escape escape' newline =>
    rw [Piece.stringEnd?_cons quote (Piece.ne_escape escape escape'), if_pos newline] at h
    cases h
  | case6 n c cs quote escape escape' newline ih =>
    have other := Piece.ne_escape escape escape'
    rw [Piece.stringEnd?_cons quote other, if_neg newline] at h
    obtain ⟨body, rest, rfl, is, rfl⟩ := ih h
    refine ⟨c :: body, rest, rfl, .plain ⟨quote, other, by simpa using newline⟩ is, ?_⟩
    rw [List.length_cons]
    omega

theorem Body.encodeChar (c : Char) (h : Body cs) : Body (encodeChar c ++ cs) := by
  unfold Quoted.encodeChar
  split
  · exact .escape _ h
  split
  · exact .escape _ h
  split
  · exact .escape _ h
  split
  · exact .escape _ h
  split
  · exact .escape _ h
  · next quote backslash newline _ carriage =>
    exact .plain ⟨quote, backslash, by simp [Piece.isNewline, newline, carriage]⟩ h

theorem body_encode (text : List Char) : Body (encode text) := by
  induction text with
  | nil => exact .nil
  | cons c text ih =>
    unfold encode
    rw [List.flatMap_cons]
    exact ih.encodeChar c

/-! ## Escapes -/

/-- What may follow a backslash. -/
def Known (c : Char) : Prop := c ∈ ['"', '\\', 'n', 't', 'r']

instance : DecidablePred Known := fun c => inferInstanceAs (Decidable (c ∈ _))

theorem known_iff : Known c ↔ ∃ d, escaped? c = some d := by
  unfold Known escaped?
  repeat' split
  all_goals simp_all

/-- Behind `before` the body has a backslash that starts an escape, with `c` behind it. -/
def Escapes (body before : List Char) (c : Char) : Prop :=
  Body before ∧ ∃ rest, body = before ++ '\\' :: c :: rest

theorem not_escapes_nil : ¬ Escapes [] before c := by
  rintro ⟨-, rest, eq⟩
  simp at eq

theorem escapes_plain (is : Unescaped d) :
    Escapes (d :: cs) before c ↔ ∃ more, before = d :: more ∧ Escapes cs more c := by
  constructor
  · rintro ⟨inner, rest, eq⟩
    cases inner with
    | nil =>
      obtain ⟨rfl, -⟩ := List.cons.inj eq
      exact absurd rfl is.2.1
    | plain _ inner =>
      obtain ⟨rfl, others⟩ := List.cons.inj eq
      exact ⟨_, rfl, inner, rest, others⟩
    | escape _ _ =>
      obtain ⟨rfl, -⟩ := List.cons.inj eq
      exact absurd rfl is.2.1
  · rintro ⟨more, rfl, inner, rest, rfl⟩
    exact ⟨.plain is inner, rest, rfl⟩

theorem escapes_escape : Escapes ('\\' :: d :: cs) before c ↔
    (before = [] ∧ c = d) ∨ ∃ more, before = '\\' :: d :: more ∧ Escapes cs more c := by
  constructor
  · rintro ⟨inner, rest, eq⟩
    cases inner with
    | nil =>
      obtain ⟨-, eq⟩ := List.cons.inj eq
      exact .inl ⟨rfl, (List.cons.inj eq).1.symm⟩
    | plain is _ =>
      obtain ⟨rfl, -⟩ := List.cons.inj eq
      exact absurd rfl is.2.1
    | escape _ inner =>
      obtain ⟨-, behind⟩ := List.cons.inj eq
      obtain ⟨rfl, others⟩ := List.cons.inj behind
      exact .inr ⟨_, rfl, inner, rest, others⟩
  · rintro (⟨rfl, rfl⟩ | ⟨more, rfl, inner, rest, rfl⟩)
    · exact ⟨.nil, cs, rfl⟩
    · exact ⟨.escape d inner, rest, rfl⟩

/-- Every escape of the body is known. -/
def AllKnown (body : List Char) : Prop := ∀ before c, Escapes body before c → Known c

/-- The first escape of the body that is not known. -/
structure FirstUnknown (body before : List Char) (c : Char) : Prop where
  escapes : Escapes body before c
  unknown : ¬ Known c
  first : ∀ before' c', Escapes body before' c' → before'.length < before.length → Known c'

theorem FirstUnknown.not_allKnown (h : FirstUnknown body before c) : ¬ AllKnown body := fun all =>
  h.unknown (all before c h.escapes)

theorem FirstUnknown.unique {before' : List Char} (h : FirstUnknown body before c)
    (h' : FirstUnknown body before' d) : before = before' ∧ c = d := by
  obtain ⟨-, rest, eq⟩ := h.escapes
  obtain ⟨-, rest', eq'⟩ := h'.escapes
  rw [eq] at eq'
  have same : before.length = before'.length := by
    rcases Nat.lt_trichotomy before.length before'.length with lt | same | lt
    · exact absurd (h'.first before c h.escapes lt) h.unknown
    · exact same
    · exact absurd (h.first before' d h'.escapes lt) h'.unknown
  obtain ⟨rfl, behind⟩ := List.append_inj eq' same
  obtain ⟨-, others⟩ := List.cons.inj behind
  exact ⟨rfl, (List.cons.inj others).1⟩

theorem allKnown_plain (is : Unescaped d) : AllKnown (d :: cs) ↔ AllKnown cs := by
  constructor
  · intro all before c escapes
    exact all (d :: before) c ((escapes_plain is).mpr ⟨before, rfl, escapes⟩)
  · intro all before c escapes
    obtain ⟨more, -, inner⟩ := (escapes_plain is).mp escapes
    exact all more c inner

theorem allKnown_escape : AllKnown ('\\' :: d :: cs) ↔ Known d ∧ AllKnown cs := by
  constructor
  · intro all
    refine ⟨all [] d (escapes_escape.mpr (.inl ⟨rfl, rfl⟩)), fun before c escapes => ?_⟩
    exact all ('\\' :: d :: before) c (escapes_escape.mpr (.inr ⟨before, rfl, escapes⟩))
  · rintro ⟨known, all⟩ before c escapes
    rcases escapes_escape.mp escapes with ⟨-, rfl⟩ | ⟨more, -, inner⟩
    · exact known
    · exact all more c inner

theorem FirstUnknown.plain (is : Unescaped d) (h : FirstUnknown cs before c) :
    FirstUnknown (d :: cs) (d :: before) c := by
  refine ⟨(escapes_plain is).mpr ⟨before, rfl, h.escapes⟩, h.unknown,
    fun before' c' escapes lt => ?_⟩
  obtain ⟨more, rfl, inner⟩ := (escapes_plain is).mp escapes
  exact h.first more c' inner (Nat.lt_of_succ_lt_succ lt)

theorem FirstUnknown.escape (known : Known d) (h : FirstUnknown cs before c) :
    FirstUnknown ('\\' :: d :: cs) ('\\' :: d :: before) c := by
  refine ⟨escapes_escape.mpr (.inr ⟨before, rfl, h.escapes⟩), h.unknown,
    fun before' c' escapes lt => ?_⟩
  rcases escapes_escape.mp escapes with ⟨-, rfl⟩ | ⟨more, rfl, inner⟩
  · exact known
  · exact h.first more c' inner (Nat.lt_of_succ_lt_succ (Nat.lt_of_succ_lt_succ lt))

theorem firstUnknown_here (unknown : ¬ Known d) (cs : List Char) :
    FirstUnknown ('\\' :: d :: cs) [] d :=
  ⟨escapes_escape.mpr (.inl ⟨rfl, rfl⟩), unknown, fun _ _ _ lt => absurd lt (Nat.not_lt_zero _)⟩

/-! ## Reading -/

/-- A body is read to its end, or up to the first escape that is not known. -/
theorem Body.decodeFrom_cases (h : Body body) (taken : Nat) (done : List Char) :
    (AllKnown body ∧ ∃ text, decodeFrom taken done body = .ok text) ∨
      ∃ before c, FirstUnknown body before c ∧
        decodeFrom taken done body = .error ⟨taken + before.length, some c⟩ := by
  induction h generalizing taken done with
  | nil => exact .inl ⟨fun _ _ escapes => absurd escapes not_escapes_nil, _, rfl⟩
  | @plain d cs is _ ih =>
    have step : decodeFrom taken done (d :: cs) = decodeFrom (taken + 1) (d :: done) cs := by
      rw [decodeFrom] <;> simp [is.2.1]
    rw [step]
    rcases ih (taken + 1) (d :: done) with ⟨all, read⟩ | ⟨before, c, first, stop⟩
    · exact .inl ⟨(allKnown_plain is).mpr all, read⟩
    · refine .inr ⟨d :: before, c, first.plain is, ?_⟩
      rw [stop, List.length_cons, Nat.add_assoc, Nat.add_comm 1]
  | @escape d cs _ ih =>
    rcases known : escaped? d with _ | e
    · have unknown : ¬ Known d := by
        rw [known_iff, known]
        simp
      exact .inr ⟨[], d, firstUnknown_here unknown cs, by rw [decodeFrom, known]; rfl⟩
    · have is : Known d := known_iff.mpr ⟨e, known⟩
      have step : decodeFrom taken done ('\\' :: d :: cs) =
          decodeFrom (taken + 2) (e :: done) cs := by
        rw [decodeFrom, known]
      rw [step]
      rcases ih (taken + 2) (e :: done) with ⟨all, read⟩ | ⟨before, c, first, stop⟩
      · exact .inl ⟨allKnown_escape.mpr ⟨is, all⟩, read⟩
      · refine .inr ⟨'\\' :: d :: before, c, first.escape is, ?_⟩
        rw [stop, List.length_cons, List.length_cons, Nat.add_assoc, Nat.add_comm 2]

/-- Where some escape is not known there is a first one. -/
theorem Body.exists_firstUnknown (h : Body body) (some : ¬ AllKnown body) :
    ∃ before c, FirstUnknown body before c := by
  rcases h.decodeFrom_cases 0 [] with ⟨all, -⟩ | ⟨before, c, first, -⟩
  · exact absurd all some
  · exact ⟨before, c, first⟩

theorem Body.decode_ok_iff (h : Body body) : (∃ text, decode body = .ok text) ↔ AllKnown body := by
  rcases h.decodeFrom_cases 0 [] with ⟨all, read⟩ | ⟨before, c, first, stop⟩
  · exact ⟨fun _ => all, fun _ => read⟩
  · refine ⟨?_, fun all => absurd all first.not_allKnown⟩
    rintro ⟨text, read⟩
    rw [decode, stop] at read
    cases read

theorem Body.decode_of_firstUnknown (h : Body body) (first : FirstUnknown body before c) :
    decode body = .error ⟨before.length, some c⟩ := by
  rcases h.decodeFrom_cases 0 [] with ⟨all, -⟩ | ⟨before', c', first', stop⟩
  · exact absurd all first.not_allKnown
  · obtain ⟨rfl, rfl⟩ := first.unique first'
    rw [decode, stop, Nat.zero_add]

end Rulebook.Text.Quoted
