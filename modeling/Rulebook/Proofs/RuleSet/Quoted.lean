import Mathlib
import Rulebook.Proofs.RuleSet.Alone
import Rulebook.Proofs.Text.Body

/-!
# String literals in rule texts

Every text has a literal. Where the tokens of a rule text are cut, any character may stand behind a
backslash; so a literal may be cut and still have no value, and then its first bad backslash is
where the text is refused.
-/

namespace Rulebook

open Text.Quoted (Body AllKnown FirstUnknown encode decode_encode body_encode)

/-! ## Where lexemes stand -/

namespace Ink

variable {p : Position} {ks : List Ink} {cs : List Char} {l : Lexeme}
  {found before after ls : List Lexeme}

/-- A text that is cut is put together from pieces. -/
theorem exists_of_cutFrom (h : Lexeme.cutFrom p found cs = .ok ls) :
    ∃ ks, Stand ks [] ∧ texts ks = cs ∧ ls = found.reverse ++ place p ks := by
  induction p, found, cs using Lexeme.cutFrom.induct with
  | case1 p found =>
    rw [Lexeme.cutFrom] at h
    cases h
    exact ⟨[], trivial, rfl, (List.append_nil _).symm⟩
  | case2 p found c cs piece n first text ih =>
    rw [Lexeme.cutFrom, first] at h
    obtain ⟨ks, stand, left, rfl⟩ := ih h
    have behind : cs.take n ++ texts ks = cs := by rw [left, List.take_append_drop]
    have length : (cs.take n).length = n := by
      rw [List.length_take, Nat.min_eq_left (Piece.first?_le first)]
    refine ⟨⟨piece, text⟩ :: ks, ⟨⟨c, cs.take n, rfl, ?_⟩, stand⟩, ?_, ?_⟩
    · rw [List.append_nil, behind, length]
      exact first
    · rw [texts_cons, List.cons_append, behind]
    · rw [List.reverse_cons, List.append_assoc]
      rfl
  | case3 p found c cs first =>
    rw [Lexeme.cutFrom, first] at h
    cases h

theorem exists_of_place (h : place p ks = before ++ l :: after) :
    ∃ ks₁ k ks₂, ks = ks₁ ++ k :: ks₂ ∧ before = place p ks₁ ∧
      l = ⟨k.piece, k.text, p.after (texts ks₁)⟩ := by
  induction before generalizing p ks with
  | nil =>
    cases ks with
    | nil => cases h
    | cons k ks =>
      obtain ⟨rfl, -⟩ := List.cons.inj h
      exact ⟨[], k, ks, rfl, rfl, rfl⟩
  | cons b before ih =>
    cases ks with
    | nil => cases h
    | cons k ks =>
      obtain ⟨rfl, others⟩ := List.cons.inj h
      obtain ⟨ks₁, k', ks₂, rfl, rfl, rfl⟩ := ih others
      exact ⟨k :: ks₁, k', ks₂, rfl, rfl, by rw [texts_cons, Position.after_append]⟩

theorem flatMap_place (p : Position) (ks : List Ink) :
    (place p ks).flatMap Lexeme.text = texts ks := by
  induction ks generalizing p with
  | nil => rfl
  | cons k ks ih => rw [place, List.flatMap_cons, ih, texts_cons]

end Ink

/-! ## The first lexeme without a kind -/

namespace Token

theorem ofLexemes_eq_error {l : Lexeme} {before after : List Lexeme} {e : Fault × Span}
    (fine : ∀ m ∈ before, ∃ kind, kindOf? m = .ok kind) (bad : kindOf? l = .error e)
    (found : List Token) : ofLexemes found (before ++ l :: after) = .error e := by
  induction before generalizing found with
  | nil =>
    rw [List.nil_append, ofLexemes, bad]
    rfl
  | cons m before ih =>
    obtain ⟨⟨kind, is⟩, fine⟩ := List.forall_mem_cons.mp fine
    rw [List.cons_append, ofLexemes_cons is]
    exact ih fine _

theorem scan_eq_error {text : List Char} {l : Lexeme} {before after : List Lexeme}
    {e : Fault × Span} (cut : Lexeme.cut text = .ok (before ++ l :: after))
    (fine : ∀ m ∈ before, ∃ kind, kindOf? m = .ok kind) (bad : kindOf? l = .error e) :
    scan text = .error e := by
  unfold scan
  rw [cut]
  simp only
  rw [ofLexemes_eq_error fine bad]
  rfl

end Token

/-! ## Literals -/

namespace Text.Quoted

/-- A body between quotes. -/
def quote (body : List Char) : List Char := '"' :: (body ++ ['"'])

def ink (body : List Char) : Ink := ⟨.string, quote body⟩

variable {body before : List Char} {c : Char} {k : Ink} {rest : List Char}

theorem Body.stands (h : Body body) (rest : List Char) : (ink body).Stands rest := by
  have ends := h.stringEnd? [] 0
  rw [Nat.zero_add] at ends
  have form : Piece.Form .string (quote body) :=
    .string (by rw [ends, List.length_append, List.length_singleton])
  exact Piece.first?_append form fun _ _ => rfl

theorem exists_body (stands : k.Stands rest) (is : k.piece = .string) :
    ∃ body, Body body ∧ k = ink body := by
  obtain ⟨piece, text⟩ := k
  obtain ⟨c, cs, rfl, first⟩ := stands
  obtain rfl : piece = .string := is
  obtain ⟨found, -⟩ := Piece.token?_of_first? first (by simp) (by simp)
  obtain ⟨form, -⟩ := Piece.form_of_token? found
  cases form with
  | string ends =>
    obtain ⟨body, rest, rfl, inner, length⟩ := exists_of_stringEnd? ends
    have empty : rest = [] := by
      rw [List.length_append, List.length_cons] at length
      exact List.length_eq_zero_iff.mp (by omega)
    rw [empty]
    exact ⟨body, inner, rfl⟩

theorem inner_quote (body : List Char) : ((quote body).drop 1).dropLast = body := by
  rw [quote, List.drop_succ_cons, List.drop_zero, List.dropLast_concat]

theorem stringValue_ok {text : List Char} (read : decode body = .ok text) (p : Position) :
    Token.kindOf? ⟨.string, quote body, p⟩ =
      .ok (some (.literal (.text (String.ofList text)))) := by
  simp only [Token.kindOf?, Token.stringValue]
  rw [inner_quote, read]
  rfl

theorem FirstUnknown.kindOf? (first : FirstUnknown body before c) (h : Body body) (p : Position) :
    Token.kindOf? ⟨.string, quote body, p⟩ =
      .error (.unknownEscape c, .point (p.after ('"' :: before))) := by
  obtain ⟨-, rest, eq⟩ := first.escapes
  have taken : (quote body).take (1 + before.length) = '"' :: before := by
    rw [quote, eq, Nat.add_comm, List.take_succ_cons, List.append_assoc, List.take_left]
  simp only [Token.kindOf?, Token.stringValue]
  rw [inner_quote, h.decode_of_firstUnknown first]
  simp only [taken]
  rfl

/-- A literal has a value if and only if all of its escapes are known. -/
theorem Body.kindOf?_iff (h : Body body) (p : Position) :
    (∃ s, Token.kindOf? ⟨.string, quote body, p⟩ = .ok (some (.literal (.text s)))) ↔
      AllKnown body := by
  rw [← h.decode_ok_iff]
  constructor
  · rintro ⟨s, is⟩
    by_contra none
    obtain ⟨before, c, first⟩ := h.exists_firstUnknown (mt h.decode_ok_iff.mpr none)
    rw [first.kindOf? h] at is
    cases is
  · rintro ⟨text, read⟩
    exact ⟨_, stringValue_ok read p⟩

/-- Between quotes the token grammar accepts bodies, and nothing else. -/
theorem cut_quote_iff : Lexeme.cut (quote body) = .ok [⟨.string, quote body, {}⟩] ↔ Body body := by
  constructor
  · intro cut
    obtain ⟨ks, stand, -, eq⟩ := Ink.exists_of_cutFrom cut
    have one : Ink.place {} ks = [] ++ ⟨.string, quote body, {}⟩ :: [] := eq.symm
    obtain ⟨ks₁, k, ks₂, rfl, before, here⟩ := Ink.exists_of_place one
    obtain rfl : ks₁ = [] := by
      cases ks₁ with
      | nil => rfl
      | cons => cases before
    obtain ⟨piece, text, -⟩ := Lexeme.mk.inj here
    obtain ⟨body', inner, rfl⟩ := exists_body stand.1 piece.symm
    have same := (List.cons.inj text).2
    rwa [List.append_cancel_right same]
  · intro h
    have stand : Ink.Stand [ink body] [] := ⟨h.stands _, trivial⟩
    have cut := Ink.cutFrom_texts stand {} []
    rw [Ink.texts_cons, Ink.texts_nil, List.append_nil] at cut
    exact cut

end Text.Quoted

/-! ## Tokens -/

namespace RuleSet

open Text.Quoted (quote cut_quote_iff exists_body)

variable {text : String}

theorem tokens_of_scan_error {fault : Token.Fault × Span} (source : String)
    (scanned : Token.scan text.toList = .error fault) :
    tokens source text = .error (.problem (scanProblem source fault)) := by
  unfold tokens
  rw [scanned]

/-- The tokens of a text that is one literal. -/
def literalTokens (body : List Char) (s : String) : List Token :=
  [⟨.literal (.text s), String.ofList (quote body),
      .ofPositions {} (({} : Position).after (quote body))⟩,
    Token.eof (.point (({} : Position).after (quote body)))]

variable {body before : List Char} {c : Char}

theorem tokens_quote {cs : List Char} (h : Body body) (read : Text.Quoted.decode body = .ok cs)
    (source : String) : tokens source (String.ofList (quote body)) =
      .ok (literalTokens body (String.ofList cs)) := by
  refine tokens_of_scan ?_
  rw [String.toList_ofList]
  unfold Token.scan
  rw [cut_quote_iff.mpr h]
  simp only
  rw [Token.ofLexemes_cons (Text.Quoted.stringValue_ok read {})]
  rfl

theorem tokens_quote_error (h : Body body) (first : FirstUnknown body before c) (source : String) :
    tokens source (String.ofList (quote body)) = .error (.problem (scanProblem source
      (.unknownEscape c, .point (({} : Position).after ('"' :: before))))) := by
  have cut : Lexeme.cut (quote body) = .ok ([] ++ ⟨.string, quote body, {}⟩ :: []) :=
    cut_quote_iff.mpr h
  refine tokens_of_scan_error source ?_
  rw [String.toList_ofList]
  exact Token.scan_eq_error cut nofun (first.kindOf? h {})

theorem tokens_quote_iff (h : Body body) (source : String) :
    (∃ s, tokens source (String.ofList (quote body)) = .ok (literalTokens body s)) ↔
      AllKnown body := by
  constructor
  · rintro ⟨s, read⟩
    by_contra none
    obtain ⟨before, c, first⟩ := h.exists_firstUnknown none
    rw [tokens_quote_error h first] at read
    cases read
  · intro all
    obtain ⟨cs, read⟩ := h.decode_ok_iff.mpr all
    exact ⟨_, tokens_quote h read source⟩

/-- Any string lexeme of any text is a body between quotes. -/
theorem tokens_of_string {l : Lexeme} {ahead behind : List Lexeme}
    (cut : Lexeme.cut text.toList = .ok (ahead ++ l :: behind)) (is : l.piece = .string) :
    ∃ body, Body body ∧
      l = ⟨.string, quote body, ({} : Position).after (ahead.flatMap Lexeme.text)⟩ ∧
      ∃ rest, text.toList = ahead.flatMap Lexeme.text ++ (quote body ++ rest) := by
  obtain ⟨ks, stand, whole, eq⟩ := Ink.exists_of_cutFrom cut
  obtain ⟨ks₁, k, ks₂, rfl, rfl, rfl⟩ := Ink.exists_of_place eq.symm
  obtain ⟨body, inner, rfl⟩ := exists_body (Ink.stand_append.mp stand).2.1 is
  rw [Ink.flatMap_place]
  refine ⟨body, inner, rfl, Ink.texts ks₂, ?_⟩
  rw [← whole, Ink.texts_append, Ink.texts_cons]
  rfl

theorem split_of_firstUnknown (first : FirstUnknown body before c) :
    ∃ rest, quote body = '"' :: before ++ '\\' :: c :: rest := by
  obtain ⟨-, rest, eq⟩ := first.escapes
  refine ⟨rest ++ ['"'], ?_⟩
  rw [quote, eq]
  simp

/-- Every text has a literal, which is one token with this text for its value. Whatever stands
between two quotes and is cut as one literal has a value if and only if each backslash that starts
an escape has one of five characters behind it; otherwise the first that has not is where it is
refused. So it is in any other text, if the literals before this one have values. -/
theorem tokens_literal (source : String) :
    (∀ s : String, tokens source (String.ofList (quote (encode s.toList))) =
      .ok (literalTokens (encode s.toList) s)) ∧
    (∀ body, Lexeme.cut (quote body) = .ok [⟨.string, quote body, {}⟩] →
      ((∃ s, tokens source (String.ofList (quote body)) = .ok (literalTokens body s)) ↔
        AllKnown body) ∧
      (¬ AllKnown body → ∃ before c, FirstUnknown body before c ∧
        tokens source (String.ofList (quote body)) = .error (.problem (scanProblem source
          (.unknownEscape c, .point (({} : Position).after ('"' :: before))))))) ∧
    (∀ text ahead l behind, Lexeme.cut text.toList = .ok (ahead ++ l :: behind) →
      l.piece = .string → ∃ body, Body body ∧ l.text = quote body ∧
        ((∃ s, Token.kindOf? l = .ok (some (.literal (.text s)))) ↔ AllKnown body) ∧
        (¬ AllKnown body → (∀ m ∈ ahead, ∃ kind, Token.kindOf? m = .ok kind) →
          ∃ pre before c rest, FirstUnknown body before c ∧
            pre = ahead.flatMap Lexeme.text ++ '"' :: before ∧
            text.toList = pre ++ '\\' :: c :: rest ∧
            tokens source text = .error (.problem (scanProblem source
              (.unknownEscape c, .point (({} : Position).after pre)))))) := by
  refine ⟨fun s => ?_, fun body cut => ?_, fun text ahead l behind cut is => ?_⟩
  · have read := tokens_quote (body_encode s.toList) (decode_encode s.toList) source
    rwa [String.ofList_toList] at read
  · have h := cut_quote_iff.mp cut
    refine ⟨tokens_quote_iff h source, fun some => ?_⟩
    obtain ⟨before, c, first⟩ := h.exists_firstUnknown some
    exact ⟨before, c, first, tokens_quote_error h first source⟩
  · obtain ⟨body, h, rfl, post, whole⟩ := tokens_of_string cut is
    refine ⟨body, h, rfl, h.kindOf?_iff _, fun some fine => ?_⟩
    obtain ⟨before, c, first⟩ := h.exists_firstUnknown some
    obtain ⟨rest, split⟩ := split_of_firstUnknown first
    refine ⟨_, before, c, rest ++ post, first, rfl, ?_, ?_⟩
    · rw [whole, split]
      simp
    · rw [Position.after_append]
      exact tokens_of_scan_error source (Token.scan_eq_error cut fine (first.kindOf? h _))

/-- Behind a letter of two bytes. -/
theorem tokens_literal_unknown :
    tokens "unknown" (String.ofList (quote ['é', '\\', 'q'])) = .error (.problem
      (scanProblem "unknown" (.unknownEscape 'q', ⟨3, 3, 1, 3⟩))) := by
  have h : Body ['é', '\\', 'q'] := .plain (by decide) (.escape 'q' .nil)
  have here : FirstUnknown ['é', '\\', 'q'] ['é'] 'q' :=
    (Text.Quoted.firstUnknown_here (by decide) []).plain (by decide)
  obtain ⟨before, c, first, read⟩ :=
    ((tokens_literal "unknown").2.1 _ (cut_quote_iff.mpr h)).2 here.not_allKnown
  obtain ⟨rfl, rfl⟩ := first.unique here
  exact read

end RuleSet

end Rulebook
