import Mathlib
import Rulebook.Proofs.Grammar.Exact
import Rulebook.Proofs.Number.Digits
import Rulebook.Proofs.Result
import Rulebook.Proofs.RuleSet.Alone

/-!
# Integers in rule texts

The digits of an integer have no sign of their own. A minus sign before them becomes part of the
number where it is read, in an expression as in a salience. So the least integer, whose digits are
one beyond the greatest, cannot be written.
-/

namespace Rulebook

/-! ## Digits -/

namespace Number

/-- How an integer is written. -/
def decimal (n : Int64) : List Char := (toString n.toInt).toList

/-- The digits of an integer, without its sign. -/
def magnitude (n : Int64) : List Char := Nat.toDigits 10 n.toInt.natAbs

variable {n : Int64}

theorem decimal_eq (n : Int64) :
    decimal n = if n.toInt < 0 then '-' :: magnitude n else magnitude n := by
  unfold decimal magnitude
  rw [Int.toString_eq_repr, Int.repr_eq_if]
  by_cases neg : n.toInt < 0
  · have size : (-n.toInt).toNat = n.toInt.natAbs := by omega
    rw [if_neg (by omega), if_pos neg, size, String.toList_append, Nat.toList_repr]
    rfl
  · have size : n.toInt.toNat = n.toInt.natAbs := by omega
    rw [if_pos (by omega), if_neg neg, size, Nat.toList_repr]

theorem natAbs_lt (other : n ≠ Int64.minValue) : n.toInt.natAbs < 0x8000000000000000 := by
  have ne : n.toInt ≠ Int64.minValue.toInt := mt Int64.toInt_inj.mp other
  have least : Int64.minValue.toInt = -0x8000000000000000 := rfl
  have low := n.le_toInt
  have high := n.toInt_lt
  omega

theorem readInt?_magnitude (other : n ≠ Int64.minValue) :
    readInt? (magnitude n) = some (.ofInt n.toInt.natAbs) :=
  readInt?_toDigits _ (natAbs_lt other)

theorem toInt_natAbs (other : n ≠ Int64.minValue) :
    (Int64.ofInt n.toInt.natAbs).toInt = n.toInt.natAbs := by
  have lt := natAbs_lt other
  exact Int64.toInt_ofInt_of_le (by omega) (by omega)

/-- The sign is put back. -/
theorem ofInt_natAbs (n : Int64) :
    (if n.toInt < 0 then -Int64.ofInt n.toInt.natAbs else .ofInt n.toInt.natAbs) = n := by
  by_cases neg : n.toInt < 0
  · have eq : -(n.toInt.natAbs : Int) = n.toInt := by omega
    rw [if_pos neg, ← Int64.ofInt_neg, eq, Int64.ofInt_toInt]
  · have eq : (n.toInt.natAbs : Int) = n.toInt := by omega
    rw [if_neg neg, eq, Int64.ofInt_toInt]

end Number

open Number (decimal magnitude)

/-! ## Tokens -/

namespace Token

variable {n : Int64} {p : Position} {g cs : List Char} {ts us : List Token}

/-- The digits of an integer from `p` on. -/
def digitsAt (p : Position) (n : Int64) : Token :=
  writtenAt p (.integer (magnitude n)) (.literal (.int (.ofInt n.toInt.natAbs)))

/-- What an integer has for tokens from `p` on. -/
def decimalAt (p : Position) (n : Int64) : List Token :=
  if n.toInt < 0 then [writtenAt p (.op .minus) (.operator .minus), digitsAt (p.advance '-') n]
  else [digitsAt p n]

theorem map_bare_decimalAt (p q : Position) (n : Int64) :
    (decimalAt p n).map bare = (decimalAt q n).map bare := by
  unfold decimalAt
  split <;> rfl

theorem Laid.digits (h : Laid ((p.after g).after (magnitude n)) cs ts) (gap : Gap g)
    (other : n ≠ Int64.minValue) (stop : NotFirst Piece.isWordChar cs)
    (point : NotFirst (· = '.') cs) :
    Laid p (g ++ (magnitude n ++ cs)) (digitsAt (p.after g) n :: ts) :=
  .cons gap (Ink.means_integer (Number.readInt?_magnitude other))
    (Ink.stands_integer Nat.toDigits_ne_nil (Number.all_isDigit_toDigits _) stop point) h

theorem Laid.decimal (h : Laid ((p.after g).after (decimal n)) cs ts) (gap : Gap g)
    (other : n ≠ Int64.minValue) (stop : NotFirst Piece.isWordChar cs)
    (point : NotFirst (· = '.') cs) :
    Laid p (g ++ (decimal n ++ cs)) (decimalAt (p.after g) n ++ ts) := by
  unfold decimalAt
  rw [Number.decimal_eq] at h ⊢
  by_cases neg : n.toInt < 0
  · rw [if_pos neg] at h ⊢
    rw [if_pos neg]
    exact .cons gap (Ink.means_op .minus) Ink.stands_minus (.digits h .nil other stop point)
  · rw [if_neg neg] at h ⊢
    rw [if_neg neg]
    exact .digits h gap other stop point

/-- An integer is read wherever it stands, if it ends there. -/
theorem readFrom_decimal (h : ReadFrom (p.after (decimal n)) cs ts) (other : n ≠ Int64.minValue)
    (stop : NotFirst Piece.isWordChar cs) (point : NotFirst (· = '.') cs) :
    ReadFrom p (decimal n ++ cs) (decimalAt p n ++ ts) :=
  (Laid.decimal (g := []) h.laid .nil other stop point).reads

theorem Spells.decimal (h : Spells cs us) (gap : Gap g) (other : n ≠ Int64.minValue)
    (stop : NotFirst Piece.isWordChar cs) (point : NotFirst (· = '.') cs) :
    Spells (g ++ (Number.decimal n ++ cs)) (decimalAt {} n ++ us) := by
  intro p
  obtain ⟨ts, laid, same⟩ := h ((p.after g).after (Number.decimal n))
  refine ⟨_, laid.decimal gap other stop point, ?_⟩
  rw [List.map_append, List.map_append, same, map_bare_decimalAt]

end Token

/-- Two texts, one right behind the other. -/
theorem Span.cover_ofPositions (p : Position) (s t : List Char) :
    (ofPositions p (p.after s)).cover (ofPositions (p.after s) ((p.after s).after t)) =
      ofPositions p (p.after (s ++ t)) := by
  have le : (p.after s).offset ≤ ((p.after s).after t).offset := by
    rw [Position.offset_after (p.after s)]
    omega
  unfold cover ofPositions
  rw [Position.after_append, Nat.max_eq_left le]

/-! ## Expressions -/

namespace Grammar

open Rulebook.Grammar.Parser
open Token (decimalAt digitsAt)

variable {n : Int64} {p : Position} {rest : List Token} {room : Nat}

/-- How many signs an integer has. -/
def signs (n : Int64) : Nat := if n.toInt < 0 then 1 else 0

theorem derivesIn_decimal (other : n ≠ Int64.minValue) (p : Position) (rest : List Token) :
    DerivesIn (signs n) .unary (decimalAt p n ++ rest)
      (.literal (.int n) (.ofPositions p (p.after (decimal n)))) rest := by
  have digits (q : Position) : DerivesIn 0 .unary (digitsAt q n :: rest)
      (.literal (.int (.ofInt n.toInt.natAbs)) (digitsAt q n).span) rest :=
    .plain (.literal rfl)
  unfold decimalAt signs
  rw [Number.decimal_eq]
  by_cases neg : n.toInt < 0
  · have fits : Number.toInt64? (-(Int64.ofInt n.toInt.natAbs).toInt) = some n := by
      have eq : -(n.toInt.natAbs : Int) = n.toInt := by omega
      rw [Number.toInt_natAbs other, eq, Number.toInt64?_toInt]
    have whole : DerivesIn 1 .unary (Token.writtenAt p (.op .minus) (.operator .minus) ::
        digitsAt (p.advance '-') n :: rest) _ rest :=
      .sign rfl (digits (p.advance '-'))
    rw [if_pos neg, if_pos neg, if_pos neg]
    rw [signed, fits] at whole
    have span := Span.cover_ofPositions p ['-'] (magnitude n)
    exact span ▸ whole
  · rw [if_neg neg, if_neg neg, if_neg neg]
    have same := Number.ofInt_natAbs n
    rw [if_neg neg] at same
    have whole := digits p
    rw [same] at whole
    exact whole

/-- As an operand, before anything that is no link. -/
theorem unary_decimal (other : n ≠ Int64.minValue) (enough : signs n ≤ room)
    (follows : Follows .unary (first rest)) : (unary room).on (decimalAt p n ++ rest) =
      (.ok (.literal (.int n) (.ofPositions p (p.after (decimal n)))), rest) := by
  have read := ((derivesIn_decimal other p rest).mono enough).readIn fun _ => follows
  exact read.resolve_right fun deep => deep.1

/-- As a whole expression. -/
theorem expression_decimal (other : n ≠ Int64.minValue) (enough : signs n < room)
    (follows : Follows .expr (first rest)) : (expression room).on (decimalAt p n ++ rest) =
      (.ok (.literal (.int n) (.ofPositions p (p.after (decimal n)))), rest) := by
  obtain ⟨r, rfl⟩ := Nat.exists_eq_add_one_of_ne_zero (Nat.ne_of_gt (Nat.zero_lt_of_lt enough))
  have within := (derivesIn_decimal other p rest).mono (Nat.le_of_lt_succ enough)
  exact ((within.expr trivial).reads follows).resolve_right fun deep => deep.1

/-! ## Salience -/

theorem derivesSalience_decimal (n : Int64) (p : Position) (rest : List Token) {key : Token}
    (is : key.kind = .keyword .salience) :
    DerivesSalience (key :: (decimalAt p n ++ rest)) n rest := by
  have same := Number.ofInt_natAbs n
  unfold decimalAt
  by_cases neg : n.toInt < 0
  · have whole : DerivesSalience (key :: Token.writtenAt p (.op .minus) (.operator .minus) ::
        digitsAt (p.advance '-') n :: rest) (-Int64.ofInt n.toInt.natAbs) rest :=
      .negative is rfl rfl
    rw [if_pos neg] at same ⊢
    rwa [same] at whole
  · have whole : DerivesSalience (key :: digitsAt p n :: rest) (.ofInt n.toInt.natAbs) rest :=
      .plain is rfl
    rw [if_neg neg] at same ⊢
    rwa [same] at whole

/-- What a rule says behind its salience. -/
def ruleTail (room : Nat) (start : Token) (name : String) (description : Option String)
    (salience : Int64) : Parser Rule := do
  let _ ← mark .openBrace
  let _ ← keyword .when
  let condition ← expression room
  let _ ← keyword .«then»
  let actions ← statements room (← get) []
  if actions.isEmpty then expected .action
  else
    let stop ← mark .closeBrace
    return ⟨name, description, salience, condition, actions, start.span.cover stop.span⟩

theorem ruleBody_eq (room : Nat) (start : Token) (name : String) :
    ruleBody room start name = (do
      let description ← description
      let salience ← declaredSalience
      ruleTail room start name description salience) := rfl

/-- Nothing behind it looks at the salience. -/
theorem ruleTail_eq_map (room : Nat) (start : Token) (name : String) (d : Option String)
    (m n : Int64) : ruleTail room start name d n =
      (fun r : Rule => { r with salience := n }) <$> ruleTail room start name d m := by
  unfold ruleTail
  simp only [map_bind]
  refine bind_congr fun _ => bind_congr fun _ => bind_congr fun _ => bind_congr fun _ =>
    bind_congr fun _ => bind_congr fun actions => ?_
  cases actions.isEmpty
  · simp
  · rfl

namespace Parser

variable {α β : Type}

theorem on_map (f : α → β) (x : Parser α) (ts : List Token) :
    (f <$> x).on ts = Prod.map (Except.map f) id (x.on ts) := by
  rw [← bind_pure_comp, on_bind]
  rcases x.on ts with ⟨e | a, us⟩ <;> rfl

/-- What is read for a rule depends on what is read only. -/
theorem on_inRule_map {x : Parser α} {y : Parser β} {f : β → α} {ts us : List Token}
    (h : x.on ts = Prod.map (Except.map f) id (y.on us)) (name : String) :
    (inRule name x).on ts = Prod.map (Except.map f) id ((inRule name y).on us) := by
  unfold inRule
  rw [on_tryCatch, on_tryCatch, h]
  rcases y.on us with ⟨(_ | _) | a, vs⟩ <;> rfl

end Parser

/-- A description, if there is one. -/
def IsDescription (ds : List Token) : Prop :=
  ds = [] ∨ ∃ t s, ds = [t] ∧ t.kind = .literal (.text s)

theorem IsDescription.on {ds : List Token} (h : IsDescription ds) :
    ∃ d, ∀ us, (∀ s, (first us).kind ≠ .literal (.text s)) →
      description.on (ds ++ us) = (.ok d, us) := by
  rcases h with rfl | ⟨t, s, rfl, is⟩
  · exact ⟨none, fun us start => DerivesDescription.none.on start⟩
  · exact ⟨some s, fun us start => (DerivesDescription.some is).on start⟩

/-- A rule with an integer for its salience is the rule without it, but for this. -/
theorem rule_decimal {start name key : Token} {ds : List Token}
    (starts : start.kind = .keyword .rule) (named : name.kind = .identifier)
    (described : IsDescription ds) (is : key.kind = .keyword .salience)
    (text : ∀ s, (first rest).kind ≠ .literal (.text s))
    (once : (first rest).isKeyword .salience = false) :
    (rule room).on (start :: name :: (ds ++ key :: (decimalAt p n ++ rest))) =
      Prod.map (Except.map fun r => { r with salience := n }) id
        ((rule room).on (start :: name :: (ds ++ rest))) := by
  obtain ⟨d, describes⟩ := described.on
  have header (us : List Token) : (rule room).on (start :: name :: us) =
      (inRule name.text (ruleBody room start name.text)).on us := by
    have keyword : ruleKeyword.on (start :: name :: us) = (.ok start, name :: us) := by
      unfold ruleKeyword
      rw [on_bind_ok (on_nextIf_pos (Token.isKeyword_iff.mpr starts) (by simp [starts]) _)]
      rfl
    unfold rule
    rw [on_bind_ok keyword, on_bind_ok (on_nextIf_pos (by simp [named]) (by simp [named]) _)]
  rw [header, header]
  refine on_inRule_map ?_ _
  have ranked := (derivesSalience_decimal n p rest is).on once
  have unranked := DerivesSalience.none.on once
  rw [ruleBody_eq, on_bind_ok (describes _ (by simp [is])), on_bind_ok ranked,
    on_bind_ok (describes _ text), on_bind_ok unranked, ← on_map, ← ruleTail_eq_map]

end Grammar

/-! ## A text -/

namespace RuleSet

open Grammar
open Token (Spells decimalAt)

/-- An integer as the salience and as the condition of a rule. -/
def twice (n : Int64) : String :=
  "rule R salience " ++ toString n.toInt ++ " \x7b when " ++ toString n.toInt ++ " then F();\x7d"

def twiceTokens (n : Int64) : List Token :=
  [⟨.keyword .rule, "rule", {}⟩, ⟨.identifier, "R", {}⟩, ⟨.keyword .salience, "salience", {}⟩] ++
    (decimalAt {} n ++ ([⟨.mark .openBrace, "\x7b", {}⟩, ⟨.keyword .when, "when", {}⟩] ++
      (decimalAt {} n ++ closers)))

variable {n : Int64}

theorem spells_twice (other : n ≠ Int64.minValue) : Spells (twice n).toList (twiceTokens n) := by
  have space : Gap [' '] := .blank rfl .nil
  have stop (cs : List Char) : NotFirst Piece.isWordChar (' ' :: cs) := notFirst_cons (by decide) _
  have point (cs : List Char) : NotFirst (· = '.') (' ' :: cs) := notFirst_cons (by decide) _
  have condition := spells_closers.decimal space other (stop _) (point _)
  have body := condition.word .nil (w := "when") (by decide) rfl (stop _)
  have header := ((body.gap space).mark space .openBrace).decimal space other (stop _) (point _)
  have ranked := header.word .nil (w := "salience") (by decide) rfl (stop _)
  have named := (ranked.gap space).word .nil (w := "R") (by decide) rfl (stop _)
  have whole := (named.gap space).word .nil (w := "rule") (by decide) rfl (stop _)
  have first : "rule R salience ".toList = "rule".toList ++ ([' '] ++ ("R".toList ++ ([' '] ++
      ("salience".toList ++ [' '])))) := rfl
  have second : " \x7b when ".toList = [' '] ++ (Mark.openBrace.char :: ([' '] ++ ("when".toList ++
      [' ']))) := rfl
  have text : (twice n).toList = "rule R salience ".toList ++ (decimal n ++
      (" \x7b when ".toList ++ (decimal n ++ " then F();\x7d".toList))) := by
    have number : (toString n.toInt).toList = decimal n := rfl
    unfold twice
    rw [String.toList_append, String.toList_append, String.toList_append, String.toList_append,
      number, List.append_assoc, List.append_assoc, List.append_assoc]
  rw [text, first, second]
  simp only [List.append_assoc, List.cons_append, List.nil_append] at whole ⊢
  exact whole

theorem derivesRuleIn_twice (other : n ≠ Int64.minValue) {D : Nat} (enough : signs n ≤ D)
    (rest : List Token) : ∃ r, DerivesRuleIn (D + 1) (twiceTokens n ++ rest) r rest ∧
      r.salience = n ∧ r.condition.bare = .literal (.int n) {} := by
  have condition := ((derivesIn_decimal other {} (closers ++ rest)).mono enough).expr trivial
  have call : DerivesStatementIn (D + 1) (closers ++ rest).tail _ (closers ++ rest |>.drop 5) :=
    .call (.call rfl (.noArguments rfl rfl) .stop) trivial rfl
  have split : twiceTokens n ++ rest =
      ⟨.keyword .rule, "rule", {}⟩ :: ⟨.identifier, "R", {}⟩ ::
        ⟨.keyword .salience, "salience", {}⟩ :: (decimalAt {} n ++
          (⟨.mark .openBrace, "\x7b", {}⟩ :: ⟨.keyword .when, "when", {}⟩ ::
            (decimalAt {} n ++ (closers ++ rest)))) := by
    simp [twiceTokens]
  rw [split]
  exact ⟨_, .mk rfl rfl .none (derivesSalience_decimal n {} _ rfl) rfl rfl condition rfl
    (.cons call .nil) (by simp) rfl, rfl, rfl⟩

theorem parse_twice (other : n ≠ Int64.minValue) (source : String) {limits : Limits}
    (enough : signs n < limits.depth) (fits : (twice n).utf8ByteSize ≤ limits.bytes) :
    ∃ r span, parse source limits (twice n) = .ok [r] ∧ r.salience = n ∧
      r.condition = .literal (.int n) span := by
  obtain ⟨D, depth⟩ := Nat.exists_eq_add_one_of_ne_zero (Nat.ne_of_gt (Nat.zero_lt_of_lt enough))
  obtain ⟨r, derived, ranked, condition⟩ :=
    derivesRuleIn_twice other (by omega : signs n ≤ D) [Token.eof {}]
  rw [← depth] at derived
  obtain ⟨r', parsed, same⟩ := parse_of_spells (spells_twice other) derived source fits
  obtain ⟨-, -, ranked', condition', -⟩ := Rule.mk.inj same
  rw [condition] at condition'
  rcases literal : r'.condition with ⟨v, span⟩ | _ | _ | _ | _ | _ | _ | _ | _ | _ <;>
    rw [literal] at condition' <;> cases condition'
  exact ⟨r', span, parsed, ranked'.trans ranked, literal⟩

/-- Every integer but the least can be written. Wherever its text stands and ends, it is read as an
optional sign and digits; these are its literal as an operand and as a whole expression, and its
salience behind the keyword; and a text that has it in both places is a rule with both. -/
theorem parse_decimal (other : n ≠ Int64.minValue) :
    (∀ p cs ts, NotFirst Piece.isWordChar cs → NotFirst (· = '.') cs →
      Token.ReadFrom (p.after (decimal n)) cs ts →
        Token.ReadFrom p (decimal n ++ cs) (decimalAt p n ++ ts)) ∧
    (∀ p room rest, signs n ≤ room → Follows .unary (Parser.first rest) →
      (unary room).on (decimalAt p n ++ rest) =
        (.ok (.literal (.int n) (.ofPositions p (p.after (decimal n)))), rest)) ∧
    (∀ p room rest, signs n < room → Follows .expr (Parser.first rest) →
      (expression room).on (decimalAt p n ++ rest) =
        (.ok (.literal (.int n) (.ofPositions p (p.after (decimal n)))), rest)) ∧
    (∀ p room start name key ds rest, start.kind = .keyword .rule → name.kind = .identifier →
      IsDescription ds → key.kind = .keyword .salience →
      (∀ s, (Parser.first rest).kind ≠ .literal (.text s)) →
      (Parser.first rest).isKeyword .salience = false →
        (rule room).on (start :: name :: (ds ++ key :: (decimalAt p n ++ rest))) =
          Prod.map (Except.map fun r => { r with salience := n }) id
            ((rule room).on (start :: name :: (ds ++ rest)))) ∧
    (∀ source limits, signs n < limits.depth → (twice n).utf8ByteSize ≤ limits.bytes →
      ∃ r span, parse source limits (twice n) = .ok [r] ∧ r.salience = n ∧
        r.condition = .literal (.int n) span) := by
  refine ⟨?_, ?_, ?_, ?_, ?_⟩
  · intro p cs ts stop point read
    exact Token.readFrom_decimal read other stop point
  · intro p room rest enough follows
    exact unary_decimal other enough follows
  · intro p room rest enough follows
    exact expression_decimal other enough follows
  · intro p room start name key ds rest starts named described is text once
    exact rule_decimal starts named described is text once
  · intro source limits enough fits
    exact parse_twice other source enough fits

/-- The least integer that can be written. -/
theorem parse_decimal_above_least :
    -9223372036854775807 ≠ Int64.minValue ∧
      ∃ r span, parse "least" {} (twice (-9223372036854775807)) = .ok [r] ∧
        r.salience = -9223372036854775807 ∧
        r.condition = .literal (.int (-9223372036854775807)) span := by
  have other : -9223372036854775807 ≠ Int64.minValue := by decide
  exact ⟨other, (parse_decimal other).2.2.2.2 "least" {} (by decide) (by decide +kernel)⟩

/-- The digits of the least integer are out of range, behind the keyword as in an expression. -/
theorem parse_least :
    parse "least" {} (twice Int64.minValue) =
        .error (.problem (scanProblem "least"
          (.integerRange "9223372036854775808", ⟨17, 36, 1, 18⟩))) ∧
      parse "least" {} (asCondition (decimal Int64.minValue)) =
        .error (.problem (scanProblem "least"
          (.integerRange "9223372036854775808", ⟨15, 34, 1, 16⟩))) := by
  have first : error? (Token.scan (twice Int64.minValue).toList) =
      some (.integerRange "9223372036854775808", ⟨17, 36, 1, 18⟩) := by
    decide +kernel
  have second : error? (Token.scan (asCondition (decimal Int64.minValue)).toList) =
      some (.integerRange "9223372036854775808", ⟨15, 34, 1, 16⟩) := by
    decide +kernel
  exact ⟨parse_of_scan_error (error?_eq_some_iff.mp first) (by decide +kernel),
    parse_of_scan_error (error?_eq_some_iff.mp second) (by decide +kernel)⟩

end RuleSet

end Rulebook
