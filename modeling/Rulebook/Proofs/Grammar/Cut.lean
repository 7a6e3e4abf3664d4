import Mathlib
import Rulebook.Proofs.Grammar.Attempts

/-!
# The limit only cuts off

With less room a parser does what it does with more, as long as the room lasts; then it stops as too
deep. That stop is passed on by every parser, and it ends the reading of rules: no recovery turns it
into another failure, and the rules read after a failure have as much room as those before it.
-/

namespace Rulebook.Grammar

open Rulebook.Grammar.Parser

variable {α β : Type}

/-- The first parser does what the second does, or stops as too deep. -/
def Cuts (p q : Parser α) : Prop :=
  ∀ ts, p.on ts = q.on ts ∨ ∃ us, p.on ts = (.error .tooDeep, us)

namespace Cuts

variable {p q : Parser α} {k l : α → Parser β}

theorem refl (p : Parser α) : Cuts p p := fun _ => .inl rfl

theorem tooDeep (q : Parser α) : Cuts (throw .tooDeep) q := fun ts => .inr ⟨ts, rfl⟩

theorem bind (head : Cuts p q) (tail : ∀ a, Cuts (k a) (l a)) : Cuts (p >>= k) (q >>= l) := by
  intro ts
  rcases head ts with same | ⟨us, cut⟩
  · rw [on_bind, on_bind, same]
    rcases q.on ts with ⟨e | a, us⟩
    · exact .inl rfl
    · exact tail a us
  · exact .inr ⟨us, on_bind_error cut k⟩

/-- What follows the same parser. -/
theorem after (p : Parser α) (tail : ∀ a, Cuts (k a) (l a)) : Cuts (p >>= k) (p >>= l) :=
  (refl p).bind tail

theorem inRule (h : Cuts p q) (name : String) : Cuts (inRule name p) (inRule name q) := by
  intro ts
  rcases h ts with same | ⟨us, cut⟩
  · refine .inl ?_
    unfold Parser.inRule
    rw [on_tryCatch, on_tryCatch, same]
  · exact .inr ⟨us, on_inRule_tooDeep cut⟩

end Cuts

/-! ## Level by level -/

variable {room room' : Nat}

theorem Binary.moreParser_cuts {b : Binary} (le : room ≤ room')
    (operand : ∀ r < room, ∀ r', r ≤ r' → Cuts (b.operandParser r) (b.operandParser r'))
    (left : Expr) : Cuts (b.moreParser room left) (b.moreParser room' left) := by
  induction room generalizing room' left with
  | zero =>
    intro ts
    rcases op : b.op? (first ts) with _ | build
    · rw [moreParser_of_none op, moreParser_of_none op]
      exact .inl rfl
    · rw [moreParser_zero, op]
      exact .inr ⟨_, rfl⟩
  | succ room ih =>
    rcases room' with _ | room'
    · cases le
    intro ts
    rcases op : b.op? (first ts) with _ | build
    · rw [moreParser_of_none op, moreParser_of_none op]
      exact .inl rfl
    · rw [moreParser_succ, moreParser_succ, op]
      have le := Nat.le_of_succ_le_succ le
      have more := (operand room (Nat.lt_succ_self room) room' le).bind fun right =>
        ih le (fun r lt => operand r (Nat.lt_succ_of_lt lt)) (build left right)
      exact more (rest ts)

theorem Binary.parser_cuts {b : Binary} (le : room ≤ room')
    (operand : Cuts (b.operandParser room) (b.operandParser room'))
    (smaller : ∀ r < room, ∀ r', r ≤ r' → Cuts (b.operandParser r) (b.operandParser r')) :
    Cuts (b.parser room) (b.parser room') := by
  rw [parser_eq, parser_eq]
  exact operand.bind fun left => moreParser_cuts le smaller left

theorem comparison_cuts (operand : Cuts (sum room) (sum room')) :
    Cuts (comparison room) (comparison room') := by
  unfold comparison
  refine operand.bind fun l => .after peek fun t => ?_
  split
  · exact .refl _
  · exact .after next fun _ => operand.bind fun r => .refl _

theorem unary_cuts (le : room ≤ room') (inner : Cuts (primary room) (primary room'))
    (smaller : ∀ r < room, ∀ r', r ≤ r' → Cuts (unary r) (unary r')) :
    Cuts (unary room) (unary room') := by
  unfold unary
  refine .after peek fun t => ?_
  split
  · exact inner
  · refine .after next fun sign => ?_
    rcases room with _ | room
    · exact .tooDeep _
    · rcases room' with _ | room'
      · cases le
      have operand := smaller room (Nat.lt_succ_self room) room' (Nat.le_of_succ_le_succ le)
      exact operand.bind fun _ => .refl _

theorem primary_cuts (chains : Cuts (chain room) (chain room'))
    (inner : Cuts (expression room) (expression room')) :
    Cuts (primary room) (primary room') := by
  unfold primary
  refine .after peek fun t => ?_
  split
  · exact .refl _
  · exact chains
  · exact .after next fun _ => inner.bind fun _ => .refl _
  · exact .refl _

theorem separated_cuts (inner : Cuts (expression room) (expression room')) (bound : List Token)
    (found : List Expr) :
    Cuts (separated (expression room) bound found) (separated (expression room') bound found) := by
  induction bound generalizing found with
  | nil => exact .refl _
  | cons x bound ih =>
    unfold separated
    refine inner.bind fun e => .after (nextIf _) fun comma => ?_
    split
    · exact ih (e :: found)
    · exact .refl _

theorem arguments_cuts (inner : Cuts (expression room) (expression room')) :
    Cuts (arguments room) (arguments room') := by
  unfold arguments
  refine .after (mark _) fun _ => .after (nextIf _) fun close => ?_
  split
  · exact .refl _
  · exact .after get fun bound => separated_cuts inner bound []

theorem links_cuts (le : room ≤ room')
    (args : ∀ r < room, ∀ r', r ≤ r' → Cuts (arguments r) (arguments r'))
    (inner : ∀ r < room, ∀ r', r ≤ r' → Cuts (expression r) (expression r'))
    (smaller : ∀ r < room, ∀ r', r ≤ r' → ∀ o, Cuts (links r o) (links r' o)) (object : Expr) :
    Cuts (links room object) (links room' object) := by
  unfold links
  rcases room with _ | room
  · refine .after (nextIf _) fun dot => ?_
    split
    · exact .tooDeep _
    · refine .after (nextIf _) fun bracket => ?_
      split
      · exact .tooDeep _
      · exact .refl _
  · rcases room' with _ | room'
    · cases le
    have lt := Nat.lt_succ_self room
    have le := Nat.le_of_succ_le_succ le
    refine .after (nextIf _) fun dot => ?_
    split
    · refine .after peek fun t => ?_
      split
      · exact .refl _
      · refine .after next fun _ => .after peek fun opening => ?_
        split
        · exact (args room lt room' le).bind fun _ => smaller room lt room' le _
        · exact smaller room lt room' le _
    · refine .after (nextIf _) fun bracket => ?_
      split
      · exact (inner room lt room' le).bind fun _ => .after (mark _) fun _ =>
          smaller room lt room' le _
      · exact .refl _

theorem chain_cuts (args : Cuts (arguments room) (arguments room'))
    (linked : ∀ o, Cuts (links room o) (links room' o)) :
    Cuts (chain room) (chain room') := by
  unfold chain
  refine .after next fun head => .after peek fun opening => ?_
  split
  · exact args.bind fun _ => linked _
  · exact linked _

theorem expression_cuts (le : room ≤ room')
    (smaller : ∀ r < room, ∀ r', r ≤ r' → Cuts (disjunction r) (disjunction r')) :
    Cuts (expression room) (expression room') := by
  unfold expression
  rcases room with _ | room
  · exact .tooDeep _
  · rcases room' with _ | room'
    · cases le
    exact smaller room (Nat.lt_succ_self room) room' (Nat.le_of_succ_le_succ le)

/-- Less room only cuts off what is read with more. -/
structure CutAt (room room' : Nat) : Prop where
  expression : Cuts (expression room) (expression room')
  arguments : Cuts (arguments room) (arguments room')
  links : ∀ o, Cuts (links room o) (links room' o)
  operand : ∀ b : Binary, Cuts (b.operandParser room) (b.operandParser room')
  whole : Cuts (disjunction room) (disjunction room')

theorem cutAt (le : room ≤ room') : CutAt room room' := by
  -- With the same room a parser calls only those settled before it here, and any with less.
  induction room using Nat.strong_induction_on generalizing room' with
  | _ room ih =>
    have inner := expression_cuts le fun r lt _ le => (ih r lt le).whole
    have args := arguments_cuts inner
    have linked := links_cuts le (fun r lt _ le => (ih r lt le).arguments)
      (fun r lt _ le => (ih r lt le).expression) fun r lt _ le => (ih r lt le).links
    have smaller (b : Binary) : ∀ r < room, ∀ r', r ≤ r' →
        Cuts (b.operandParser r) (b.operandParser r') := fun r lt _ le => (ih r lt le).operand b
    have primaries := primary_cuts (chain_cuts args linked) inner
    have unaries := unary_cuts le primaries (smaller .product)
    have products := Binary.parser_cuts (b := .product) le unaries (smaller .product)
    have sums := Binary.parser_cuts (b := .sum) le products (smaller .sum)
    have comparisons := comparison_cuts sums
    have conjunctions := Binary.parser_cuts (b := .and) le comparisons (smaller .and)
    have whole := Binary.parser_cuts (b := .or) le conjunctions (smaller .or)
    refine ⟨inner, args, linked, fun b => ?_, whole⟩
    cases b with
    | or => exact conjunctions
    | and => exact comparisons
    | sum => exact products
    | product => exact unaries

/-! ## Statements and rules -/

theorem statement_cuts (le : room ≤ room') : Cuts (statement room) (statement room') := by
  have cut := cutAt le
  unfold statement
  refine .after peek fun t => ?_
  split
  · refine (chain_cuts cut.arguments cut.links).bind fun target => .after peek fun assigns => ?_
    split
    · split
      · exact .after next fun _ => cut.expression.bind fun _ => .refl _
      · exact .after next fun _ => cut.expression.bind fun _ => .refl _
      · exact .refl _
      · exact .refl _
    · exact .refl _
  · exact .refl _

theorem statements_cuts (le : room ≤ room') (bound : List Token) (found : List Statement) :
    Cuts (statements room bound found) (statements room' bound found) := by
  induction bound generalizing found with
  | nil => exact .refl _
  | cons x bound ih =>
    unfold statements
    refine .after peek fun t => ?_
    split
    · exact .refl _
    · exact (statement_cuts le).bind fun s => ih (s :: found)

theorem ruleBody_cuts (le : room ≤ room') (start : Token) (name : String) :
    Cuts (ruleBody room start name) (ruleBody room' start name) := by
  unfold ruleBody
  refine .after description fun _ => .after declaredSalience fun _ => .after (mark _) fun _ =>
    .after (keyword _) fun _ => ?_
  refine (cutAt le).expression.bind fun _ => .after (keyword _) fun _ => .after get fun bound => ?_
  exact (statements_cuts le bound []).bind fun _ => .refl _

theorem rule_cuts (le : room ≤ room') : Cuts (rule room) (rule room') := by
  unfold rule
  refine .after ruleKeyword fun start => .after (nextIf _) fun name => ?_
  split
  · exact (ruleBody_cuts le start _).inRule _
  · exact .refl _

/-! ## Many rules -/

/-- Each attempt has the same room, so what was read so far is the same. -/
theorem rulesFrom_cuts (le : room ≤ room') (bound : List Token) (found : List Rule)
    (faults : List (Fault × Span × Option String)) (ts : List Token) :
    rulesFrom room found faults ts bound = rulesFrom room' found faults ts bound ∨
      rulesFrom room found faults ts bound = .error .tooDeep := by
  induction bound generalizing found faults ts with
  | nil => exact .inl rfl
  | cons x bound ih =>
    by_cases ends : (first ts).isEof = true
    · rw [rulesFrom, rulesFrom, if_pos ends, if_pos ends]
      exact .inl rfl
    have goes : (first ts).isEof = false := Bool.eq_false_of_not_eq_true ends
    rcases rule_cuts le ts with same | ⟨us, cut⟩
    · rcases ran : (rule room').on ts with ⟨(_ | ⟨fault, span, name⟩) | r, us⟩
      · exact .inr (rulesFrom_tooDeep goes (same.trans ran))
      · rw [rulesFrom_refused goes (same.trans ran), rulesFrom_refused goes ran]
        exact ih found _ _
      · rw [rulesFrom_ok goes (same.trans ran), rulesFrom_ok goes ran]
        exact ih (r :: found) faults us
    · exact .inr (rulesFrom_tooDeep goes cut)

theorem rules_cuts (le : room ≤ room') (ts : List Token) :
    rules room ts = rules room' ts ∨ rules room ts = .error .tooDeep :=
  rulesFrom_cuts le ts [] [] ts

end Rulebook.Grammar

/-! ## Rule sets -/

namespace Rulebook.RuleSet

variable {limits limits' : Limits}

theorem parse_cuts (same : limits.bytes = limits'.bytes) (le : limits.depth ≤ limits'.depth)
    (source text : String) :
    parse source limits text = parse source limits' text ∨
      parse source limits text = .error (.tooDeep limits.depth) := by
  rcases Nat.lt_or_ge limits.bytes text.utf8ByteSize with large | fits
  · unfold parse
    rw [if_pos large, if_pos (same ▸ large), same]
    exact .inl rfl
  have fits' : text.utf8ByteSize ≤ limits'.bytes := same ▸ fits
  rcases scanned : Token.scan text.toList with fault | ts
  · rw [parse_of_scan_error scanned fits, parse_of_scan_error scanned fits']
    exact .inl rfl
  rw [parse_of_scan scanned fits, parse_of_scan scanned fits']
  rcases Grammar.rules_cuts le ts with alike | cut
  · rcases read : Grammar.rules limits'.depth ts with (_ | faults) | rules <;> rw [alike, read]
    · exact .inr rfl
    · exact .inl rfl
    · exact .inl rfl
  · rw [cut]
    exact .inr rfl

/-- A larger limit changes nothing but what the smaller one has cut off. -/
theorem parse_eq_or_cut (limits limits' : Limits) (same : limits.bytes = limits'.bytes)
    (le : limits.depth ≤ limits'.depth) (source text : String) :
    (parse source limits text = parse source limits' text ∨
      ∃ e r, parse source limits text = .error e ∧ e.limit? = some r ∧
        r.name = "max_expression_depth" ∧ r.limit = toString limits.depth ∧
        r.actual = toString (limits.depth + 1)) ∧
      ∀ rules, parse source limits text = .ok rules → parse source limits' text = .ok rules := by
  rcases parse_cuts same le source text with alike | cut
  · exact ⟨.inl alike, fun rules read => alike ▸ read⟩
  · refine ⟨.inr ⟨_, _, cut, rfl, rfl, rfl, rfl⟩, fun rules read => ?_⟩
    rw [cut] at read
    cases read

/-- A rule without a condition, and one with a condition in parentheses. -/
def recovering : String := "rule A \x7b when then F(); \x7d rule B \x7b when ((true)) then F(); \x7d"

def limitOf : Except Error (List Rule) → Option String
  | .ok _ => none
  | .error e => e.limit?.map (·.actual)

/-- The failure of the first rule neither hides the limit nor takes from it. -/
theorem parse_eq_or_cut_recovering :
    (∃ e r, parse "recovering" { depth := 2 } recovering = .error e ∧ e.limit? = some r ∧
      r.actual = "3") ∧
      parse "recovering" { depth := 3 } recovering = parse "recovering" {} recovering := by
  constructor
  · have cut : limitOf (parse "recovering" { depth := 2 } recovering) ≠
        limitOf (parse "recovering" {} recovering) := by
      decide +kernel
    obtain ⟨alike | ⟨e, r, failed, limit, -, -, actual⟩, -⟩ :=
      parse_eq_or_cut { depth := 2 } {} rfl (by decide) "recovering" recovering
    · exact absurd (congrArg limitOf alike) cut
    · exact ⟨e, r, failed, limit, actual⟩
  · have whole : limitOf (parse "recovering" { depth := 3 } recovering) = none := by
      decide +kernel
    obtain ⟨alike | ⟨e, r, failed, limit, -⟩, -⟩ :=
      parse_eq_or_cut { depth := 3 } {} rfl (by decide) "recovering" recovering
    · exact alike
    · rw [failed, limitOf, limit] at whole
      cases whole

end Rulebook.RuleSet
