import Mathlib
import Rulebook.Proofs.Grammar.Room

/-!
# What parsers read has a derivation

One lemma for each level, from what holds of the parsers that it calls. Those with less room are
covered by an induction on the room. The derivation stays within the room that the parser was given.
-/

namespace Rulebook.Grammar

open Rulebook.Grammar.Parser

/-! ## Parsers by level -/

theorem cons_of_operator {ts : List Token} (h : ∃ o, (first ts).kind = .operator o) :
    ts = first ts :: rest ts := by
  obtain ⟨o, h⟩ := h
  exact eq_first_cons (by simp [h])

namespace Binary

def parser : Binary → Nat → Parser Expr
  | .or => disjunction
  | .and => conjunction
  | .sum => Grammar.sum
  | .product => Grammar.product

def operandParser : Binary → Nat → Parser Expr
  | .or => conjunction
  | .and => comparison
  | .sum => Grammar.product
  | .product => unary

/-- Reads on behind a left operand. -/
def moreParser (b : Binary) (room : Nat) (left : Expr) : Parser Expr :=
  foldLeft b.op? room (fun r _ => b.operandParser r) left

theorem parser_eq (b : Binary) (room : Nat) :
    b.parser room = (do b.moreParser room (← b.operandParser room)) := by
  cases b
  · exact disjunction.eq_1 room
  · exact conjunction.eq_1 room
  · exact Grammar.sum.eq_1 room
  · exact Grammar.product.eq_1 room

theorem moreParser_zero (b : Binary) (left : Expr) (ts : List Token) :
    (b.moreParser 0 left).on ts =
      match b.op? (first ts) with
      | none => (.ok left, ts)
      | some _ => (.error .tooDeep, rest ts) := by
  unfold moreParser foldLeft
  rw [on_bind_ok (on_peek ts)]
  cases b.op? (first ts) <;> rfl

theorem moreParser_succ (b : Binary) (room : Nat) (left : Expr) (ts : List Token) :
    (b.moreParser (room + 1) left).on ts =
      match b.op? (first ts) with
      | none => (.ok left, ts)
      | some build =>
        (do b.moreParser room (build left (← b.operandParser room)) : Parser Expr).on (rest ts) := by
  conv_lhs => unfold moreParser foldLeft
  rw [on_bind_ok (on_peek ts)]
  cases b.op? (first ts) <;> rfl

theorem moreParser_of_none {b : Binary} {ts : List Token} (h : b.op? (first ts) = none)
    (room : Nat) (left : Expr) : (b.moreParser room left).on ts = (.ok left, ts) := by
  cases room with
  | zero => rw [moreParser_zero, h]
  | succ room => rw [moreParser_succ, h]

end Binary

/-- A name, with arguments if it is a call. -/
def headParser (room : Nat) : Parser Expr := do
  let head ← next
  if (← peek).isMark .openParen then
    let (args, close) ← arguments room
    return .call head.text args (head.span.cover close)
  else return .ident head.text head.span

/-- What stands behind a dot. -/
def memberParser (room : Nat) (object : Expr) : Parser Expr := do
  let t ← peek
  match t.name? with
  | none => expected .memberName
  | some name =>
    let _ ← next
    if (← peek).isMark .openParen then
      let (args, close) ← arguments room
      return .method object name args (object.span.cover close)
    else return .member object name (object.span.cover t.span)

/-- What stands behind an opening bracket. -/
def indexParser (room : Nat) (object : Expr) : Parser Expr := do
  let key ← expression room
  let close ← mark .closeBracket
  return .index object key (object.span.cover close.span)

theorem chain_eq (room : Nat) :
    chain room = (do links room (← headParser room) : Parser Expr) := by
  unfold chain headParser
  rw [bind_assoc]
  refine bind_congr fun head => ?_
  rw [bind_assoc]
  refine bind_congr fun opening => ?_
  split
  · rw [bind_assoc]
    exact bind_congr fun _ => (pure_bind _ _).symm
  · exact (pure_bind _ _).symm

/-- One link and those behind it, if there is room for it. -/
def linkedParser (link : Nat → Parser Expr) : Nat → Parser Expr
  | 0 => throw .tooDeep
  | room + 1 => do links room (← link room)

theorem links_on (room : Nat) (object : Expr) (ts : List Token) :
    (links room object).on ts =
      if (first ts).isMark .dot then
        (linkedParser (memberParser · object) room).on (Parser.rest ts)
      else if (first ts).isMark .openBracket then
        (linkedParser (indexParser · object) room).on (Parser.rest ts)
      else (.ok object, ts) := by
  conv_lhs => unfold links
  rw [on_bind, on_nextIf]
  cases (first ts).isMark .dot
  · change Parser.on (_ >>= _) ts = _
    rw [on_bind, on_nextIf]
    cases (first ts).isMark .openBracket
    · rfl
    cases room with
    | zero => rfl
    | succ room =>
      change Parser.on (_ >>= _) _ = _
      unfold linkedParser indexParser
      simp only [if_true, bind_assoc, pure_bind]
      rfl
  cases room with
  | zero => rfl
  | succ room =>
    change Parser.on (_ >>= _) _ = _
    change _ = (memberParser room object >>= links room).on _
    congr 1
    unfold memberParser
    rw [bind_assoc]
    refine bind_congr fun t => ?_
    rcases t.name? with _ | name
    · rfl
    rw [bind_assoc]
    refine bind_congr fun _ => ?_
    rw [bind_assoc]
    refine bind_congr fun opening => ?_
    split
    · rw [bind_assoc]
      exact bind_congr fun _ => (pure_bind _ _).symm
    · exact (pure_bind _ _).symm

theorem headParser_on {t : Token} (is : t.kind = .identifier) (room : Nat) (ts : List Token) :
    (headParser room).on (t :: ts) =
      (if (first ts).isMark .openParen then do
          let (args, close) ← arguments room
          return .call t.text args (t.span.cover close)
        else return .ident t.text t.span : Parser Expr).on ts := by
  unfold headParser
  rw [on_bind_ok (on_next _), rest_cons (by simp [is]), on_bind_ok (on_peek ts), first_cons]

theorem memberParser_on {t : Token} {name : String} (named : t.name? = some name) (room : Nat)
    (object : Expr) (ts : List Token) :
    (memberParser room object).on (t :: ts) =
      (if (first ts).isMark .openParen then do
          let (args, close) ← arguments room
          return .method object name args (object.span.cover close)
        else return .member object name (object.span.cover t.span) : Parser Expr).on ts := by
  unfold memberParser
  rw [on_bind_ok (on_peek _), first_cons]
  simp only [named]
  rw [on_bind_ok (on_next _), rest_cons (kind_of_name? named), on_bind_ok (on_peek ts)]

/-- What the parser reads is derived on the level, within the room. -/
def Sound (p : Parser Expr) (room : Nat) (l : Level) : Prop :=
  ∀ ts e rest, p.on ts = (.ok e, rest) → DerivesIn room l ts e rest

/-- What the parser of an expression reads is derived with one level less. -/
def ExpressionSound (room : Nat) : Prop :=
  ∀ ts e rest, (expression room).on ts = (.ok e, rest) →
    ∃ r, room = r + 1 ∧ DerivesIn r .expr ts e rest

/-! ## Level by level -/

theorem Binary.moreParser_sound {b : Binary} {room : Nat}
    (operand : ∀ r < room, Sound (b.operandParser r) r b.operand) (left : Expr) :
    Sound (b.moreParser room left) room (.more b left) := by
  induction room generalizing left with
  | zero =>
    intro ts e rest h
    rw [moreParser_zero] at h
    split at h
    · cases h
      exact .done
    · cases h
  | succ room ih =>
    intro ts e rest h
    rw [moreParser_succ] at h
    split at h
    · cases h
      exact .done
    · next build op =>
      rw [on_bind_eq_ok] at h
      obtain ⟨right, us, read, h⟩ := h
      have first := operand room (Nat.lt_succ_self room) _ _ _ read
      have others := ih (fun r lt => operand r (Nat.lt_succ_of_lt lt)) _ _ _ _ h
      rw [cons_of_operator (kind_of_op? op)]
      exact .further op first others

theorem Binary.parser_sound {b : Binary} {room : Nat}
    (operand : ∀ r ≤ room, Sound (b.operandParser r) r b.operand) :
    Sound (b.parser room) room (.binary b) := by
  intro ts e rest h
  rw [parser_eq] at h
  rw [on_bind_eq_ok] at h
  obtain ⟨left, us, read, h⟩ := h
  have others := moreParser_sound (fun r lt => operand r (Nat.le_of_lt lt)) left _ _ _ h
  exact .binary (operand room le_rfl _ _ _ read) others

theorem comparison_sound {room : Nat} (operand : Sound (sum room) room (.binary .sum)) :
    Sound (comparison room) room .compare := by
  intro ts e rest h
  unfold comparison at h
  rw [on_bind_eq_ok] at h
  obtain ⟨left, us, read, h⟩ := h
  rw [on_bind_ok (on_peek us)] at h
  split at h
  · cases h
    exact .single (operand _ _ _ read)
  · next op is =>
    rw [on_bind_ok (on_next us)] at h
    rw [on_bind_eq_ok] at h
    obtain ⟨right, vs, read', h⟩ := h
    rw [on_bind_ok (on_peek vs)] at h
    split at h
    · cases h
    · cases h
      have first := operand _ _ _ read
      rw [cons_of_operator (kind_of_compareOp? is)] at first
      exact .compared first is (operand _ _ _ read')

theorem unary_sound {room : Nat} (inner : Sound (primary room) room .primary)
    (smaller : ∀ r < room, Sound (unary r) r .unary) : Sound (unary room) room .unary := by
  intro ts e rest h
  unfold unary at h
  rw [on_bind_ok (on_peek ts)] at h
  split at h
  · exact .plain (inner _ _ _ h)
  · next op is =>
    rw [on_bind_ok (on_next ts)] at h
    cases room with
    | zero => cases h
    | succ room =>
      rw [on_bind_eq_ok] at h
      obtain ⟨operand, us, read, h⟩ := h
      cases h
      rw [cons_of_operator (kind_of_unaryOp? is)]
      exact .sign is (smaller room (Nat.lt_succ_self room) _ _ _ read)

theorem primary_sound {room : Nat}
    (chains : ∀ {ts e rest}, (first ts).kind = .identifier → (chain room).on ts = (.ok e, rest) →
      DerivesIn room .chain ts e rest)
    (inner : ExpressionSound room) : Sound (primary room) room .primary := by
  intro ts e rest h
  unfold primary at h
  rw [on_bind_ok (on_peek ts)] at h
  split at h
  · next v is =>
    rw [on_bind_ok (on_next ts)] at h
    cases h
    have derived : DerivesIn room .primary (first ts :: Parser.rest ts)
      (.literal v (first ts).span) (Parser.rest ts) := .literal is
    rwa [← eq_first_cons (by simp [is])] at derived
  · next is => exact .name (chains is h)
  · next is =>
    rw [on_bind_ok (on_next ts), on_bind_eq_ok] at h
    obtain ⟨e', us, read, h⟩ := h
    rw [on_bind_eq_ok] at h
    obtain ⟨close, vs, taken, h⟩ := h
    cases h
    obtain ⟨closes, rfl⟩ := on_mark_eq_ok taken
    obtain ⟨r, rfl, inside⟩ := inner _ _ _ read
    have derived := DerivesIn.paren is inside closes
    rwa [← eq_first_cons (by simp [is])] at derived
  · cases h

/-- Arguments that were read complete any call. -/
def ArgumentsSound (room : Nat) : Prop :=
  ∀ build ts args close rest, (arguments room).on ts = (.ok (args, close), rest) →
    DerivesIn room (.arguments build) ts (build args close) rest

theorem separated_sound {room : Nat} (inner : ExpressionSound room)
    (build : List Expr → Span → Expr) (bound : List Token) (found : List Expr) {ts rest : List Token}
    {args : List Expr} {close : Span}
    (h : (separated (expression room) bound found).on ts = (.ok (args, close), rest)) :
    DerivesIn room (.items build found.reverse) ts (build args close) rest := by
  induction bound generalizing found ts with
  | nil => cases h
  | cons _ bound ih =>
    unfold separated at h
    rw [on_bind_eq_ok] at h
    obtain ⟨item, us, read, h⟩ := h
    rw [on_bind_eq_ok] at h
    obtain ⟨comma, vs, taken, h⟩ := h
    obtain ⟨r, rfl, derived⟩ := inner _ _ _ read
    cases comma with
    | some comma =>
      obtain ⟨is, rfl⟩ := on_nextIf_kind taken Token.isMark_iff (by simp)
      have others := ih (item :: found) h
      rw [List.reverse_cons] at others
      exact .nextItem derived is others
    | none =>
      obtain ⟨-, rfl⟩ := on_nextIf_eq_none taken
      rw [if_neg (by simp)] at h
      rw [on_bind_eq_ok] at h
      obtain ⟨cl, ws, taken, h⟩ := h
      cases cl with
      | none => cases h
      | some cl =>
        obtain ⟨is, rfl⟩ := on_nextIf_kind taken Token.isMark_iff (by simp)
        cases h
        rw [List.reverse_cons]
        exact .lastItem derived is

theorem arguments_sound {room : Nat} (inner : ExpressionSound room) :
    ArgumentsSound room := by
  intro build ts args close rest h
  unfold arguments at h
  rw [on_bind_eq_ok] at h
  obtain ⟨op, us, taken, h⟩ := h
  obtain ⟨opens, rfl⟩ := on_mark_eq_ok taken
  rw [on_bind_eq_ok] at h
  obtain ⟨cl, vs, taken, h⟩ := h
  cases cl with
  | some cl =>
    obtain ⟨is, rfl⟩ := on_nextIf_kind taken Token.isMark_iff (by simp)
    cases h
    exact .noArguments opens is
  | none =>
    obtain ⟨-, rfl⟩ := on_nextIf_eq_none taken
    rw [on_bind_ok (on_get vs)] at h
    exact .someArguments opens (separated_sound inner build vs [] h)

theorem memberParser_sound {room : Nat} (args : ArgumentsSound room) {object o e : Expr}
    {dot : Token} {ts us rest : List Token} (is : dot.kind = .mark .dot)
    (h : (memberParser room object).on ts = (.ok o, us))
    (linked : DerivesIn room (.links o) us e rest) :
    DerivesIn (room + 1) (.links object) (dot :: ts) e rest := by
  rcases named : (first ts).name? with _ | name
  · unfold memberParser at h
    rw [on_bind_ok (on_peek ts)] at h
    simp only [named] at h
    cases h
  rw [eq_first_cons (kind_of_name? named)] at h ⊢
  rw [memberParser_on named] at h
  split at h
  · obtain ⟨⟨as, close⟩, vs, read, h⟩ := on_bind_eq_ok.mp h
    cases h
    have called := args
      (fun args close => .method object name args (object.span.cover close)) _ _ _ _ read
    exact .method is named called linked
  · cases h
    exact .member is named linked

theorem indexParser_sound {room : Nat} (inner : ExpressionSound room) {object o e : Expr}
    {op : Token} {ts us rest : List Token} (is : op.kind = .mark .openBracket)
    (h : (indexParser room object).on ts = (.ok o, us))
    (linked : DerivesIn room (.links o) us e rest) :
    DerivesIn (room + 1) (.links object) (op :: ts) e rest := by
  unfold indexParser at h
  rw [on_bind_eq_ok] at h
  obtain ⟨key, vs, read, h⟩ := h
  rw [on_bind_eq_ok] at h
  obtain ⟨cl, ws, taken, h⟩ := h
  obtain ⟨closes, rfl⟩ := on_mark_eq_ok taken
  cases h
  obtain ⟨r, rfl, inside⟩ := inner _ _ _ read
  exact .index is inside closes linked

theorem links_sound {room : Nat} (args : ∀ r < room, ArgumentsSound r)
    (inner : ∀ r < room, ExpressionSound r)
    (smaller : ∀ r < room, ∀ o, Sound (links r o) r (.links o)) (object : Expr) :
    Sound (links room object) room (.links object) := by
  intro ts e rest h
  rw [links_on] at h
  split at h
  · next dot =>
    have is := Token.isMark_iff.mp dot
    have front : ts = first ts :: Parser.rest ts := eq_first_cons (by simp [is])
    rw [front]
    cases room with
    | zero => cases h
    | succ room =>
      have lt := Nat.lt_succ_self room
      obtain ⟨o, us, read, h⟩ := on_bind_eq_ok.mp h
      exact memberParser_sound (args room lt) is read (smaller room lt _ _ _ _ h)
  split at h
  · next bracket =>
    have is := Token.isMark_iff.mp bracket
    have front : ts = first ts :: Parser.rest ts := eq_first_cons (by simp [is])
    rw [front]
    cases room with
    | zero => cases h
    | succ room =>
      have lt := Nat.lt_succ_self room
      obtain ⟨o, us, read, h⟩ := on_bind_eq_ok.mp h
      exact indexParser_sound (inner room lt) is read (smaller room lt _ _ _ _ h)
  · cases h
    exact .stop

theorem chain_sound {room : Nat} (args : ArgumentsSound room)
    (linked : ∀ o, Sound (links room o) room (.links o)) {ts rest : List Token} {e : Expr}
    (head : (first ts).kind = .identifier) (h : (chain room).on ts = (.ok e, rest)) :
    DerivesIn room .chain ts e rest := by
  have front : ts = first ts :: Parser.rest ts := eq_first_cons (by simp [head])
  rw [front] at h ⊢
  rw [chain_eq] at h
  obtain ⟨o, us, read, h⟩ := on_bind_eq_ok.mp h
  rw [headParser_on head] at read
  split at read
  · obtain ⟨⟨as, close⟩, vs, listed, read⟩ := on_bind_eq_ok.mp read
    cases read
    have called := args (fun args close => .call (first ts).text args ((first ts).span.cover close))
      _ _ _ _ listed
    exact .call head called (linked _ _ _ _ h)
  · cases read
    exact .ident head (linked _ _ _ _ h)

/-! ## All levels -/

structure SoundAt (room : Nat) : Prop where
  expression : ExpressionSound room
  arguments : ArgumentsSound room
  links : ∀ object, Sound (links room object) room (.links object)
  operand : ∀ b : Binary, Sound (b.operandParser room) room b.operand
  whole : Sound (disjunction room) room .expr

theorem expression_sound {room : Nat} (smaller : ∀ r < room, Sound (disjunction r) r .expr) :
    ExpressionSound room := by
  intro ts e rest h
  unfold expression at h
  cases room with
  | zero => cases h
  | succ room => exact ⟨room, rfl, smaller room (Nat.lt_succ_self room) _ _ _ h⟩

theorem soundAt (room : Nat) : SoundAt room := by
  induction room using Nat.strong_induction_on with
  | _ room ih =>
    have inner := expression_sound fun r lt => (ih r lt).whole
    have args := arguments_sound inner
    have linked := links_sound (fun r lt => (ih r lt).arguments) (fun r lt => (ih r lt).expression)
      fun r lt => (ih r lt).links
    have primaries := primary_sound (chain_sound args linked) inner
    have unaries := unary_sound primaries fun r lt => (ih r lt).operand .product
    -- Operands are read with at most the room of the first.
    have upTo {b : Binary} (h : Sound (b.operandParser room) room b.operand) :
        ∀ r ≤ room, Sound (b.operandParser r) r b.operand := by
      intro r le
      rcases Nat.lt_or_eq_of_le le with lt | rfl
      · exact (ih r lt).operand b
      · exact h
    have products := Binary.parser_sound (b := .product) (upTo unaries)
    have sums := Binary.parser_sound (b := .sum) (upTo products)
    have comparisons := comparison_sound sums
    have conjunctions := Binary.parser_sound (b := .and) (upTo comparisons)
    refine ⟨inner, args, linked, ?_, Binary.parser_sound (b := .or) (upTo conjunctions)⟩
    intro b
    cases b with
    | or => exact conjunctions
    | and => exact comparisons
    | sum => exact products
    | product => exact unaries

/-! ## Statements and rules -/

theorem chain_derives {room : Nat} {ts rest : List Token} {e : Expr}
    (head : (first ts).kind = .identifier) (h : (chain room).on ts = (.ok e, rest)) :
    DerivesIn room .chain ts e rest :=
  chain_sound (soundAt room).arguments (soundAt room).links head h

theorem statement_sound {room : Nat} {ts rest : List Token} {s : Statement}
    (h : (statement room).on ts = (.ok s, rest)) : DerivesStatementIn room ts s rest := by
  unfold statement at h
  rw [on_bind_ok (on_peek ts)] at h
  split at h
  · next head =>
    rw [on_bind_eq_ok] at h
    obtain ⟨target, us, read, h⟩ := h
    have derived := chain_derives head read
    rw [on_bind_ok (on_peek us)] at h
    split at h
    · next assigns =>
      have assigns := Token.isOperator_iff.mp assigns
      have place : isPlace target ∧ (do
          let _ ← next
          let value ← expression room
          let stop ← mark .semicolon
          return .assign target value (target.span.cover stop.span) : Parser Statement).on us =
            (.ok s, rest) := by
        split at h
        · exact ⟨trivial, h⟩
        · exact ⟨trivial, h⟩
        · cases h
        · cases h
      obtain ⟨place, h⟩ := place
      rw [on_bind_ok (on_next us), on_bind_eq_ok] at h
      obtain ⟨value, vs, read, h⟩ := h
      rw [on_bind_eq_ok] at h
      obtain ⟨semi, ws, taken, h⟩ := h
      cases h
      obtain ⟨ends, rfl⟩ := on_mark_eq_ok taken
      have ne : (first us).kind ≠ .eof := by simp [assigns]
      rw [eq_first_cons ne] at derived
      obtain ⟨r, rfl, assigned⟩ := (soundAt room).expression _ _ _ read
      exact .assign derived place assigns assigned ends
    · have call : isCall target ∧ (do
          let stop ← mark .semicolon
          return .call target (target.span.cover stop.span) : Parser Statement).on us =
            (.ok s, rest) := by
        split at h
        · exact ⟨trivial, h⟩
        · exact ⟨trivial, h⟩
        · cases h
      obtain ⟨call, h⟩ := call
      rw [on_bind_eq_ok] at h
      obtain ⟨semi, ws, taken, h⟩ := h
      cases h
      obtain ⟨ends, rfl⟩ := on_mark_eq_ok taken
      exact .call derived call ends
  · cases h

theorem statements_sound {room : Nat} (bound : List Token) (found : List Statement)
    {ts rest : List Token} {ss : List Statement}
    (h : (statements room bound found).on ts = (.ok ss, rest)) :
    ∃ more, ss = found.reverse ++ more ∧ Many (DerivesStatementIn room) ts more rest := by
  induction bound generalizing found ts with
  | nil =>
    cases h
    exact ⟨[], (List.append_nil _).symm, .nil⟩
  | cons _ bound ih =>
    unfold statements at h
    rw [on_bind_ok (on_peek ts)] at h
    split at h
    · cases h
      exact ⟨[], (List.append_nil _).symm, .nil⟩
    · rw [on_bind_eq_ok] at h
      obtain ⟨s, us, read, h⟩ := h
      obtain ⟨more, rfl, derived⟩ := ih (s :: found) h
      refine ⟨s :: more, ?_, .cons (statement_sound read) derived⟩
      rw [List.reverse_cons, List.append_assoc, List.singleton_append]

theorem salience_sound {word : Token} {ts rest : List Token} {n : Int64}
    (is : word.kind = .keyword .salience) (h : salience.on ts = (.ok n, rest)) :
    DerivesSalience (word :: ts) n rest := by
  unfold salience at h
  rw [on_bind_eq_ok] at h
  obtain ⟨minus, us, taken, h⟩ := h
  rw [on_bind_ok (on_peek us)] at h
  split at h
  · next n' int =>
    have ne : (first us).kind ≠ .eof := by simp [int]
    have cons := eq_first_cons ne
    rw [on_bind_ok (on_next us)] at h
    cases h
    cases minus with
    | none =>
      obtain ⟨-, rfl⟩ := on_nextIf_eq_none taken
      have derived : DerivesSalience (word :: first us :: Parser.rest us) n' (Parser.rest us) :=
        .plain is int
      rwa [← cons] at derived
    | some minus =>
      obtain ⟨sign, rfl⟩ := on_nextIf_kind taken Token.isOperator_iff (by simp)
      have derived : DerivesSalience (word :: minus :: first us :: Parser.rest us) (-n')
        (Parser.rest us) := .negative is sign int
      rwa [← cons] at derived
  · cases h
  · cases h

theorem declaredSalience_sound {ts rest : List Token} {n : Int64}
    (h : declaredSalience.on ts = (.ok n, rest)) : DerivesSalience ts n rest := by
  unfold declaredSalience at h
  rw [on_bind_eq_ok] at h
  obtain ⟨word, us, taken, h⟩ := h
  cases word with
  | none =>
    obtain ⟨-, rfl⟩ := on_nextIf_eq_none taken
    cases h
    exact .none
  | some word =>
    obtain ⟨is, rfl⟩ := on_nextIf_kind taken Token.isKeyword_iff (by simp)
    exact salience_sound is h

theorem description_sound {ts rest : List Token} {d : Option String}
    (h : description.on ts = (.ok d, rest)) : DerivesDescription ts d rest := by
  unfold description at h
  rw [on_bind_ok (on_peek ts)] at h
  split at h
  · next s is =>
    rw [on_bind_ok (on_next ts)] at h
    cases h
    have derived : DerivesDescription (first ts :: Parser.rest ts) (some s) (Parser.rest ts) :=
      .some is
    rwa [← eq_first_cons (by simp [is])] at derived
  · cases h
    exact .none

theorem ruleBody_sound {room : Nat} {start name : Token} {ts rest : List Token} {r : Rule}
    (starts : start.kind = .keyword .rule) (named : name.kind = .identifier)
    (h : (ruleBody room start name.text).on ts = (.ok r, rest)) :
    DerivesRuleIn room (start :: name :: ts) r rest := by
  unfold ruleBody at h
  rw [on_bind_eq_ok] at h
  obtain ⟨d, us, described, h⟩ := h
  rw [on_bind_eq_ok] at h
  obtain ⟨n, vs, ranked, h⟩ := h
  rw [on_bind_eq_ok] at h
  obtain ⟨op, ws, taken, h⟩ := h
  obtain ⟨opens, rfl⟩ := on_mark_eq_ok taken
  rw [on_bind_eq_ok] at h
  obtain ⟨word, xs, taken, h⟩ := h
  obtain ⟨introduces, rfl⟩ := on_keyword_eq_ok taken
  rw [on_bind_eq_ok] at h
  obtain ⟨condition, ys, read, h⟩ := h
  rw [on_bind_eq_ok] at h
  obtain ⟨thn, zs, taken, h⟩ := h
  obtain ⟨separates, rfl⟩ := on_keyword_eq_ok taken
  rw [on_bind_ok (on_get zs), on_bind_eq_ok] at h
  obtain ⟨actions, qs, acts, h⟩ := h
  obtain ⟨more, rfl, derived⟩ := statements_sound zs [] acts
  split at h
  · cases h
  · next some =>
    rw [on_bind_eq_ok] at h
    obtain ⟨cl, ps, taken, h⟩ := h
    obtain ⟨closes, rfl⟩ := on_mark_eq_ok taken
    cases h
    obtain ⟨room, rfl, holds⟩ := (soundAt room).expression _ _ _ read
    exact .mk starts named (description_sound described) (declaredSalience_sound ranked) opens
      introduces holds separates derived (by simpa using some) closes

theorem rule_sound {room : Nat} {ts rest : List Token} {r : Rule}
    (h : (rule room).on ts = (.ok r, rest)) : DerivesRuleIn room ts r rest := by
  unfold rule ruleKeyword at h
  rw [on_bind_eq_ok] at h
  obtain ⟨start, us, started, h⟩ := h
  rw [on_bind_eq_ok] at started
  obtain ⟨word, vs, taken, started⟩ := started
  cases word with
  | none => cases started
  | some word =>
    obtain ⟨starts, rfl⟩ := on_nextIf_kind taken Token.isKeyword_iff (by simp)
    cases started
    rw [on_bind_eq_ok] at h
    obtain ⟨name, ws, named, h⟩ := h
    cases name with
    | none => cases h
    | some name =>
      obtain ⟨is, rfl⟩ := on_nextIf_eq_some named (by cases name.kind <;> simp)
      have is : name.kind = .identifier := by
        cases kind : name.kind <;> simp [kind] at is ⊢
      exact ruleBody_sound starts is (on_inRule_eq_ok.mp h)

end Rulebook.Grammar
