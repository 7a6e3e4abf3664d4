import Mathlib
import Rulebook.Proofs.Grammar.Soundness

/-!
# What has a derivation is read

A parser takes as much as it can, so a derivation is only followed if the token behind it cannot go
on with it. Apart from that a parser may still stop for want of room; it never does when there is a
level of room for each token.
-/

namespace Rulebook.Grammar

open Rulebook.Grammar.Parser

/-! ## Reading or running out of room -/

/-- The parser reads `a`, or stops as too deep, which is possible only if `deep` holds. -/
def Yields {α : Type} (p : Parser α) (ts : List Token) (a : α) (rest : List Token) (deep : Prop) :
    Prop :=
  p.on ts = (.ok a, rest) ∨ deep ∧ ∃ us, p.on ts = (.error .tooDeep, us)

namespace Yields

variable {α β : Type} {p q : Parser α} {f : α → Parser β} {ts ms us rest : List Token} {a : α} {b : β}
  {deep deep' : Prop}

theorem mono (h : Yields p ts a rest deep) (le : deep → deep') : Yields p ts a rest deep' := by
  rcases h with ok | ⟨is, stop⟩
  · exact .inl ok
  · exact .inr ⟨le is, stop⟩

theorem of_on_eq (eq : p.on ts = q.on us) (h : Yields q us a rest deep) :
    Yields p ts a rest deep := by
  unfold Yields
  rw [eq]
  exact h

theorem pure (a : α) (ts : List Token) : Yields (pure a : Parser α) ts a ts deep := .inl rfl

theorem tooDeep (is : deep) : Yields (throw .tooDeep : Parser α) ts a rest deep :=
  .inr ⟨is, ts, rfl⟩

theorem bind (h : Yields p ts a ms deep) (k : Yields (f a) ms b rest deep) :
    Yields (p >>= f) ts b rest deep := by
  rcases h with ok | ⟨is, us, stop⟩
  · exact of_on_eq (on_bind_ok ok f) k
  · exact .inr ⟨is, us, on_bind_error stop f⟩

theorem bind_ok (h : p.on ts = (.ok a, ms)) (k : Yields (f a) ms b rest deep) :
    Yields (p >>= f) ts b rest deep :=
  of_on_eq (on_bind_ok h f) k

end Yields

/-! ## What may follow -/

/-- How tightly the operators of a level bind. -/
def Binary.rank : Binary → Nat
  | .or => 0
  | .and => 1
  | .sum => 3
  | .product => 4

def Level.rank : Level → Nat
  | .binary b | .more b _ => b.rank
  | .compare => 2
  | _ => 5

/-- The rank of the level that a binary operator is of. -/
def opRank? (t : Token) : Option Nat :=
  match t.kind with
  | .operator .or => some 0
  | .operator .and => some 1
  | .operator .equal | .operator .notEqual | .operator .greater | .operator .less
  | .operator .greaterEqual | .operator .lessEqual => some 2
  | .operator .plus | .operator .minus => some 3
  | .operator .star | .operator .slash | .operator .percent => some 4
  | _ => none

/-- The token goes on neither with a chain nor with operands of the level or tighter ones. -/
structure Follows (l : Level) (t : Token) : Prop where
  dot : t.isMark .dot = false
  bracket : t.isMark .openBracket = false
  paren : t.isMark .openParen = false
  rank : ∀ r, opRank? t = some r → r < l.rank

theorem Binary.op?_eq_none_iff (b : Binary) (t : Token) :
    b.op? t = none ↔ opRank? t ≠ some b.rank := by
  rcases t with ⟨kind, text, span⟩
  cases b <;> cases kind <;>
    simp [op?, orOp?, andOp?, addOp?, multiplyOp?, opRank?, Token.isOperator, rank]
  all_goals rename_i o; cases o <;> simp

theorem compareOp?_eq_none_iff (t : Token) : compareOp? t = none ↔ opRank? t ≠ some 2 := by
  rcases t with ⟨kind, text, span⟩
  cases kind <;> simp [compareOp?, opRank?]
  rename_i o; cases o <;> simp

namespace Follows

variable {l l' : Level} {t : Token}

theorem mono (h : Follows l t) (le : l.rank ≤ l'.rank) : Follows l' t :=
  ⟨h.dot, h.bracket, h.paren, fun r eq => Nat.lt_of_lt_of_le (h.rank r eq) le⟩

theorem op?_eq_none {b : Binary} (h : Follows (.binary b) t) : b.op? t = none := by
  rw [Binary.op?_eq_none_iff]
  intro eq
  exact absurd (h.rank _ eq) (Nat.lt_irrefl _)

theorem compareOp?_eq_none (h : Follows .compare t) : compareOp? t = none := by
  rw [compareOp?_eq_none_iff]
  intro eq
  exact absurd (h.rank _ eq) (Nat.lt_irrefl _)

theorem of_operator {o : Operator} (h : t.kind = .operator o)
    (lt : ∀ r, opRank? t = some r → r < l.rank) : Follows l t := by
  refine ⟨?_, ?_, ?_, lt⟩ <;> unfold Token.isMark <;> rw [h]

theorem of_op? {b : Binary} {build : Build} (h : b.op? t = some build) : Follows b.operand t := by
  obtain ⟨o, is⟩ := Binary.kind_of_op? h
  refine .of_operator is fun r eq => ?_
  have rank : opRank? t = some b.rank := by
    by_contra ne
    rw [(b.op?_eq_none_iff t).mpr ne] at h
    cases h
  rw [eq] at rank
  rw [Option.some.inj rank]
  cases b <;> decide

theorem of_compareOp? {op : CompareOp} (h : compareOp? t = some op) :
    Follows (.binary .sum) t := by
  obtain ⟨o, is⟩ := kind_of_compareOp? h
  refine .of_operator is fun r eq => ?_
  have rank : opRank? t = some 2 := by
    by_contra ne
    rw [(compareOp?_eq_none_iff t).mpr ne] at h
    cases h
  rw [eq] at rank
  rw [Option.some.inj rank]
  decide

theorem of_mark {m : Mark} (h : t.kind = .mark m)
    (other : m ≠ .dot ∧ m ≠ .openBracket ∧ m ≠ .openParen) : Follows l t := by
  refine ⟨?_, ?_, ?_, ?_⟩
  · simpa [Token.isMark, h] using other.1
  · simpa [Token.isMark, h] using other.2.1
  · simpa [Token.isMark, h] using other.2.2
  · simp [opRank?, h]

theorem of_keyword {k : Keyword} (h : t.kind = .keyword k) : Follows l t := by
  refine ⟨?_, ?_, ?_, ?_⟩ <;> simp [Token.isMark, opRank?, h]

theorem of_assign (h : t.kind = .operator .assign) : Follows l t := by
  refine .of_operator h fun r eq => ?_
  simp [opRank?, h] at eq

end Follows

theorem Binary.rank_lt_operand (b : Binary) : b.rank < b.operand.rank := by cases b <;> decide

/-! ## What stands first -/

/-- What can begin an expression, or arguments. -/
theorem Derives.first_of_proper {l : Level} {ts rest : List Token} {e : Expr}
    (h : Derives l ts e rest) (proper : l.Proper) :
    (∃ op, unaryOp? (first ts) = some op) ∨ (∃ v, (first ts).kind = .literal v) ∨
      (first ts).kind = .mark .openParen ∨ (first ts).kind = .identifier := by
  induction h with
  | @binary b _ _ _ _ _ _ _ ih => exact ih b.operand_proper
  | done | stop | further | member | method | index => cases proper
  | single _ ih | plain _ ih | name _ ih => exact ih trivial
  | compared _ _ _ ih | lastItem _ _ ih | nextItem _ _ _ ih => exact ih trivial
  | sign op => exact .inl ⟨_, op⟩
  | literal is => exact .inr (.inl ⟨_, is⟩)
  | paren is | noArguments is | someArguments is => exact .inr (.inr (.inl is))
  | ident is | call is => exact .inr (.inr (.inr is))

theorem Derives.first_ne_close {l : Level} {ts rest : List Token} {e : Expr}
    (h : Derives l ts e rest) (proper : l.Proper) : (first ts).isMark .closeParen = false := by
  obtain ⟨_, op⟩ | ⟨_, is⟩ | is | is := h.first_of_proper proper
  · obtain ⟨o, is⟩ := kind_of_unaryOp? op
    simp [Token.isMark, is]
  all_goals simp [Token.isMark, is]

theorem Derives.first_of_chain {ts rest : List Token} {e : Expr} (h : Derives .chain ts e rest) :
    (first ts).kind = .identifier := by
  cases h with
  | ident is => exact is
  | call is => exact is

theorem Derives.first_of_primary {ts rest : List Token} {e : Expr}
    (h : Derives .primary ts e rest) : unaryOp? (first ts) = none := by
  cases h with
  | name chain => simp [unaryOp?, chain.first_of_chain]
  | literal is | paren is => simp [unaryOp?, is]

/-- Behind a name without arguments none follow. -/
theorem Derives.first_of_links {object : Expr} {ts rest : List Token} {e : Expr}
    (h : Derives (.links object) ts e rest) (follows : Follows .chain (first rest)) :
    (first ts).isMark .openParen = false := by
  cases h with
  | stop => exact follows.paren
  | member is | method is | index is => simp [Token.isMark, is]

theorem Derives.first_of_more {b : Binary} {left : Expr} {ts rest : List Token} {e : Expr}
    (h : Derives (.more b left) ts e rest) (follows : Follows (.binary b) (first rest)) :
    Follows b.operand (first ts) := by
  cases h with
  | done => exact follows.mono (Nat.le_of_lt b.rank_lt_operand)
  | further op => exact .of_op? op

/-! ## Level by level -/

section

variable {b : Binary} {left right e operand object : Expr} {build : Build} {t op cl dot : Token}
  {ts us rest : List Token} {room : Nat} {deep : Prop}

/-- The parser of an expression takes one level of room more. -/
theorem yields_expression (inner : ∀ r, room = r + 1 → Yields (disjunction r) ts e rest deep)
    (none : room = 0 → deep) : Yields (expression room) ts e rest deep := by
  unfold expression
  cases room with
  | zero => exact .tooDeep (none rfl)
  | succ room => exact inner room rfl

theorem yields_done (follows : Follows (.binary b) (first rest)) (room : Nat) :
    Yields (b.moreParser room left) rest left rest deep := by
  left
  cases room with
  | zero => rw [Binary.moreParser_zero, follows.op?_eq_none]
  | succ room => rw [Binary.moreParser_succ, follows.op?_eq_none]

theorem yields_further (is : b.op? t = some build)
    (first : ∀ r, room = r + 1 → Yields (b.operandParser r) ts right us deep)
    (more : ∀ r, room = r + 1 → Yields (b.moreParser r (build left right)) us e rest deep)
    (none : room = 0 → deep) : Yields (b.moreParser room left) (t :: ts) e rest deep := by
  obtain ⟨o, kind⟩ := Binary.kind_of_op? is
  have taken : Parser.rest (t :: ts) = ts := rest_cons (by simp [kind]) ts
  cases room with
  | zero =>
    right
    refine ⟨none rfl, ts, ?_⟩
    rw [Binary.moreParser_zero, first_cons, is, taken]
  | succ room =>
    have steps : Yields (do b.moreParser room (build left (← b.operandParser room)))
        ts e rest deep := (first room rfl).bind (more room rfl)
    refine .of_on_eq ?_ steps
    rw [Binary.moreParser_succ, first_cons, is, taken]

theorem yields_binary (first : Yields (b.operandParser room) ts left us deep)
    (more : Yields (b.moreParser room left) us e rest deep) :
    Yields (b.parser room) ts e rest deep := by
  rw [Binary.parser_eq]
  exact first.bind more

theorem yields_single (h : Yields (sum room) ts e rest deep)
    (follows : Follows .compare (first rest)) : Yields (comparison room) ts e rest deep := by
  unfold comparison
  refine h.bind (.bind_ok (on_peek rest) ?_)
  rw [follows.compareOp?_eq_none]
  exact .pure e rest

theorem yields_compared {op : CompareOp}
    (first : Yields (sum room) ts left (t :: us) deep) (is : compareOp? t = some op)
    (second : Yields (sum room) us right rest deep)
    (follows : Follows .compare (Parser.first rest)) :
    Yields (comparison room) ts (.compare op left right (left.span.cover right.span)) rest deep := by
  obtain ⟨o, kind⟩ := kind_of_compareOp? is
  unfold comparison
  refine first.bind (.bind_ok (on_peek _) ?_)
  rw [first_cons, is]
  refine .bind_ok (on_next _) ?_
  rw [rest_cons (by simp [kind])]
  refine second.bind (.bind_ok (on_peek rest) ?_)
  rw [follows.compareOp?_eq_none]
  exact .pure _ rest

theorem yields_plain (h : Yields (primary room) ts e rest deep)
    (start : unaryOp? (first ts) = none) : Yields (unary room) ts e rest deep := by
  unfold unary
  refine .bind_ok (on_peek ts) ?_
  rw [start]
  exact h

theorem yields_sign {op : UnaryOp} (is : unaryOp? t = some op)
    (inner : ∀ r, room = r + 1 → Yields (unary r) ts e rest deep) (none : room = 0 → deep) :
    Yields (unary room) (t :: ts) (signed op e (t.span.cover e.span)) rest deep := by
  obtain ⟨o, kind⟩ := kind_of_unaryOp? is
  unfold unary
  refine .bind_ok (on_peek _) ?_
  rw [first_cons, is]
  refine .bind_ok (on_next _) ?_
  rw [rest_cons (by simp [kind])]
  cases room with
  | zero => exact .tooDeep (none rfl)
  | succ room => exact (inner room rfl).bind (.pure _ rest)

theorem yields_literal {v : Literal} (is : t.kind = .literal v) (rest : List Token) :
    Yields (primary room) (t :: rest) (.literal v t.span) rest deep := by
  unfold primary
  refine .bind_ok (on_peek _) ?_
  simp only [first_cons, is]
  refine .bind_ok (on_next _) ?_
  rw [rest_cons (by simp [is])]
  exact .pure _ rest

theorem yields_name (h : Yields (chain room) ts e rest deep)
    (start : (first ts).kind = .identifier) : Yields (primary room) ts e rest deep := by
  unfold primary
  refine .bind_ok (on_peek _) ?_
  simp only [start]
  exact h

theorem yields_paren (opens : op.kind = .mark .openParen)
    (inner : Yields (expression room) ts e (cl :: rest) deep)
    (closes : cl.kind = .mark .closeParen) :
    Yields (primary room) (op :: ts) (e.withSpan (op.span.cover cl.span)) rest deep := by
  unfold primary
  refine .bind_ok (on_peek _) ?_
  simp only [first_cons, opens]
  refine .bind_ok (on_next _) ?_
  rw [rest_cons (by simp [opens])]
  exact inner.bind (.bind_ok (on_mark closes rest) (.pure _ rest))

theorem yields_ident (is : t.kind = .identifier) (start : (first ts).isMark .openParen = false)
    (linked : Yields (links room (.ident t.text t.span)) ts e rest deep) :
    Yields (chain room) (t :: ts) e rest deep := by
  rw [chain_eq]
  refine .bind_ok ?_ linked
  rw [headParser_on is, if_neg (by simp [start])]
  rfl

theorem yields_call {args : List Expr} {close : Span} (is : t.kind = .identifier)
    (start : (first ts).isMark .openParen = true)
    (called : Yields (arguments room) ts (args, close) us deep)
    (linked : Yields (links room (.call t.text args (t.span.cover close))) us e rest deep) :
    Yields (chain room) (t :: ts) e rest deep := by
  rw [chain_eq]
  refine .bind (.of_on_eq (headParser_on is room ts) ?_) linked
  rw [if_pos start]
  exact called.bind (.pure _ us)

theorem yields_stop (follows : Follows .chain (first rest)) :
    Yields (links room object) rest object rest deep := by
  refine .inl ?_
  rw [links_on, if_neg (by simp [follows.dot]), if_neg (by simp [follows.bracket])]

theorem yields_linked {link : Nat → Parser Expr} {o : Expr}
    (one : ∀ r, room = r + 1 → Yields (link r) ts o us deep)
    (linked : ∀ r, room = r + 1 → Yields (links r o) us e rest deep) (none : room = 0 → deep) :
    Yields (linkedParser link room) ts e rest deep := by
  cases room with
  | zero => exact .tooDeep (none rfl)
  | succ room => exact (one room rfl).bind (linked room rfl)

theorem yields_dot (is : dot.kind = .mark .dot)
    (linked : Yields (linkedParser (memberParser · object) room) ts e rest deep) :
    Yields (links room object) (dot :: ts) e rest deep := by
  refine .of_on_eq ?_ linked
  rw [links_on, first_cons, if_pos (Token.isMark_iff.mpr is), rest_cons (by simp [is])]

theorem yields_member {name : String} (is : dot.kind = .mark .dot) (named : t.name? = some name)
    (start : (first ts).isMark .openParen = false)
    (linked : ∀ r, room = r + 1 →
      Yields (links r (.member object name (object.span.cover t.span))) ts e rest deep)
    (none : room = 0 → deep) : Yields (links room object) (dot :: t :: ts) e rest deep := by
  refine yields_dot is (yields_linked (fun r _ => .inl ?_) linked none)
  rw [memberParser_on named, if_neg (by simp [start])]
  rfl

theorem yields_method {name : String} {args : List Expr} {close : Span}
    (is : dot.kind = .mark .dot) (named : t.name? = some name)
    (start : (first ts).isMark .openParen = true)
    (called : ∀ r, room = r + 1 → Yields (arguments r) ts (args, close) us deep)
    (linked : ∀ r, room = r + 1 →
      Yields (links r (.method object name args (object.span.cover close))) us e rest deep)
    (none : room = 0 → deep) : Yields (links room object) (dot :: t :: ts) e rest deep := by
  refine yields_dot is (yields_linked (fun r eq => ?_) linked none)
  refine .of_on_eq (memberParser_on named r object ts) ?_
  rw [if_pos start]
  exact (called r eq).bind (.pure _ us)

theorem yields_index {key : Expr} (opens : op.kind = .mark .openBracket)
    (inner : ∀ r, room = r + 1 → Yields (expression r) ts key (cl :: us) deep)
    (closes : cl.kind = .mark .closeBracket)
    (linked : ∀ r, room = r + 1 →
      Yields (links r (.index object key (object.span.cover cl.span))) us e rest deep)
    (none : room = 0 → deep) : Yields (links room object) (op :: ts) e rest deep := by
  have one : ∀ r, room = r + 1 → Yields (indexParser r object) ts
      (.index object key (object.span.cover cl.span)) us deep := fun r eq =>
    (inner r eq).bind (.bind_ok (on_mark closes us) (.pure _ us))
  refine .of_on_eq ?_ (yields_linked one linked none)
  have other : op.isMark .dot = false := by simp [Token.isMark, opens]
  rw [links_on, first_cons, if_neg (by simp [other]), if_pos (Token.isMark_iff.mpr opens),
    rest_cons (by simp [opens])]

theorem yields_noArguments (opens : op.kind = .mark .openParen)
    (closes : cl.kind = .mark .closeParen) :
    Yields (arguments room) (op :: cl :: rest) ([], cl.span) rest deep := by
  unfold arguments
  refine .bind_ok (on_mark opens _) ?_
  refine .bind_ok (on_nextIf_pos (Token.isMark_iff.mpr closes) (by simp [closes]) _) ?_
  exact .pure _ rest

theorem yields_someArguments {args : List Expr} {close : Span} (opens : op.kind = .mark .openParen)
    (start : (first ts).isMark .closeParen = false)
    (items : Yields (separated (expression room) ts []) ts (args, close) rest deep) :
    Yields (arguments room) (op :: ts) (args, close) rest deep := by
  unfold arguments
  refine .bind_ok (on_mark opens _) ?_
  refine .bind_ok (on_nextIf_neg start) ?_
  exact .bind_ok (on_get ts) items

theorem yields_lastItem {item : Expr} {found : List Expr} {bound : List Token}
    (h : Yields (expression room) ts item (cl :: rest) deep) (closes : cl.kind = .mark .closeParen)
    (some : bound ≠ []) :
    Yields (separated (expression room) bound found) ts (found.reverse ++ [item], cl.span) rest
      deep := by
  cases bound with
  | nil => exact absurd rfl some
  | cons _ bound =>
    unfold separated
    have other : (first (cl :: rest)).isMark .comma = false := by simp [Token.isMark, closes]
    refine h.bind (.bind_ok (on_nextIf_neg other) ?_)
    rw [if_neg (by simp)]
    refine .bind_ok (on_nextIf_pos (Token.isMark_iff.mpr closes) (by simp [closes]) _) ?_
    rw [← List.reverse_cons]
    exact .pure _ rest

theorem yields_nextItem {item : Expr} {items found : List Expr} {close : Span} {comma x : Token}
    {bound : List Token} (h : Yields (expression room) ts item (comma :: us) deep)
    (is : comma.kind = .mark .comma)
    (more : Yields (separated (expression room) bound (item :: found)) us
      ((item :: found).reverse ++ items, close) rest deep) :
    Yields (separated (expression room) (x :: bound) found) ts
      (found.reverse ++ item :: items, close) rest deep := by
  unfold separated
  refine h.bind (.bind_ok (on_nextIf_pos (Token.isMark_iff.mpr is) (by simp [is]) _) ?_)
  rw [if_pos (by simp)]
  rw [List.reverse_cons, List.append_assoc, List.singleton_append] at more
  exact more

end

/-! ## All levels -/

/-- How the parsers follow a derivation. -/
def Followed (ts : List Token) (e : Expr) (rest : List Token) : Level → Prop
  | .binary b => ∀ room, Yields (b.parser room) ts e rest (room + rest.length < ts.length)
  | .more b left =>
    ∀ room, Yields (b.moreParser room left) ts e rest (room + rest.length < ts.length)
  | .compare => ∀ room, Yields (comparison room) ts e rest (room + rest.length < ts.length)
  | .unary => ∀ room, Yields (unary room) ts e rest (room + rest.length < ts.length)
  | .primary => ∀ room, Yields (primary room) ts e rest (room + rest.length < ts.length)
  | .chain => ∀ room, Yields (chain room) ts e rest (room + rest.length < ts.length)
  | .links object =>
    ∀ room, Yields (links room object) ts e rest (room + rest.length < ts.length)
  | .arguments build => ∃ args close, e = build args close ∧
    ∀ room, Yields (arguments room) ts (args, close) rest (room + rest.length < ts.length)
  | .items build found => ∃ items close, e = build (found ++ items) close ∧
    ∀ room bound before, ts.length ≤ List.length bound →
      Yields (separated (expression room) bound before) ts (before.reverse ++ items, close) rest
        (room + rest.length < ts.length)

/-- Whether a part of this level goes on as long as it can. -/
def Level.Open : Level → Prop
  | .arguments _ | .items .. => False
  | _ => True

theorem Binary.followed_operand {b : Binary} {ts rest : List Token} {e : Expr}
    (h : Followed ts e rest b.operand) (room : Nat) :
    Yields (b.operandParser room) ts e rest (room + rest.length < ts.length) := by
  cases b <;> exact h room

theorem Derives.first_of_arguments {build : List Expr → Span → Expr} {ts rest : List Token}
    {e : Expr} (h : Derives (.arguments build) ts e rest) : (first ts).isMark .openParen = true := by
  cases h with
  | noArguments opens | someArguments opens => exact Token.isMark_iff.mpr opens

theorem Followed.expression {ts rest : List Token} {e : Expr} (h : Followed ts e rest .expr)
    (le : rest.length ≤ ts.length) (room : Nat) :
    Yields (expression room) ts e rest (room + rest.length ≤ ts.length) :=
  yields_expression (fun r eq => (h r).mono (by omega)) (by omega)

theorem followed_lastItem {build : List Expr → Span → Expr} {found : List Expr}
    {ts rest : List Token} {item : Expr} {cl : Token} (inner : Derives .expr ts item (cl :: rest))
    (closes : cl.kind = .mark .closeParen) (read : Followed ts item (cl :: rest) .expr) :
    Followed ts (build (found ++ [item]) cl.span) rest (.items build found) := by
  refine ⟨[item], cl.span, rfl, fun room bound before le => ?_⟩
  have whole := read.expression inner.takes.1.length_le
  have lt := (inner.takesSome trivial).length_lt
  refine yields_lastItem ((whole room).mono ?_) closes ?_
  · simp only [List.length_cons]
    omega
  · rintro rfl
    simp only [List.length_nil] at le
    omega

theorem followed_nextItem {build : List Expr → Span → Expr} {found : List Expr}
    {ts us rest : List Token} {item e : Expr} {comma : Token}
    (inner : Derives .expr ts item (comma :: us)) (is : comma.kind = .mark .comma)
    (read : Followed ts item (comma :: us) .expr)
    (more : Derives (.items build (found ++ [item])) us e rest)
    (others : Followed us e rest (.items build (found ++ [item]))) :
    Followed ts e rest (.items build found) := by
  obtain ⟨items, close, rfl, others⟩ := others
  refine ⟨item :: items, close, by simp, fun room bound before le => ?_⟩
  have whole := read.expression inner.takes.1.length_le
  have lt := (inner.takesSome trivial).length_lt
  have lt' := (more.takesSome trivial).length_lt
  simp only [List.length_cons] at lt
  cases bound with
  | nil =>
    simp only [List.length_nil] at le
    omega
  | cons x bound =>
    simp only [List.length_cons] at le
    have behind := others room bound (item :: before) (by omega)
    refine yields_nextItem ((whole room).mono ?_) is (behind.mono (by omega))
    simp only [List.length_cons]
    omega

theorem Derives.followed {l : Level} {ts rest : List Token} {e : Expr} (h : Derives l ts e rest)
    (follows : l.Open → Follows l (first rest)) : Followed ts e rest l := by
  induction h with
  | @binary b _ _ _ _ _ first more ih ih' =>
    intro room
    have follows := follows trivial
    have next := more.first_of_more follows
    have le := first.takes.1.length_le
    have le' := more.takes.1.length_le
    have left := Binary.followed_operand (ih fun _ => next) room
    have others := ih' (fun _ => follows.mono le_rfl) room
    exact yields_binary (left.mono (by omega)) (others.mono (by omega))
  | done => exact fun room => yields_done ((follows trivial).mono le_rfl) room
  | @further b _ _ _ _ _ _ _ _ op first more ih ih' =>
    have follows := follows trivial
    have next := more.first_of_more (follows.mono le_rfl)
    have le := first.takes.1.length_le
    have le' := more.takes.1.length_le
    have right := Binary.followed_operand (ih fun _ => next)
    have others := ih' fun _ => follows.mono le_rfl
    intro room
    rw [List.length_cons]
    exact yields_further op (fun r eq => (right r).mono (by omega))
      (fun r eq => (others r).mono (by omega)) (by omega)
  | single _ ih =>
    intro room
    have follows := follows trivial
    exact yields_single (ih (fun _ => follows.mono (by decide)) room) follows
  | compared first op second ih ih' =>
    intro room
    have follows := follows trivial
    have le := first.takes.1.length_le
    have le' := second.takes.1.length_le
    simp only [List.length_cons] at le
    have left := ih (fun _ => .of_compareOp? op) room
    have right := ih' (fun _ => follows.mono (by decide)) room
    simp only [List.length_cons] at left
    exact yields_compared (left.mono (by omega)) op (right.mono (by omega)) follows
  | plain inner ih =>
    intro room
    have read := ih (fun _ => (follows trivial).mono le_rfl) room
    exact yields_plain read inner.first_of_primary
  | sign op inner ih =>
    have le := inner.takes.1.length_le
    intro room
    rw [List.length_cons]
    exact yields_sign op (fun r eq => (ih follows r).mono (by omega)) (by omega)
  | literal is => exact fun room => yields_literal is _
  | name chain ih =>
    intro room
    have read := ih (fun _ => (follows trivial).mono le_rfl) room
    exact yields_name read chain.first_of_chain
  | paren opens inner closes ih =>
    intro room
    have read : Followed _ _ _ .expr := ih fun _ => .of_mark closes (by decide)
    refine yields_paren opens ((read.expression inner.takes.1.length_le room).mono ?_) closes
    simp only [List.length_cons]
    omega
  | ident is linked ih =>
    intro room
    have steps := ih (fun _ => (follows trivial).mono le_rfl) room
    exact yields_ident is (linked.first_of_links (follows trivial)) (steps.mono Nat.lt_succ_of_lt)
  | call is called linked ih ih' =>
    intro room
    obtain ⟨args, close, rfl, read⟩ := ih False.elim
    have steps := ih' (fun _ => (follows trivial).mono le_rfl) room
    have le := called.takes.1.length_le
    have le' := linked.takes.1.length_le
    refine yields_call is called.first_of_arguments ((read room).mono ?_) (steps.mono ?_)
    · simp only [List.length_cons]
      omega
    · simp only [List.length_cons]
      omega
  | stop => exact fun room => yields_stop ((follows trivial).mono le_rfl)
  | member is named linked ih =>
    have follows := follows trivial
    have le := linked.takes.1.length_le
    have steps := ih fun _ => follows.mono le_rfl
    intro room
    simp only [List.length_cons]
    exact yields_member is named (linked.first_of_links (follows.mono le_rfl))
      (fun r eq => (steps r).mono (by omega)) (by omega)
  | method is named called linked ih ih' =>
    obtain ⟨args, close, rfl, read⟩ := ih False.elim
    have le := called.takes.1.length_le
    have le' := linked.takes.1.length_le
    have steps := ih' fun _ => (follows trivial).mono le_rfl
    intro room
    simp only [List.length_cons]
    exact yields_method is named called.first_of_arguments (fun r eq => (read r).mono (by omega))
      (fun r eq => (steps r).mono (by omega)) (by omega)
  | index opens key closes linked ih ih' =>
    have read : Followed _ _ _ .expr := ih fun _ => .of_mark closes (by decide)
    have inner := read.expression key.takes.1.length_le
    have steps := ih' fun _ => (follows trivial).mono le_rfl
    have le := key.takes.1.length_le
    have le' := linked.takes.1.length_le
    intro room
    simp only [List.length_cons] at le inner ⊢
    exact yields_index opens (fun r eq => (inner r).mono (by omega)) closes
      (fun r eq => (steps r).mono (by omega)) (by omega)
  | noArguments opens closes =>
    exact ⟨[], _, rfl, fun room => yields_noArguments opens closes⟩
  | @someArguments _ _ ts _ _ opens items ih =>
    obtain ⟨args, close, rfl, read⟩ := ih False.elim
    refine ⟨args, close, rfl, fun room => ?_⟩
    have read := read room ts [] le_rfl
    exact yields_someArguments opens (items.first_ne_close trivial) (read.mono Nat.lt_succ_of_lt)
  | lastItem inner closes ih =>
    exact followed_lastItem inner closes (ih fun _ => .of_mark closes (by decide))
  | nextItem inner is more ih ih' =>
    exact followed_nextItem inner is (ih fun _ => .of_mark is (by decide)) more (ih' False.elim)

/-- An expression is read wherever something stands behind it that does not go on with it. -/
theorem Derives.yields {ts rest : List Token} {e : Expr} (h : Derives .expr ts e rest)
    (follows : Follows .expr (first rest)) (room : Nat) :
    Yields (expression room) ts e rest (room + rest.length ≤ ts.length) :=
  Followed.expression (h.followed fun _ => follows) h.takes.1.length_le room

end Rulebook.Grammar
