import Mathlib
import Rulebook.Proofs.Grammar.Parse

/-!
# Reading within a room

What has a derivation within a room is read in that room. So the room decides nothing but how deep a
derivation may be: the rules that are read within it are exactly those that have a derivation in it.
-/

namespace Rulebook.Grammar

open Rulebook.Grammar.Parser

variable {room : Nat} {ts us rest : List Token}

/-! ## Expressions -/

/-- How the parsers follow a derivation within the room. -/
def ReadIn (room : Nat) (ts : List Token) (e : Expr) (rest : List Token) : Level → Prop
  | .binary b => Yields (b.parser room) ts e rest False
  | .more b left => Yields (b.moreParser room left) ts e rest False
  | .compare => Yields (comparison room) ts e rest False
  | .unary => Yields (unary room) ts e rest False
  | .primary => Yields (primary room) ts e rest False
  | .chain => Yields (chain room) ts e rest False
  | .links object => Yields (links room object) ts e rest False
  | .arguments build => ∃ args close, e = build args close ∧
    Yields (arguments room) ts (args, close) rest False
  | .items build found => ∃ items close, e = build (found ++ items) close ∧
    ∀ bound before, ts.length ≤ List.length bound →
      Yields (separated (expression room) bound before) ts (before.reverse ++ items, close) rest
        False

theorem Binary.readIn_operand {b : Binary} {e : Expr} (h : ReadIn room ts e rest b.operand) :
    Yields (b.operandParser room) ts e rest False := by
  cases b <;> exact h

/-- The level of room that is taken is there. -/
theorem of_succ {P : Nat → Prop} (h : P room) (r : Nat) (eq : room + 1 = r + 1) : P r :=
  Nat.succ.inj eq ▸ h

theorem ReadIn.expression {e : Expr} (h : ReadIn room ts e rest .expr) :
    Yields (expression (room + 1)) ts e rest False :=
  yields_expression (of_succ h) (Nat.succ_ne_zero room)

theorem DerivesIn.readIn {l : Level} {e : Expr} (h : DerivesIn room l ts e rest)
    (follows : l.Open → Follows l (first rest)) : ReadIn room ts e rest l := by
  induction h with
  | @binary _ b _ _ _ _ _ first more ih ih' =>
    have follows := follows trivial
    have next := more.derives.first_of_more follows
    exact yields_binary (Binary.readIn_operand (ih fun _ => next))
      (ih' fun _ => follows.mono le_rfl)
  | done => exact yields_done ((follows trivial).mono le_rfl) _
  | @further _ b _ _ _ _ _ _ _ _ op first more ih ih' =>
    have follows := follows trivial
    have next := more.derives.first_of_more (follows.mono le_rfl)
    exact yields_further op (of_succ (Binary.readIn_operand (ih fun _ => next)))
      (of_succ (ih' fun _ => follows.mono le_rfl)) (Nat.succ_ne_zero _)
  | single _ ih =>
    have follows := follows trivial
    exact yields_single (ih fun _ => follows.mono (by decide)) follows
  | compared _ op _ ih ih' =>
    have follows := follows trivial
    exact yields_compared (ih fun _ => .of_compareOp? op) op
      (ih' fun _ => follows.mono (by decide)) follows
  | plain inner ih =>
    exact yields_plain (ih fun _ => (follows trivial).mono le_rfl) inner.derives.first_of_primary
  | sign op _ ih => exact yields_sign op (of_succ (ih follows)) (Nat.succ_ne_zero _)
  | literal is => exact yields_literal is _
  | name chain ih =>
    exact yields_name (ih fun _ => (follows trivial).mono le_rfl) chain.derives.first_of_chain
  | paren opens _ closes ih =>
    have inner : ReadIn _ _ _ _ .expr := ih fun _ => .of_mark closes (by decide)
    exact yields_paren opens inner.expression closes
  | ident is linked ih =>
    exact yields_ident is (linked.derives.first_of_links (follows trivial))
      (ih fun _ => (follows trivial).mono le_rfl)
  | call is called linked ih ih' =>
    obtain ⟨args, close, rfl, read⟩ := ih False.elim
    exact yields_call is called.derives.first_of_arguments read
      (ih' fun _ => (follows trivial).mono le_rfl)
  | stop => exact yields_stop ((follows trivial).mono le_rfl)
  | member is named linked ih =>
    have follows := follows trivial
    exact yields_member is named (linked.derives.first_of_links (follows.mono le_rfl))
      (of_succ (ih fun _ => follows.mono le_rfl)) (Nat.succ_ne_zero _)
  | method is named called linked ih ih' =>
    obtain ⟨args, close, rfl, read⟩ := ih False.elim
    exact yields_method is named called.derives.first_of_arguments (of_succ read)
      (of_succ (ih' fun _ => (follows trivial).mono le_rfl)) (Nat.succ_ne_zero _)
  | index opens _ closes _ ih ih' =>
    have inner : ReadIn _ _ _ _ .expr := ih fun _ => .of_mark closes (by decide)
    exact yields_index opens (of_succ inner.expression) closes
      (of_succ (ih' fun _ => (follows trivial).mono le_rfl)) (Nat.succ_ne_zero _)
  | noArguments opens closes => exact ⟨[], _, rfl, yields_noArguments opens closes⟩
  | @someArguments _ _ _ ts _ _ opens items ih =>
    obtain ⟨args, close, rfl, read⟩ := ih False.elim
    exact ⟨args, close, rfl,
      yields_someArguments opens (items.derives.first_ne_close trivial) (read ts [] le_rfl)⟩
  | @lastItem _ _ _ _ item cl _ inner closes ih =>
    have read : ReadIn _ _ _ _ .expr := ih fun _ => .of_mark closes (by decide)
    have lt := (inner.derives.takesSome trivial).length_lt
    refine ⟨[item], cl.span, rfl, fun bound before le => ?_⟩
    refine yields_lastItem read.expression closes ?_
    rintro rfl
    rw [List.length_nil] at le
    omega
  | @nextItem _ _ _ _ item comma _ _ _ inner is more ih ih' =>
    have read : ReadIn _ _ _ _ .expr := ih fun _ => .of_mark is (by decide)
    obtain ⟨items, close, rfl, others⟩ := ih' False.elim
    have lt := (inner.derives.takesSome trivial).length_lt
    refine ⟨item :: items, close, by simp, fun bound before le => ?_⟩
    cases bound with
    | nil =>
      rw [List.length_nil] at le
      omega
    | cons x bound =>
      simp only [List.length_cons] at le lt
      exact yields_nextItem read.expression is (others bound (item :: before) (by omega))

/-- An expression is read in one level of room more than its derivation takes. -/
theorem DerivesIn.reads {e : Expr} (h : DerivesIn room .expr ts e rest)
    (follows : Follows .expr (first rest)) : Yields (expression (room + 1)) ts e rest False :=
  ReadIn.expression (h.readIn fun _ => follows)

/-! ## Statements and rules -/

theorem DerivesStatementIn.reads {s : Statement} (h : DerivesStatementIn room ts s rest) :
    Yields (statement room) ts s rest False := by
  have start := h.derives.first
  cases h with
  | assign chain place assigns right ends =>
    exact yields_assign start (chain.readIn fun _ => .of_assign assigns) place assigns
      (right.reads (.of_mark ends (by decide))) ends
  | call chain called ends =>
    exact yields_callStatement start (chain.readIn fun _ => .of_mark ends (by decide)) called ends

theorem deepens_false : Deepens fun _ => False := fun _ _ _ => id

theorem DerivesRuleIn.reads {r : Rule} (h : DerivesRuleIn room ts r rest) :
    Yields (rule room) ts r rest False := by
  cases h with
  | mk starts named described ranked opens introduces derived separates acts some closes =>
    have body := yields_statements acts (fun act => ⟨act.derives, act.reads⟩) deepens_false closes
      _ le_rfl []
    exact yields_rule starts named described ranked opens introduces
      (derived.reads (.of_keyword separates)) separates body some closes

theorem rules_of_derivesIn {rs : List Rule} {last : Token}
    (h : Many (DerivesRuleIn room) ts rs [last]) (ends : last.kind = .eof) :
    rules room ts = .ok rs := by
  rcases rulesFrom_complete h (fun rule => ⟨rule.derives.takesSome, rule.reads⟩) deepens_false ends
    ts le_rfl [] with ok | ⟨impossible, -⟩
  · exact ok
  · exact impossible.elim

/-- The rules of a token list that are read in a room are those that have a derivation in it. -/
theorem rules_eq_ok_iff (ended : Ended ts) {rs : List Rule} :
    rules room ts = .ok rs ↔
      ∃ last : Token, last.kind = .eof ∧ Many (DerivesRuleIn room) ts rs [last] := by
  constructor
  · intro h
    obtain ⟨more, rest, rfl, within, stop⟩ := rulesFrom_sound ts le_rfl h
    have derived := within.mono DerivesRuleIn.derives
    obtain ⟨last, ends, rfl⟩ := ended.eq_singleton (derived.takes DerivesRule.takesSome) stop
    exact ⟨last, ends, within⟩
  · rintro ⟨last, ends, derived⟩
    exact rules_of_derivesIn derived ends

end Rulebook.Grammar
