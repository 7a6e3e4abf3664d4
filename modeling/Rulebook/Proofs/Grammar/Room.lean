import Mathlib
import Rulebook.Proofs.Grammar.Derivation

/-!
# Derivations within a room

The same grammar, with the room that is left where a part begins. A sign, a further operand and a
link each have one level less behind them, until the part is finished, and so does an expression
in parentheses, in brackets or among arguments. The condition of a rule and the value of an
assignment have one level less than what they stand in.
-/

namespace Rulebook.Grammar

inductive DerivesIn : Nat → Level → List Token → Expr → List Token → Prop
  | binary {room b ts left us e rest} : DerivesIn room b.operand ts left us →
      DerivesIn room (.more b left) us e rest → DerivesIn room (.binary b) ts e rest
  | done {room b left rest} : DerivesIn room (.more b left) rest left rest
  | further {room b left t build ts right us e rest} : b.op? t = some build →
      DerivesIn room b.operand ts right us →
        DerivesIn room (.more b (build left right)) us e rest →
          DerivesIn (room + 1) (.more b left) (t :: ts) e rest
  | single {room ts e rest} : DerivesIn room (.binary .sum) ts e rest →
      DerivesIn room .compare ts e rest
  | compared {room ts left t us op right rest} : DerivesIn room (.binary .sum) ts left (t :: us) →
      compareOp? t = some op → DerivesIn room (.binary .sum) us right rest →
        DerivesIn room .compare ts (.compare op left right (left.span.cover right.span)) rest
  | plain {room ts e rest} : DerivesIn room .primary ts e rest → DerivesIn room .unary ts e rest
  | sign {room t op ts e rest} : unaryOp? t = some op → DerivesIn room .unary ts e rest →
      DerivesIn (room + 1) .unary (t :: ts) (signed op e (t.span.cover e.span)) rest
  | literal {room t v rest} : t.kind = .literal v →
      DerivesIn room .primary (t :: rest) (.literal v t.span) rest
  | name {room ts e rest} : DerivesIn room .chain ts e rest → DerivesIn room .primary ts e rest
  | paren {room op ts e cl rest} : op.kind = .mark .openParen →
      DerivesIn room .expr ts e (cl :: rest) → cl.kind = .mark .closeParen →
        DerivesIn (room + 1) .primary (op :: ts) (e.withSpan (op.span.cover cl.span)) rest
  | ident {room head ts e rest} : head.kind = .identifier →
      DerivesIn room (.links (.ident head.text head.span)) ts e rest →
        DerivesIn room .chain (head :: ts) e rest
  | call {room head ts call us e rest} : head.kind = .identifier →
      DerivesIn room (.arguments fun args close => .call head.text args (head.span.cover close)) ts
        call us →
      DerivesIn room (.links call) us e rest → DerivesIn room .chain (head :: ts) e rest
  | stop {room object rest} : DerivesIn room (.links object) rest object rest
  | member {room object dot t name ts e rest} : dot.kind = .mark .dot → t.name? = some name →
      DerivesIn room (.links (.member object name (object.span.cover t.span))) ts e rest →
        DerivesIn (room + 1) (.links object) (dot :: t :: ts) e rest
  | method {room object dot t name ts call us e rest} : dot.kind = .mark .dot →
      t.name? = some name →
      DerivesIn room (.arguments fun args close =>
        .method object name args (object.span.cover close)) ts call us →
      DerivesIn room (.links call) us e rest →
        DerivesIn (room + 1) (.links object) (dot :: t :: ts) e rest
  | index {room object op ts key cl us e rest} : op.kind = .mark .openBracket →
      DerivesIn room .expr ts key (cl :: us) → cl.kind = .mark .closeBracket →
        DerivesIn (room + 1) (.links (.index object key (object.span.cover cl.span))) us e rest →
          DerivesIn (room + 2) (.links object) (op :: ts) e rest
  | noArguments {room build op cl rest} : op.kind = .mark .openParen →
      cl.kind = .mark .closeParen →
        DerivesIn room (.arguments build) (op :: cl :: rest) (build [] cl.span) rest
  | someArguments {room build op ts e rest} : op.kind = .mark .openParen →
      DerivesIn room (.items build []) ts e rest →
        DerivesIn room (.arguments build) (op :: ts) e rest
  | lastItem {room build found ts item cl rest} : DerivesIn room .expr ts item (cl :: rest) →
      cl.kind = .mark .closeParen →
        DerivesIn (room + 1) (.items build found) ts (build (found ++ [item]) cl.span) rest
  | nextItem {room build found ts item comma us e rest} :
      DerivesIn room .expr ts item (comma :: us) → comma.kind = .mark .comma →
        DerivesIn (room + 1) (.items build (found ++ [item])) us e rest →
          DerivesIn (room + 1) (.items build found) ts e rest

/-- The room makes no difference to what a derivation leads to. -/
theorem DerivesIn.derives {room : Nat} {l : Level} {ts rest : List Token} {e : Expr}
    (h : DerivesIn room l ts e rest) : Derives l ts e rest := by
  induction h with
  | binary _ _ ih ih' => exact .binary ih ih'
  | done => exact .done
  | further op _ _ ih ih' => exact .further op ih ih'
  | single _ ih => exact .single ih
  | compared _ op _ ih ih' => exact .compared ih op ih'
  | plain _ ih => exact .plain ih
  | sign op _ ih => exact .sign op ih
  | literal is => exact .literal is
  | name _ ih => exact .name ih
  | paren opens _ closes ih => exact .paren opens ih closes
  | ident is _ ih => exact .ident is ih
  | call is _ _ ih ih' => exact .call is ih ih'
  | stop => exact .stop
  | member is named _ ih => exact .member is named ih
  | method is named _ _ ih ih' => exact .method is named ih ih'
  | index opens _ closes _ ih ih' => exact .index opens ih closes ih'
  | noArguments opens closes => exact .noArguments opens closes
  | someArguments opens _ ih => exact .someArguments opens ih
  | lastItem _ closes ih => exact .lastItem ih closes
  | nextItem _ is _ ih ih' => exact .nextItem ih is ih'

/-- In more room the same is derived. -/
theorem DerivesIn.succ {room : Nat} {l : Level} {ts rest : List Token} {e : Expr}
    (h : DerivesIn room l ts e rest) : DerivesIn (room + 1) l ts e rest := by
  induction h with
  | binary _ _ ih ih' => exact .binary ih ih'
  | done => exact .done
  | further op _ _ ih ih' => exact .further op ih ih'
  | single _ ih => exact .single ih
  | compared _ op _ ih ih' => exact .compared ih op ih'
  | plain _ ih => exact .plain ih
  | sign op _ ih => exact .sign op ih
  | literal is => exact .literal is
  | name _ ih => exact .name ih
  | paren opens _ closes ih => exact .paren opens ih closes
  | ident is _ ih => exact .ident is ih
  | call is _ _ ih ih' => exact .call is ih ih'
  | stop => exact .stop
  | member is named _ ih => exact .member is named ih
  | method is named _ _ ih ih' => exact .method is named ih ih'
  | index opens _ closes _ ih ih' => exact .index opens ih closes ih'
  | noArguments opens closes => exact .noArguments opens closes
  | someArguments opens _ ih => exact .someArguments opens ih
  | lastItem _ closes ih => exact .lastItem ih closes
  | nextItem _ is _ ih ih' => exact .nextItem ih is ih'

theorem DerivesIn.mono {room room' : Nat} {l : Level} {ts rest : List Token} {e : Expr}
    (h : DerivesIn room l ts e rest) (le : room ≤ room') : DerivesIn room' l ts e rest := by
  induction le with
  | refl => exact h
  | step _ ih => exact ih.succ

/-! ### Levels inside each other -/

/-- Whether a part of this level is an expression of its own. -/
def Level.Whole : Level → Prop
  | .binary .. | .compare | .unary | .primary | .chain => True
  | _ => False

/-- What is derived on a tighter level is an expression. -/
theorem DerivesIn.expr {room : Nat} {l : Level} {ts rest : List Token} {e : Expr}
    (h : DerivesIn room l ts e rest) (whole : l.Whole) : DerivesIn room .expr ts e rest := by
  have ofCompare (h : DerivesIn room .compare ts e rest) : DerivesIn room .expr ts e rest :=
    .binary (.binary h .done) .done
  have ofUnary (h : DerivesIn room .unary ts e rest) : DerivesIn room .expr ts e rest :=
    ofCompare (.single (.binary (.binary h .done) .done))
  cases l with
  | binary b =>
    cases b with
    | or => exact h
    | and => exact .binary h .done
    | sum => exact ofCompare (.single h)
    | product => exact ofCompare (.single (.binary h .done))
  | compare => exact ofCompare h
  | unary => exact ofUnary h
  | primary => exact ofUnary (.plain h)
  | chain => exact ofUnary (.plain (.name h))
  | more | links | arguments | items => cases whole

/-! ## Statements and rules -/

inductive DerivesStatementIn : Nat → List Token → Statement → List Token → Prop
  | assign {room ts target eq us value semi rest} :
      DerivesIn (room + 1) .chain ts target (eq :: us) → isPlace target →
      eq.kind = .operator .assign → DerivesIn room .expr us value (semi :: rest) →
        semi.kind = .mark .semicolon →
          DerivesStatementIn (room + 1) ts (.assign target value (target.span.cover semi.span)) rest
  | call {room ts e semi rest} : DerivesIn room .chain ts e (semi :: rest) → isCall e →
      semi.kind = .mark .semicolon →
        DerivesStatementIn room ts (.call e (e.span.cover semi.span)) rest

inductive DerivesRuleIn : Nat → List Token → Rule → List Token → Prop
  | mk {room start name ts description us salience op word vs condition thn ws actions cl rest} :
      start.kind = .keyword .rule → name.kind = .identifier → DerivesDescription ts description us →
      DerivesSalience us salience (op :: word :: vs) → op.kind = .mark .openBrace →
      word.kind = .keyword .when → DerivesIn room .expr vs condition (thn :: ws) →
      thn.kind = .keyword .«then» → Many (DerivesStatementIn (room + 1)) ws actions (cl :: rest) →
      actions ≠ [] → cl.kind = .mark .closeBrace →
        DerivesRuleIn (room + 1) (start :: name :: ts)
          ⟨name.text, description, salience, condition, actions, start.span.cover cl.span⟩ rest

theorem Many.mono {α : Type} {R R' : List Token → α → List Token → Prop} {ts rest : List Token}
    {as : List α} (h : Many R ts as rest) (le : ∀ {ts a rest}, R ts a rest → R' ts a rest) :
    Many R' ts as rest := by
  induction h with
  | nil => exact .nil
  | cons first _ ih => exact .cons (le first) ih

theorem DerivesStatementIn.derives {room : Nat} {ts rest : List Token} {s : Statement}
    (h : DerivesStatementIn room ts s rest) : DerivesStatement ts s rest := by
  cases h with
  | assign target place assigns value ends =>
    exact .assign target.derives place assigns value.derives ends
  | call e called ends => exact .call e.derives called ends

theorem DerivesRuleIn.derives {room : Nat} {ts rest : List Token} {r : Rule}
    (h : DerivesRuleIn room ts r rest) : DerivesRule ts r rest := by
  cases h with
  | mk starts named described ranked opens introduces condition separates actions some closes =>
    exact .mk starts named described ranked opens introduces condition.derives separates
      (actions.mono DerivesStatementIn.derives) some closes

end Rulebook.Grammar
