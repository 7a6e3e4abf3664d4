import Mathlib
import Rulebook.Proofs.Rule.Bare

/-!
# Trees with other spans

The same tree, read elsewhere: every span is replaced, and nothing else is.
-/

namespace Rulebook

namespace Expr

mutual

/-- The tree with every span replaced by its image. -/
def respan (f : Span → Span) : Expr → Expr
  | literal v s => literal v (f s)
  | ident name s => ident name (f s)
  | unary op operand s => unary op (operand.respan f) (f s)
  | arith op l r s => arith op (l.respan f) (r.respan f) (f s)
  | compare op l r s => compare op (l.respan f) (r.respan f) (f s)
  | logic op l r s => logic op (l.respan f) (r.respan f) (f s)
  | member object name s => member (object.respan f) name (f s)
  | index object key s => index (object.respan f) (key.respan f) (f s)
  | call name args s => call name (respanAll f args) (f s)
  | method receiver name args s => method (receiver.respan f) name (respanAll f args) (f s)

def respanAll (f : Span → Span) : List Expr → List Expr
  | [] => []
  | e :: es => e.respan f :: respanAll f es

end

theorem respanAll_eq (f : Span → Span) (es : List Expr) : respanAll f es = es.map (respan f) := by
  induction es with
  | nil => rfl
  | cons e es ih => rw [respanAll, ih, List.map_cons]

mutual

theorem respan_id : ∀ e : Expr, e.respan id = e
  | literal .. | ident .. => rfl
  | unary _ operand _ | member operand _ _ => by rw [respan, respan_id operand, id]
  | arith _ l r _ | compare _ l r _ | logic _ l r _ | index l r _ => by
    rw [respan, respan_id l, respan_id r, id]
  | call _ args _ => by rw [respan, respanAll_id args, id]
  | method receiver _ args _ => by rw [respan, respan_id receiver, respanAll_id args, id]

theorem respanAll_id : ∀ es : List Expr, respanAll id es = es
  | [] => rfl
  | e :: es => by rw [respanAll, respan_id e, respanAll_id es]

end

mutual

theorem bare_respan (f : Span → Span) : ∀ e : Expr, (e.respan f).bare = e.bare
  | literal .. | ident .. => rfl
  | unary _ operand _ | member operand _ _ => by rw [respan, bare, bare, bare_respan f operand]
  | arith _ l r _ | compare _ l r _ | logic _ l r _ | index l r _ => by
    rw [respan, bare, bare, bare_respan f l, bare_respan f r]
  | call _ args _ => by rw [respan, bare, bare, bareAll_respanAll f args]
  | method receiver _ args _ => by
    rw [respan, bare, bare, bare_respan f receiver, bareAll_respanAll f args]

theorem bareAll_respanAll (f : Span → Span) : ∀ es : List Expr,
    bareAll (respanAll f es) = bareAll es
  | [] => rfl
  | e :: es => by rw [respanAll, bareAll, bareAll, bare_respan f e, bareAll_respanAll f es]

end

variable (f : Span → Span) (e : Expr)

theorem span_respan : (e.respan f).span = f e.span := by cases e <;> rfl

theorem respan_withSpan (s : Span) : (e.withSpan s).respan f = (e.respan f).withSpan (f s) := by
  cases e <;> rfl

theorem isPlace_respan : Grammar.isPlace (e.respan f) ↔ Grammar.isPlace e := by
  cases e <;> exact Iff.rfl

theorem isCall_respan : Grammar.isCall (e.respan f) ↔ Grammar.isCall e := by
  cases e <;> exact Iff.rfl

end Expr

namespace Statement

def respan (f : Span → Span) : Statement → Statement
  | assign target value s => assign (target.respan f) (value.respan f) (f s)
  | call e s => call (e.respan f) (f s)

theorem respan_id (s : Statement) : s.respan id = s := by
  cases s <;> simp only [respan, Expr.respan_id, id]

theorem bare_respan (f : Span → Span) (s : Statement) : (s.respan f).bare = s.bare := by
  cases s <;> simp only [respan, bare, Expr.bare_respan]

end Statement

namespace Rule

def respan (f : Span → Span) (r : Rule) : Rule :=
  { r with
    condition := r.condition.respan f
    actions := r.actions.map (Statement.respan f)
    span := f r.span }

theorem respan_id (r : Rule) : r.respan id = r := by
  have actions : Statement.respan id = id := funext Statement.respan_id
  unfold respan
  rw [Expr.respan_id, actions, List.map_id, id]

theorem bare_respan (f : Span → Span) (r : Rule) : (r.respan f).bare = r.bare := by
  simp [respan, bare, Expr.bare_respan, Statement.bare_respan, Function.comp_def]

end Rule

end Rulebook
