import Mathlib
import Rulebook.Proofs.Grammar.Machine
import Rulebook.Proofs.Grammar.Segments

/-!
# Signs that become part of literals

A parser can keep every sign as a node of its own. Where the grammar makes signs part of numeric
literals as it reads them, the same can be done to the finished tree, from its leaves up.
-/

namespace Rulebook

namespace Expr

open Grammar (signed signed_cases span_signed)

mutual

/-- The tree with every sign before a numeric literal as part of it, unless it is out of range. -/
def folded : Expr → Expr
  | literal v s => literal v s
  | ident name s => ident name s
  | unary op operand s => signed op operand.folded s
  | arith op l r s => arith op l.folded r.folded s
  | compare op l r s => compare op l.folded r.folded s
  | logic op l r s => logic op l.folded r.folded s
  | member object name s => member object.folded name s
  | index object key s => index object.folded key.folded s
  | call name args s => call name (foldedAll args) s
  | method receiver name args s => method receiver.folded name (foldedAll args) s

def foldedAll : List Expr → List Expr
  | [] => []
  | e :: es => e.folded :: foldedAll es

end

theorem foldedAll_eq (es : List Expr) : foldedAll es = es.map folded := by
  induction es with
  | nil => rfl
  | cons e es ih => rw [foldedAll, ih, List.map_cons]

@[simp] theorem span_folded (e : Expr) : e.folded.span = e.span := by
  cases e <;> rw [folded]
  case unary op operand s => exact span_signed op operand.folded s
  all_goals rfl

theorem withSpan_signed (op : UnaryOp) (e : Expr) (s t : Span) :
    (signed op e s).withSpan t = signed op e t := by
  unfold signed
  split
  · split <;> rfl
  · rfl
  · rfl

theorem folded_withSpan (e : Expr) (s : Span) : (e.withSpan s).folded = e.folded.withSpan s := by
  cases e <;> simp only [withSpan, folded]
  case unary op operand t => exact (withSpan_signed op operand.folded t s).symm

theorem root?_folded : ∀ e : Expr, e.folded.root? = e.root?
  | .literal .. | .ident .. | .arith .. | .compare .. | .logic .. | .call .. => by
    simp only [folded, root?]
  | .unary op operand s => by
    rw [folded]
    obtain ⟨v, eq⟩ | eq := signed_cases op operand.folded s <;> rw [eq] <;> rfl
  | .member object _ _ | .index object _ _ | .method object _ _ _ => by
    rw [folded]
    exact root?_folded object

end Expr

namespace Grammar.Cursor

/-- A machine that keeps every sign reads trees that the grammar reads with their signs folded. -/
theorem image_folded : Image Expr.unary Expr.folded where
  span := Expr.span_folded
  withSpan := Expr.folded_withSpan
  literal _ _ := by rw [Expr.folded]
  ident _ _ := by rw [Expr.folded]
  sign _ _ _ := by rw [Expr.folded]
  unary op e s := by
    rw [Expr.folded]
    obtain ⟨v, eq⟩ | eq := signed_cases op e.folded s
    · exact .inl ⟨v, eq⟩
    · exact .inr ⟨op, e.folded, eq⟩
  arith _ _ _ _ := by rw [Expr.folded]
  compare _ _ _ _ := by rw [Expr.folded]
  logic _ _ _ _ := by rw [Expr.folded]
  member _ _ _ := by rw [Expr.folded]
  index _ _ _ := by rw [Expr.folded]
  call _ _ _ := by rw [Expr.folded, Expr.foldedAll_eq]
  method _ _ _ _ := by rw [Expr.folded, Expr.foldedAll_eq]

end Grammar.Cursor

end Rulebook
