import Mathlib
import Rulebook.Rule

/-!
# Branches of expressions

A branch leads from the root of an expression to a leaf. Evaluating, showing and searching an
expression go down its branches, so what bounds them is how many nodes a branch has. Signs,
arithmetic and logical operators, members and elements count as levels. Comparisons cannot be
chained, and calls have parentheses of their own.
-/

namespace Rulebook.Expr

/-- Where a branch leaves a node: by the operand or object that stands in front, or otherwise. -/
inductive Side where
  | left
  | right
deriving DecidableEq

def parts : Expr → List (Side × Expr)
  | literal .. | ident .. => []
  | unary _ operand _ => [(.right, operand)]
  | arith _ l r _ | compare _ l r _ | logic _ l r _ => [(.left, l), (.right, r)]
  | member object _ _ => [(.left, object)]
  | index object key _ => [(.left, object), (.right, key)]
  | call _ args _ => args.map fun a => (.right, a)
  | method receiver _ args _ => (.left, receiver) :: args.map fun a => (.right, a)

def isLevel : Expr → Bool
  | unary .. | arith .. | logic .. | member .. | index .. => true
  | _ => false

/-- The nodes from the root to a leaf, the leaf apart, and where the branch leaves each of them. -/
inductive Branch : Expr → List (Expr × Side) → Prop
  | leaf {e} : e.parts = [] → Branch e []
  | inner {e side part p} : (side, part) ∈ e.parts → Branch part p → Branch e ((e, side) :: p)

def levels (p : List (Expr × Side)) : Nat := p.countP fun n => n.1.isLevel

def leftLevels (p : List (Expr × Side)) : Nat := p.countP fun n => n.1.isLevel && n.2 = .left

/-! ## Height -/

/-- A level counts for `w` where a branch leaves it on the left, and for one otherwise. -/
def weight (w : Nat) (e : Expr) : Side → Nat
  | .left => if e.isLevel then w else 0
  | .right => if e.isLevel then 1 else 0

def weightOf (w : Nat) (p : List (Expr × Side)) : Nat := (p.map fun n => weight w n.1 n.2).sum

mutual

/-- The weight of the heaviest branch. -/
def height (w : Nat) : Expr → Nat
  | literal .. | ident .. => 0
  | unary _ operand _ => operand.height w + 1
  | arith _ l r _ | logic _ l r _ => max (l.height w + w) (r.height w + 1)
  | compare _ l r _ => max (l.height w) (r.height w)
  | member object _ _ => object.height w + w
  | index object key _ => max (object.height w + w) (key.height w + 1)
  | call _ args _ => heightOfAll w args
  | method receiver _ args _ => max (receiver.height w) (heightOfAll w args)

def heightOfAll (w : Nat) : List Expr → Nat
  | [] => 0
  | e :: es => max (e.height w) (heightOfAll w es)

end

variable {w n : Nat} {e part : Expr} {side : Side} {p : List (Expr × Side)}

theorem heightOfAll_le_iff {es : List Expr} :
    heightOfAll w es ≤ n ↔ ∀ a ∈ es, a.height w ≤ n := by
  induction es with
  | nil => simp [heightOfAll]
  | cons e es ih => simp [heightOfAll, ih]

theorem height_part_le (h : (side, part) ∈ e.parts) :
    part.height w + weight w e side ≤ e.height w := by
  cases e <;> simp only [parts, List.mem_cons, List.mem_map, List.not_mem_nil, or_false,
    Prod.mk.injEq] at h
  case unary => obtain ⟨rfl, rfl⟩ := h; simp [height, weight, isLevel]
  case arith | compare | logic | index =>
    rcases h with ⟨rfl, rfl⟩ | ⟨rfl, rfl⟩ <;> simp [height, weight, isLevel]
  case member => obtain ⟨rfl, rfl⟩ := h; simp [height, weight, isLevel]
  case call =>
    obtain ⟨a, mem, rfl, rfl⟩ := h
    simp [height, weight, isLevel, heightOfAll_le_iff.mp le_rfl a mem]
  case method =>
    rcases h with ⟨rfl, rfl⟩ | ⟨a, mem, rfl, rfl⟩
    · simp [height, weight, isLevel]
    · have le := heightOfAll_le_iff.mp (le_refl (heightOfAll w _)) a mem
      simp only [height, weight, isLevel]
      simp
      omega

theorem Branch.weightOf_le (h : Branch e p) : weightOf w p ≤ e.height w := by
  induction h with
  | leaf => simp [weightOf]
  | inner mem _ ih =>
    have le := height_part_le (w := w) mem
    simp only [weightOf, List.map_cons, List.sum_cons] at ih ⊢
    omega

theorem nodesOfAll_eq (es : List Expr) : nodesOfAll es = es.flatMap nodes := by
  induction es with
  | nil => rfl
  | cons e es ih => rw [nodesOfAll, ih, List.flatMap_cons]

theorem mem_nodes_iff {d : Expr} : d ∈ e.nodes ↔ d = e ∨ ∃ n ∈ e.parts, d ∈ n.2.nodes := by
  cases e <;> simp [nodes, parts, nodesOfAll_eq]

theorem self_mem_nodes (e : Expr) : e ∈ e.nodes := mem_nodes_iff.mpr (.inl rfl)

theorem sizeOf_part_lt (h : (side, part) ∈ e.parts) : sizeOf part < sizeOf e := by
  cases e <;> simp only [parts, List.mem_cons, List.mem_map, List.not_mem_nil, or_false,
    Prod.mk.injEq] at h
  case unary | member => obtain ⟨-, rfl⟩ := h; simp; omega
  case arith | compare | logic | index => rcases h with ⟨-, rfl⟩ | ⟨-, rfl⟩ <;> simp <;> omega
  case call =>
    obtain ⟨a, mem, -, rfl⟩ := h
    have lt := List.sizeOf_lt_of_mem mem
    simp
    omega
  case method =>
    rcases h with ⟨-, rfl⟩ | ⟨a, mem, -, rfl⟩
    · simp; omega
    · have lt := List.sizeOf_lt_of_mem mem
      simp
      omega

/-- No expression in another is higher. -/
theorem height_le_of_mem_nodes {d e : Expr} (h : d ∈ e.nodes) : d.height w ≤ e.height w := by
  rcases mem_nodes_iff.mp h with rfl | ⟨⟨side, part⟩, mem, inner⟩
  · exact le_rfl
  · have lt := sizeOf_part_lt mem
    have part_le := height_part_le (w := w) mem
    have inner_le : d.height w ≤ part.height w := height_le_of_mem_nodes inner
    omega
termination_by sizeOf e

/-! ## The heaviest branch -/

theorem exists_mem_heightOfAll {es : List Expr} (some : es ≠ []) :
    ∃ a ∈ es, a.height w = heightOfAll w es := by
  induction es with
  | nil => exact absurd rfl some
  | cons e es ih =>
    rcases le_total (heightOfAll w es) (e.height w) with le | le
    · exact ⟨e, .head _, by simp [heightOfAll, le]⟩
    · cases es with
      | nil => exact ⟨e, .head _, by simp [heightOfAll]⟩
      | cons d es =>
        obtain ⟨a, mem, eq⟩ := ih (List.cons_ne_nil _ _)
        exact ⟨a, .tail _ mem, by rw [eq, heightOfAll.eq_2 w e, max_eq_right le]⟩

/-- One of two parts makes the height of a node. -/
theorem exists_part_of_max {l r : Side × Expr} (parts : e.parts = [l, r])
    (height : e.height w = max (l.2.height w + weight w e l.1) (r.2.height w + weight w e r.1)) :
    ∃ side part, (side, part) ∈ e.parts ∧ part.height w + weight w e side = e.height w := by
  rw [parts, height]
  rcases le_total (l.2.height w + weight w e l.1) (r.2.height w + weight w e r.1) with le | le
  · exact ⟨r.1, r.2, by simp, by simp [le]⟩
  · exact ⟨l.1, l.2, by simp, by simp [le]⟩

theorem exists_part (some : e.parts ≠ []) :
    ∃ side part, (side, part) ∈ e.parts ∧ part.height w + weight w e side = e.height w := by
  cases e with
  | literal | ident => exact absurd rfl some
  | unary _ operand => exact ⟨.right, operand, by simp [parts], rfl⟩
  | arith _ l r | compare _ l r | logic _ l r => exact exists_part_of_max rfl rfl
  | index object key => exact exists_part_of_max rfl rfl
  | member object => exact ⟨.left, object, by simp [parts], rfl⟩
  | call name args =>
    have args_ne : args ≠ [] := by rintro rfl; exact some rfl
    obtain ⟨a, mem, eq⟩ := exists_mem_heightOfAll (w := w) args_ne
    exact ⟨.right, a, by simpa [parts] using mem, by simp [height, weight, isLevel, eq]⟩
  | method receiver name args =>
    rcases le_total (heightOfAll w args) (receiver.height w) with le | le
    · exact ⟨.left, receiver, by simp [parts], by simp [height, weight, isLevel, le]⟩
    · cases args with
      | nil => exact ⟨.left, receiver, by simp [parts], by simp [height, heightOfAll, weight, isLevel]⟩
      | cons d ds =>
        obtain ⟨a, mem, eq⟩ := exists_mem_heightOfAll (w := w) (List.cons_ne_nil d ds)
        refine ⟨.right, a, ?_, by simp [height, weight, isLevel, eq, le]⟩
        exact List.mem_cons_of_mem _ (List.mem_map_of_mem mem)

theorem exists_branch (w : Nat) (e : Expr) : ∃ p, e.Branch p ∧ weightOf w p = e.height w := by
  by_cases none : e.parts = []
  · refine ⟨[], .leaf none, ?_⟩
    cases e <;> simp [parts] at none <;> simp [weightOf, height, heightOfAll, none]
  · obtain ⟨side, part, mem, eq⟩ := exists_part (w := w) none
    have lt := sizeOf_part_lt mem
    obtain ⟨p, branch, weight⟩ := exists_branch w part
    refine ⟨(e, side) :: p, .inner mem branch, ?_⟩
    simp only [weightOf, List.map_cons, List.sum_cons] at weight ⊢
    omega
termination_by sizeOf e

/-! ## Levels -/

theorem weightOf_one (p : List (Expr × Side)) : weightOf 1 p = levels p := by
  induction p with
  | nil => rfl
  | cons n p ih =>
    obtain ⟨e, side⟩ := n
    simp only [weightOf, levels, List.map_cons, List.sum_cons, List.countP_cons] at ih ⊢
    rw [ih]
    cases side <;> simp [weight, Nat.add_comm]

/-- A level that is not left on the left has weight in any case. -/
theorem levels_eq (p : List (Expr × Side)) : levels p = leftLevels p + weightOf 0 p := by
  induction p with
  | nil => rfl
  | cons n p ih =>
    obtain ⟨e, side⟩ := n
    simp only [weightOf, levels, leftLevels, List.map_cons, List.sum_cons, List.countP_cons]
      at ih ⊢
    rw [ih]
    cases side <;> simp [weight] <;> split <;> omega

/-! ## Trees that parsers build -/

@[simp] theorem height_withSpan (s : Span) : (e.withSpan s).height w = e.height w := by
  cases e <;> simp [withSpan, height]

end Rulebook.Expr
