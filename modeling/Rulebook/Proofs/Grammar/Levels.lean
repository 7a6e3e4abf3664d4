import Mathlib
import Rulebook.Proofs.Expr.Branch
import Rulebook.Proofs.Grammar.Parse

/-!
# What a limit on nesting says about trees

The room bounds how often a branch goes on by a sign, a right operand or a key. It does not bound
all levels of a branch. A finished part has left its levels again, and as a left operand or an
object it stands below levels that begin with the same room: first the links of its chain, then the
further operands of each binary level around it. So a branch has at most quadratically many levels.
-/

namespace Rulebook.Grammar

/-! ## Bounds on heights -/

/-- How high a chain can be, and a signed operand. -/
def reach (w : Nat) : Nat → Nat
  | 0 => 0
  | room + 1 => reach w room + max 1 (w * (5 * room + 1))

/-- The same with the further operands of some binary levels on top. -/
def within (w room folds : Nat) : Nat := reach w room + folds * (w * room)

/-- How high an expression can be that stands inside and takes a level of its own. -/
def inside (w : Nat) : Nat → Nat
  | 0 => 0
  | room + 1 => within w room 4

/-- A binary level and those between its operands and signs. -/
def Binary.folds : Binary → Nat
  | .or => 4
  | .and => 3
  | .sum => 2
  | .product => 1

def Level.Bounded (w room : Nat) (e : Expr) : Level → Prop
  | .binary b => e.height w ≤ within w room b.folds
  | .more b left => e.height w ≤ max (left.height w) (within w room (b.folds - 1)) + w * room
  | .compare => e.height w ≤ within w room 2
  | .unary | .primary | .chain => e.height w ≤ within w room 0
  | .links object => e.height w ≤ max (object.height w) (inside w room) + w * room
  | .arguments build =>
    ∃ args close, e = build args close ∧ ∀ a ∈ args, a.height w ≤ inside w room
  | .items build found =>
    ∃ args close, e = build args close ∧ ∀ a ∈ args, a ∈ found ∨ a.height w ≤ inside w room

variable {w room : Nat} {e left right : Expr}

theorem Binary.operand_bounded_iff (b : Binary) :
    b.operand.Bounded w room e ↔ e.height w ≤ within w room (b.folds - 1) := by
  cases b <;> exact Iff.rfl

theorem Binary.folds_pos (b : Binary) : 0 < b.folds := by cases b <;> decide

theorem within_add_one (w room folds : Nat) :
    within w room (folds + 1) = within w room folds + w * room := by
  unfold within
  rw [Nat.add_mul, Nat.one_mul, Nat.add_assoc]

theorem reach_lt (w room : Nat) : reach w room < reach w (room + 1) := by
  rw [reach]
  omega

theorem within_lt (w room folds : Nat) : within w room folds < within w (room + 1) folds := by
  have lt := reach_lt w room
  have le := Nat.mul_le_mul_left folds (Nat.mul_le_mul_left w (Nat.le_add_right room 1))
  unfold within
  omega

theorem inside_le_succ (w room : Nat) : inside w room ≤ inside w (room + 1) := by
  cases room with
  | zero => exact Nat.zero_le _
  | succ room => exact Nat.le_of_lt (within_lt w room 4)

theorem inside_add_le (le : w ≤ 1) (room : Nat) : inside w room + w * room ≤ within w room 0 := by
  cases room with
  | zero => simp [inside, within, reach]
  | succ room =>
    simp only [inside, within, reach]
    interval_cases w <;> omega

/-! ## Trees that parsers build -/

theorem Binary.height_build {b : Binary} {t : Token} {build : Build} (h : b.op? t = some build) :
    (build left right).height w = max (left.height w + w) (right.height w + 1) := by
  obtain ⟨op, rfl⟩ | ⟨op, rfl⟩ := Binary.build_cases h <;> rfl

theorem height_signed_le (op : UnaryOp) (e : Expr) (s : Span) :
    (signed op e s).height w ≤ e.height w + 1 := by
  unfold signed
  split
  · split <;> simp [Expr.height]
  · simp [Expr.height]
  · exact le_rfl

/-! ## Derivations -/

theorem DerivesIn.bounded (le : w ≤ 1) {l : Level} {ts rest : List Token}
    (h : DerivesIn room l ts e rest) : l.Bounded w room e := by
  induction h with
  | @binary room b ts left us e rest _ _ ih ih' =>
    rw [b.operand_bounded_iff] at ih
    have top := within_add_one w room (b.folds - 1)
    rw [Nat.sub_add_cancel b.folds_pos] at top
    simp only [Level.Bounded] at ih' ⊢
    omega
  | done | stop => exact Nat.le_add_right_of_le (Nat.le_max_left _ _)
  | @further room b left t build ts right us e rest op _ _ ih ih' =>
    rw [b.operand_bounded_iff] at ih
    -- The right operand has one level less, and the tree so far gets one more on top.
    have less := within_lt w room (b.folds - 1)
    have one := Nat.mul_add_one w room
    simp only [Level.Bounded, Binary.height_build op] at ih' ⊢
    omega
  | single _ ih | plain _ ih | name _ ih => exact ih
  | compared _ _ _ ih ih' => exact Nat.max_le.mpr ⟨ih, ih'⟩
  | @sign room t op ts e rest _ _ ih =>
    have one := height_signed_le (w := w) op e (t.span.cover e.span)
    have less := within_lt w room 0
    simp only [Level.Bounded] at ih ⊢
    omega
  | literal => exact Nat.zero_le _
  | @paren room op ts e cl rest _ _ _ ih =>
    -- Parentheses leave no node, and a chain behind them begins with the whole room again.
    have top := inside_add_le le (room + 1)
    simp only [Level.Bounded, Expr.height_withSpan] at ih ⊢
    exact (ih.trans (Nat.le_add_right _ _)).trans top
  | @ident room head ts e rest _ _ ih =>
    have top := inside_add_le le room
    simp only [Level.Bounded, Expr.height] at ih ⊢
    omega
  | @call room head ts call us e rest _ _ _ ih ih' =>
    obtain ⟨args, close, rfl, all⟩ := ih
    have args := Expr.heightOfAll_le_iff.mpr all
    have top := inside_add_le le room
    simp only [Level.Bounded, Expr.height] at ih' ⊢
    omega
  | @member room object dot t name ts e rest _ _ _ ih =>
    have less := inside_le_succ w room
    have one := Nat.mul_add_one w room
    simp only [Level.Bounded, Expr.height] at ih ⊢
    omega
  | @method room object dot t name ts call us e rest _ _ _ _ ih ih' =>
    obtain ⟨args, close, rfl, all⟩ := ih
    have args := Expr.heightOfAll_le_iff.mpr all
    have less := inside_le_succ w room
    have one := Nat.mul_add_one w room
    simp only [Level.Bounded, Expr.height] at ih' ⊢
    omega
  | @index room object op ts key cl us e rest _ _ _ _ ih ih' =>
    -- The key has two levels less than the object, so the sign of its level has room.
    have less : within w room 4 < inside w (room + 2) := within_lt w room 4
    have below : inside w (room + 1) ≤ inside w (room + 2) := inside_le_succ w (room + 1)
    have one : w * (room + 2) = w * (room + 1) + w := Nat.mul_add_one w (room + 1)
    simp only [Level.Bounded, Binary.folds, Expr.height] at ih ih' ⊢
    omega
  | noArguments => exact ⟨[], _, rfl, by simp⟩
  | someArguments _ _ ih =>
    obtain ⟨args, close, eq, all⟩ := ih
    exact ⟨args, close, eq, fun a mem => (all a mem).resolve_left List.not_mem_nil⟩
  | @lastItem room build found ts item cl rest _ _ ih =>
    refine ⟨found ++ [item], cl.span, rfl, fun a mem => ?_⟩
    rcases List.mem_append.mp mem with mem | mem
    · exact .inl mem
    · rw [List.mem_singleton.mp mem]
      exact .inr ih
  | nextItem _ _ _ ih ih' =>
    obtain ⟨args, close, eq, all⟩ := ih'
    refine ⟨args, close, eq, fun a mem => ?_⟩
    rcases all a mem with mem | low
    · rcases List.mem_append.mp mem with mem | mem
      · exact .inl mem
      · rw [List.mem_singleton.mp mem]
        exact .inr ih
    · exact .inr low

theorem DerivesIn.height_expr_le (le : w ≤ 1) {ts rest : List Token}
    (h : DerivesIn room .expr ts e rest) : e.height w ≤ within w (room + 1) 0 :=
  ((h.bounded le).trans (Nat.le_add_right _ _)).trans (inside_add_le le (room + 1))

theorem DerivesStatementIn.height_le (le : w ≤ 1) {ts rest : List Token} {s : Statement}
    (h : DerivesStatementIn room ts s rest) (mem : e ∈ s.exprs) :
    e.height w ≤ within w room 0 := by
  cases h with
  | assign target _ _ value _ =>
    simp only [Statement.exprs, List.mem_cons, List.not_mem_nil, or_false] at mem
    rcases mem with rfl | rfl
    · exact target.bounded le
    · exact value.height_expr_le le
  | call call _ _ =>
    rw [List.mem_singleton.mp mem]
    exact call.bounded le

theorem Many.exists_mem {α : Type} {R : List Token → α → List Token → Prop} {ts rest : List Token}
    {as : List α} {a : α} (h : Many R ts as rest) (mem : a ∈ as) : ∃ us vs, R us a vs := by
  induction h with
  | nil => cases mem
  | cons first _ ih =>
    rcases List.mem_cons.mp mem with rfl | mem
    · exact ⟨_, _, first⟩
    · exact ih mem

theorem DerivesRuleIn.height_le (le : w ≤ 1) {ts rest : List Token} {r : Rule}
    (h : DerivesRuleIn room ts r rest)
    (mem : e ∈ r.condition :: r.actions.flatMap Statement.exprs) :
    e.height w ≤ within w room 0 := by
  cases h with
  | mk _ _ _ _ _ _ condition _ actions _ _ =>
    rcases List.mem_cons.mp mem with rfl | mem
    · exact condition.height_expr_le le
    · obtain ⟨s, action, mem⟩ := List.mem_flatMap.mp mem
      obtain ⟨us, vs, derived⟩ := actions.exists_mem action
      exact derived.height_le le mem

theorem within_zero_zero (room : Nat) : within 0 room 0 = room := by
  induction room with
  | zero => rfl
  | succ room ih =>
    simp only [within, reach] at ih ⊢
    omega

theorem two_mul_within_one_zero (room : Nat) :
    2 * within 1 room 0 + 3 * room = 5 * (room * room) := by
  induction room with
  | zero => rfl
  | succ room ih =>
    have square : (room + 1) * (room + 1) = room * room + 2 * room + 1 := by ring
    simp only [within, reach] at ih ⊢
    omega

end Rulebook.Grammar

/-! ## Rule sets -/

namespace Rulebook.RuleSet

open Rulebook.Grammar
open Rulebook.Expr (Branch levels leftLevels weightOf)

variable {source text : String} {limits : Limits} {rules : List Rule} {r : Rule} {e : Expr}

theorem height_le_of_parse (parsed : parse source limits text = .ok rules) (mem : r ∈ rules)
    (part : e ∈ r.condition :: r.actions.flatMap Statement.exprs) {w : Nat} (le : w ≤ 1) :
    e.height w ≤ within w limits.depth 0 := by
  obtain ⟨ts, scanned, read⟩ := rules_of_parse parsed
  obtain ⟨more, rest, rfl, derived, -⟩ := rulesFrom_sound ts le_rfl read
  obtain ⟨us, vs, one⟩ := derived.exists_mem mem
  exact one.height_le le part

/-- The limit bounds how many levels of a branch are not left by the part in front, and with it how
many there are at all. -/
theorem levels_le_of_parse (parsed : parse source limits text = .ok rules) (mem : r ∈ rules)
    (part : e ∈ r.condition :: r.actions.flatMap Statement.exprs) {d : Expr} (node : d ∈ e.nodes)
    {p : List (Expr × Expr.Side)} (branch : d.Branch p) :
    levels p ≤ leftLevels p + limits.depth ∧
      2 * levels p + 3 * limits.depth ≤ 5 * (limits.depth * limits.depth) := by
  have bound {w : Nat} (le : w ≤ 1) : weightOf w p ≤ within w limits.depth 0 :=
    (branch.weightOf_le.trans (Expr.height_le_of_mem_nodes node)).trans
      (height_le_of_parse parsed mem part le)
  have others := bound (w := 0) (by decide)
  have all := bound (w := 1) le_rfl
  have square := two_mul_within_one_zero limits.depth
  rw [within_zero_zero] at others
  rw [Expr.weightOf_one] at all
  rw [Expr.levels_eq] at all ⊢
  omega

/-- A product of a member in a sum. -/
def folded : String := "rule A \x7b when a.b * c + d == 0 then Log(1); \x7d"

theorem parse_folded :
    ∃ r, parse "folded" { depth := 2 } folded = .ok [r] ∧ r.condition.height 1 = 3 := by
  have read : (parse "folded" { depth := 2 } folded).toOption.map
      (·.map (·.condition.height 1)) = some [3] := by
    decide +kernel
  rcases parsed : parse "folded" { depth := 2 } folded with e | rules
  · rw [parsed] at read
    cases read
  rw [parsed] at read
  rcases rules with _ | ⟨r, _ | ⟨_, _⟩⟩
  · cases read
  · exact ⟨r, rfl, by simpa [Except.toOption] using read⟩
  · simp [Except.toOption] at read

/-- The product and the sum begin with the level that the link before them has left. -/
theorem lt_levels_folded :
    ∃ r p, parse "folded" { depth := 2 } folded = .ok [r] ∧ r.condition.Branch p ∧
      2 < levels p := by
  obtain ⟨r, parsed, height⟩ := parse_folded
  obtain ⟨p, branch, weight⟩ := Expr.exists_branch 1 r.condition
  refine ⟨r, p, parsed, branch, ?_⟩
  rw [← Expr.weightOf_one, weight, height]
  decide

theorem levels_le_folded :
    ∃ r p, parse "folded" { depth := 2 } folded = .ok [r] ∧ r.condition.Branch p ∧
      levels p = 3 ∧ levels p ≤ leftLevels p + 2 ∧ 2 * levels p + 3 * 2 ≤ 5 * (2 * 2) := by
  obtain ⟨r, parsed, height⟩ := parse_folded
  obtain ⟨p, branch, weight⟩ := Expr.exists_branch 1 r.condition
  have node : r.condition ∈ r.condition.nodes := Expr.mem_nodes_iff.mpr (.inl rfl)
  refine ⟨r, p, parsed, branch, ?_,
    levels_le_of_parse parsed List.mem_cons_self List.mem_cons_self node branch⟩
  rw [← Expr.weightOf_one, weight, height]

end Rulebook.RuleSet
