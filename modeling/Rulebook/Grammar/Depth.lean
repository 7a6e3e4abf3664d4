/-!
# Counting nesting

A bounded counter of the levels that have been entered and not left. Parsers are given only the
`room` that it leaves.
-/

namespace Rulebook.Grammar

structure Depth where
  limit : Nat
  level : Nat := 0
deriving DecidableEq, Repr

namespace Depth

/-- The levels that can still be entered. -/
def room (d : Depth) : Nat := d.limit - d.level

/-- Enters a level, or says which level is beyond the limit. -/
def push (d : Depth) : Except Nat Depth :=
  if d.level < d.limit then .ok { d with level := d.level + 1 } else .error (d.level + 1)

/-- Leaves a level, if one was entered. -/
def pop (d : Depth) : Depth := { d with level := d.level - 1 }

theorem push_eq_error_iff (d : Depth) (reached : Nat) :
    d.push = .error reached ↔ d.room = 0 ∧ reached = d.level + 1 := by
  unfold push room
  split
  · simp; omega
  · simp only [Except.error.injEq]; omega

theorem room_of_push {d e : Depth} (h : d.push = .ok e) : d.room = e.room + 1 := by
  unfold push at h
  split at h
  · cases h; simp only [room]; omega
  · cases h

theorem pop_of_push {d e : Depth} (h : d.push = .ok e) : e.pop = d := by
  unfold push at h
  split at h
  · cases h; rfl
  · cases h

end Depth

end Rulebook.Grammar
