import Mathlib
import Rulebook.Proofs.Grammar.Quiet

/-!
# Blocks of a token list

A block begins with every `rule` keyword that is not a member name, and at the first token.
-/

namespace Rulebook.Grammar

open Rulebook.Grammar.Parser

/-- Whether a token begins a block behind the one before it. -/
def startsBlock (last t : Token) : Bool := t.isKeyword .rule && !last.isMark .dot

def blocks (ts : List Token) : List (List Token) := ts.splitBy fun last t => !startsBlock last t

/-- No token but the first begins a block. -/
abbrev Joined (ts : List Token) : Prop := ts.IsChain fun last t => (!startsBlock last t) = true

variable {ts us : List Token} {t u : Token}

theorem startsBlock_of_ne (h : t.kind ≠ .keyword .rule) (last : Token) :
    startsBlock last t = false := by
  rw [startsBlock, Bool.and_eq_false_iff, ← Bool.not_eq_true, Token.isKeyword_iff]
  exact .inl h

theorem Quiet.joined (h : Quiet ts) (t : Token) : Joined (t :: ts) := by
  induction h generalizing t with
  | nil => exact .singleton t
  | cons _ other _ ih =>
    exact .cons_cons (by rw [startsBlock_of_ne other, Bool.not_false]) (ih _)
  | @named dot _ _ is _ _ ih =>
    have other : startsBlock t dot = false := startsBlock_of_ne (by simp [is]) t
    refine .cons_cons (by rw [other, Bool.not_false]) (.cons_cons ?_ (ih _))
    simp [startsBlock, Token.isMark_iff.mpr is]

/-! ## Splitting -/

theorem flatten_blocks (ts : List Token) : (blocks ts).flatten = ts := List.flatten_splitBy _ ts

theorem blocks_cons_eq (t : Token) (ts : List Token) :
    ∃ b bs, blocks (t :: ts) = (t :: b) :: bs := by
  have flat := flatten_blocks (t :: ts)
  rcases split : blocks (t :: ts) with _ | ⟨_ | ⟨u, b⟩, bs⟩
  · exact absurd (List.splitBy_eq_nil.mp split) (List.cons_ne_nil t ts)
  · exact absurd (split ▸ List.mem_cons_self) (List.nil_notMem_splitBy _ (t :: ts))
  · rw [split] at flat
    obtain ⟨rfl, -⟩ := List.cons.inj flat
    exact ⟨b, bs, rfl⟩

theorem blocks_of_joined (h : Joined (t :: ts)) : blocks (t :: ts) = [t :: ts] :=
  List.splitBy_of_isChain (List.cons_ne_nil t ts) h

/-- Joined tokens are a block of their own if another block begins behind them. -/
theorem blocks_append_of_starts (h : Joined (t :: ts))
    (starts : startsBlock ((t :: ts).getLast (List.cons_ne_nil t ts)) u = true) :
    blocks (t :: ts ++ u :: us) = (t :: ts) :: blocks (u :: us) := by
  unfold blocks
  rw [List.splitBy_append_cons]
  · exact congrArg (· ++ _) (blocks_of_joined h)
  · intro x mem
    rw [List.getLast?_eq_some_getLast (List.cons_ne_nil t ts), Option.mem_some_iff] at mem
    rw [← mem, starts, Bool.not_true]

/-- Joined tokens lengthen the block behind them if none begins there. -/
theorem blocks_append_of_joins {b : List Token} {bs : List (List Token)} (h : Joined (t :: ts))
    (joins : startsBlock ((t :: ts).getLast (List.cons_ne_nil t ts)) u = false)
    (split : blocks (u :: us) = (u :: b) :: bs) :
    blocks (t :: ts ++ u :: us) = (t :: ts ++ u :: b) :: bs := by
  obtain ⟨flat, all, joined, apart⟩ := List.splitBy_eq_iff.mp split
  refine List.splitBy_eq_iff.mpr ⟨?_, ?_, ?_, ?_⟩
  · rw [flat, List.flatten_cons, List.flatten_cons, List.append_assoc]
  · simpa using all
  · intro m mem
    rcases List.mem_cons.mp mem with rfl | mem
    · refine List.isChain_append.mpr ⟨h, joined _ List.mem_cons_self, fun x last y head => ?_⟩
      rw [List.getLast?_eq_some_getLast (List.cons_ne_nil t ts), Option.mem_some_iff] at last
      rw [List.head?_cons, Option.mem_some_iff] at head
      rw [← last, ← head, joins, Bool.not_false]
    · exact joined m (List.mem_cons_of_mem _ mem)
  · cases bs with
    | nil => exact .singleton _
    | cons c bs =>
      obtain ⟨⟨ha, hb, starts⟩, others⟩ := List.isChain_cons_cons.mp apart
      refine .cons_cons ⟨by simp, hb, ?_⟩ others
      rwa [List.getLast_append_of_ne_nil _ ha]

/-! ## The next block -/

variable {last : Token} {before : List Token}

/-- What is skipped belongs to one block, and the next one begins behind it. -/
theorem nextRule_eq (ends : last.kind = .eof) (none : ∀ t ∈ before, t.kind ≠ .eof) (t : Token) :
    ∃ skipped after, before = skipped ++ after ∧ blocks (t :: before) = (t :: skipped) :: blocks after ∧
      nextRule t (before ++ [last]) = after ++ [last] := by
  induction before generalizing t with
  | nil =>
    refine ⟨[], [], rfl, blocks_of_joined (.singleton t), ?_⟩
    rw [List.nil_append, nextRule, Token.isEof_iff.mpr ends]
    rfl
  | cons u before ih =>
    have other : u.isEof = false := Token.isEof_eq_false (none u List.mem_cons_self)
    rw [List.cons_append, nextRule, other, Bool.false_or]
    change ∃ skipped after, _ ∧ _ ∧ (if startsBlock t u then _ else _) = _
    split
    · next starts =>
      exact ⟨[], u :: before, rfl, blocks_append_of_starts (.singleton t) starts, rfl⟩
    · next joins =>
      obtain ⟨skipped, after, rfl, split, rest⟩ := ih (fun t mem => none t (.tail u mem)) u
      refine ⟨u :: skipped, after, rfl, ?_, rest⟩
      exact blocks_append_of_joins (.singleton t) (by simpa using joins) split

theorem recover_eq (ends : last.kind = .eof) (none : ∀ t ∈ before, t.kind ≠ .eof) :
    before = [] ∧ recover (before ++ [last]) = [last] ∨
      ∃ t skipped after, before = t :: skipped ++ after ∧
        blocks before = (t :: skipped) :: blocks after ∧
        recover (before ++ [last]) = after ++ [last] := by
  cases before with
  | nil =>
    refine .inl ⟨rfl, ?_⟩
    rw [List.nil_append, recover, Token.isEof_iff.mpr ends]
    rfl
  | cons t before =>
    have other : t.isEof = false := Token.isEof_eq_false (none t List.mem_cons_self)
    obtain ⟨skipped, after, rfl, split, rest⟩ := nextRule_eq ends (fun t mem => none t (.tail _ mem)) t
    refine .inr ⟨t, skipped, after, rfl, split, ?_⟩
    rw [List.cons_append, recover, other]
    exact rest

end Rulebook.Grammar
