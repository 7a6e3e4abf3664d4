import Mathlib
import Rulebook.Proofs.Expr.Branch
import Rulebook.Proofs.Rule.WellFormed

/-!
# Chains and their links

A chain is a base and the links behind it, each of which reaches into what stands before it. Taking
it apart goes from the last link down to the base; attaching the links one behind the other builds
it again. In what can be written the base of a chain is a name or a call by a bare name.
-/

namespace Rulebook

namespace Expr

/-! ## Taking chains apart -/

/-- What a link reaches into. -/
def object? : Expr → Option Expr
  | member object _ _ | index object _ _ | method object _ _ _ => some object
  | _ => none

def isLink (e : Expr) : Prop := e.object?.isSome

/-- A name, or a call by a bare name. -/
def isHead : Expr → Prop
  | ident .. | call .. => True
  | _ => False

/-- Goes down to the base, and puts each link in front of those already found. -/
def splitFrom (found : List Expr) : Expr → Expr × List Expr
  | member object name s => splitFrom (member object name s :: found) object
  | index object key s => splitFrom (index object key s :: found) object
  | method receiver name args s => splitFrom (method receiver name args s :: found) receiver
  | base => (base, found)

/-- The base of a chain and its links, from the base on. -/
def split (e : Expr) : Expr × List Expr := splitFrom [] e

/-- The same link, reaching into another object. -/
def attach (object : Expr) : Expr → Expr
  | member _ name s => member object name s
  | index _ key s => index object key s
  | method _ name args s => method object name args s
  | _ => object

variable {e object link part : Expr} {name : String}

/-- From the base of each chain to its last link. -/
@[elab_as_elim]
theorem chain_induction {P : Expr → Prop} (base : ∀ e, e.object? = none → P e)
    (link : ∀ e object, e.object? = some object → P object → P e) : ∀ e, P e
  | member object _ _ | index object _ _ | method object _ _ _ =>
    link _ object rfl (chain_induction base link object)
  | literal .. | ident .. | unary .. | arith .. | compare .. | logic .. | call .. => base _ rfl

theorem splitFrom_of_base (h : e.object? = none) (found : List Expr) :
    splitFrom found e = (e, found) := by
  cases e <;> first | rfl | cases h

theorem splitFrom_of_link (h : e.object? = some object) (found : List Expr) :
    splitFrom found e = splitFrom (e :: found) object := by
  cases e <;> cases h <;> rfl

theorem splitFrom_append (found more : List Expr) (e : Expr) :
    splitFrom (found ++ more) e = ((splitFrom found e).1, (splitFrom found e).2 ++ more) := by
  induction e using chain_induction generalizing found with
  | base e h => rw [splitFrom_of_base h, splitFrom_of_base h]
  | link e object h ih => rw [splitFrom_of_link h, splitFrom_of_link h, ← List.cons_append, ih]

theorem split_of_base (h : e.object? = none) : e.split = (e, []) := splitFrom_of_base h []

theorem split_of_link (h : e.object? = some object) :
    e.split = (object.split.1, object.split.2 ++ [e]) := by
  rw [split, splitFrom_of_link h]
  exact splitFrom_append [] [e] object

theorem attach_object (h : e.object? = some object) : attach object e = e := by
  cases e <;> cases h <;> rfl

/-! ## What a chain consists of -/

theorem isLink_of_mem_split (mem : link ∈ e.split.2) : link.isLink := by
  induction e using chain_induction with
  | base e h =>
    rw [split_of_base h] at mem
    cases mem
  | link e object h ih =>
    rw [split_of_link h] at mem
    rcases List.mem_append.mp mem with mem | mem
    · exact ih mem
    · rw [List.mem_singleton.mp mem, isLink, h]
      rfl

theorem foldl_attach_split (e : Expr) : e.split.2.foldl attach e.split.1 = e := by
  induction e using chain_induction with
  | base e h => rw [split_of_base h, List.foldl_nil]
  | link e object h ih =>
    rw [split_of_link h, List.foldl_append, ih]
    exact attach_object h

theorem root?_of_link (h : e.object? = some object) : e.root? = object.root? := by
  cases e <;> cases h <;> rfl

theorem root?_eq_some_iff : e.root? = some name ↔ ∃ s, e.split.1 = .ident name s := by
  induction e using chain_induction with
  | base e h =>
    rw [split_of_base h]
    cases e
    case member | index | method => cases h
    all_goals simp [root?]
  | link e object h ih => rw [split_of_link h, root?_of_link h, ih]

/-! ## What can be written -/

theorem WellFormed.of_mem_parts {side : Side} (h : e.WellFormed) (mem : (side, part) ∈ e.parts) :
    part.WellFormed := by
  cases h <;> simp only [parts, List.mem_cons, List.mem_map, List.not_mem_nil, or_false,
    Prod.mk.injEq] at mem
  case unary inner _ => exact mem.2 ▸ inner
  case arith l r | compare l r | logic l r => rcases mem with ⟨-, rfl⟩ | ⟨-, rfl⟩ <;> assumption
  case member object _ _ => exact mem.2 ▸ object
  case index object _ key => rcases mem with ⟨-, rfl⟩ | ⟨-, rfl⟩ <;> assumption
  case call _ args =>
    obtain ⟨a, mem, -, rfl⟩ := mem
    exact args a mem
  case method object _ _ args =>
    rcases mem with ⟨-, rfl⟩ | ⟨a, mem, -, rfl⟩
    · exact object
    · exact args a mem

theorem WellFormed.of_mem_nodes {d e : Expr} (h : e.WellFormed) (mem : d ∈ e.nodes) :
    d.WellFormed := by
  rcases mem_nodes_iff.mp mem with rfl | ⟨⟨side, part⟩, mem, inner⟩
  · exact h
  · have lt := sizeOf_part_lt mem
    exact (h.of_mem_parts mem).of_mem_nodes inner
termination_by sizeOf e

theorem exists_object_of_isPlace (place : Grammar.isPlace e) :
    ∃ object, e.object? = some object := by
  cases e <;> first | exact place.elim | exact ⟨_, rfl⟩

theorem WellFormed.of_object? (h : e.WellFormed) (link : e.object? = some object) :
    object.WellFormed ∧ object.isChain := by
  cases h <;> cases link <;> exact ⟨‹_›, ‹_›⟩

theorem WellFormed.isHead_base (h : e.WellFormed) (chain : e.isChain) : e.split.1.isHead := by
  induction e using chain_induction with
  | base e none =>
    rw [split_of_base none]
    cases e
    case member | index | method => cases none
    all_goals exact chain
  | link e object link ih =>
    obtain ⟨object, chain⟩ := h.of_object? link
    rw [split_of_link link]
    exact ih object chain

end Expr

end Rulebook
