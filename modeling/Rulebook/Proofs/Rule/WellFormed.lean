import Mathlib
import Rulebook.Proofs.Grammar.Derivation
import Rulebook.Proofs.Number.Digits
import Rulebook.Proofs.Number.Finite
import Rulebook.Proofs.Token.Forms

/-!
# What rule texts can say

Not every tree can be written. One that was read can: its names are words, its numbers have an
opposite, links stand only behind names, calls and links, and no sign stands before a number.
-/

namespace Rulebook

/-! ## Names and literals -/

def IsName (s : String) : Prop := Ink.IsWord s ∧ Token.wordKind s = .identifier

/-- A name that may stand behind a dot. -/
def IsMember (s : String) : Prop :=
  Ink.IsWord s ∧ (Token.wordKind s = .identifier ∨ ∃ k, Token.wordKind s = .keyword k)

theorem IsName.isMember {s : String} (h : IsName s) : IsMember s := ⟨h.1, .inl h.2⟩

def Literal.WellFormed : Literal → Prop
  | .int n => -0x8000000000000000 < n.toInt
  | .float x => x.isFinite = true
  | _ => True

/-! ## Trees -/

namespace Expr

/-- Links may stand behind it. -/
def isChain : Expr → Prop
  | .ident .. | .member .. | .index .. | .call .. | .method .. => True
  | _ => False

def isNumber : Expr → Prop
  | .literal (.int _) _ | .literal (.float _) _ => True
  | _ => False

inductive WellFormed : Expr → Prop
  | literal {v s} : v.WellFormed → WellFormed (.literal v s)
  | ident {name s} : IsName name → WellFormed (.ident name s)
  | unary {op e s} : WellFormed e → (op = .negate → ¬ e.isNumber) → WellFormed (.unary op e s)
  | arith {op l r s} : WellFormed l → WellFormed r → WellFormed (.arith op l r s)
  | compare {op l r s} : WellFormed l → WellFormed r → WellFormed (.compare op l r s)
  | logic {op l r s} : WellFormed l → WellFormed r → WellFormed (.logic op l r s)
  | member {o name s} : WellFormed o → o.isChain → IsMember name → WellFormed (.member o name s)
  | index {o k s} : WellFormed o → o.isChain → WellFormed k → WellFormed (.index o k s)
  | call {name args s} : IsName name → (∀ a ∈ args, WellFormed a) → WellFormed (.call name args s)
  | method {o name args s} : WellFormed o → o.isChain → IsMember name → (∀ a ∈ args, WellFormed a) →
      WellFormed (.method o name args s)

theorem WellFormed.withSpan {e : Expr} (h : e.WellFormed) (s : Span) :
    (e.withSpan s).WellFormed := by
  cases h with
  | literal v => exact .literal v
  | ident is => exact .ident is
  | unary inner sign => exact .unary inner sign
  | arith l r => exact .arith l r
  | compare l r => exact .compare l r
  | logic l r => exact .logic l r
  | member o chain is => exact .member o chain is
  | index o chain k => exact .index o chain k
  | call is args => exact .call is args
  | method o chain is args => exact .method o chain is args

theorem WellFormed.signed {e : Expr} (h : e.WellFormed) (op : UnaryOp) (s : Span) :
    (Grammar.signed op e s).WellFormed := by
  unfold Grammar.signed
  split
  · next n _ =>
    cases h with
    | literal least =>
      have least : -0x8000000000000000 < n.toInt := least
      have lt := n.toInt_lt
      split
      · next m opposite =>
        have eq := Number.toInt_of_toInt64? opposite
        refine .literal (show -0x8000000000000000 < m.toInt from ?_)
        rw [eq]
        omega
      · next none =>
        unfold Number.toInt64? at none
        rw [if_pos (by omega)] at none
        cases none
  · next x _ =>
    cases h with
    | literal finite => exact .literal ((Number.isFinite_neg x).trans finite)
  · next other other' =>
    refine .unary h fun negate number => ?_
    cases e with
    | literal v =>
      cases v with
      | int n => exact other n _ negate rfl
      | float x => exact other' x _ negate rfl
      | _ => exact number.elim
    | _ => exact number.elim

end Expr

namespace Statement

def WellFormed : Statement → Prop
  | .assign target value _ => target.WellFormed ∧ Grammar.isPlace target ∧ value.WellFormed
  | .call e _ => e.WellFormed ∧ Grammar.isCall e

end Statement

structure Rule.WellFormed (r : Rule) : Prop where
  name : IsName r.name
  salience : -0x8000000000000000 < r.salience.toInt
  condition : r.condition.WellFormed
  actions : ∀ a ∈ r.actions, a.WellFormed
  acts : r.actions ≠ []

/-! ## Tokens -/

theorem Piece.first?_eq_word {c : Char} {cs : List Char} {n : Nat}
    (h : first? c cs = some (.word, n)) : isWordStart c = true ∧ n = run isWordChar cs := by
  unfold first? at h
  split at h
  · cases h
  split at h
  · cases h
  unfold token? at h
  split at h
  · unfold number? at h
    simp only at h
    split at h
    · split at h
      · cases h
      · split at h <;> cases h
    · split at h <;> cases h
  split at h
  · rw [Option.map_eq_some_iff] at h
    obtain ⟨_, _, h⟩ := h
    cases h
  split at h
  · next start =>
    cases h
    exact ⟨start, rfl⟩
  split at h
  · cases h
  · rw [Option.map_eq_some_iff] at h
    obtain ⟨_, _, h⟩ := h
    cases h

theorem Lexeme.IsCut.isWord {l : Lexeme} (h : l.IsCut) (piece : l.piece = .word) :
    Ink.IsWord (String.ofList l.text) := by
  obtain ⟨c, cs, n, first, text⟩ := h
  rw [piece] at first
  obtain ⟨start, rfl⟩ := Piece.first?_eq_word first
  refine ⟨c, _, by rw [text, String.toList_ofList], start, fun c mem => ?_⟩
  unfold Piece.run at mem
  rw [← List.prefix_iff_eq_take.mp (List.takeWhile_prefix Piece.isWordChar)] at mem
  exact List.mem_takeWhile_imp mem

namespace Token

def WellFormed (t : Token) : Prop :=
  match t.kind with
  | .identifier => IsName t.text
  | .keyword _ => IsMember t.text
  | .literal v => v.WellFormed
  | _ => True

theorem IsRead.wellFormed {t : Token} (h : t.IsRead) : t.WellFormed := by
  obtain ⟨l, cut, kind, text⟩ := h
  unfold WellFormed
  rcases kindOf?_cases kind with ⟨_, n, read, is⟩ | ⟨_, x, _, finite, is⟩ | ⟨_, s, _, is⟩ |
    ⟨piece, is⟩ | ⟨o, _, is⟩ | ⟨m, _, is⟩
  · rw [is]
    have nonneg := Number.nonneg_of_readInt? read
    change -0x8000000000000000 < n.toInt
    omega
  · rw [is]
    exact finite
  · rw [is]
    exact trivial
  · have word := cut.isWord piece
    rw [← text] at word is
    rcases wordKind_cases t.text with ⟨v, eq, truth⟩ | ⟨k, eq⟩ | eq
    · rw [is, eq]
      rcases truth with rfl | rfl | rfl <;> exact trivial
    · rw [is, eq]
      exact ⟨word, .inr ⟨k, eq⟩⟩
    · rw [is, eq]
      exact ⟨word, eq⟩
  · rw [is]
    exact trivial
  · rw [is]
    exact trivial

theorem wellFormed_of_scan {text : List Char} {ts : List Token} (h : scan text = .ok ts) :
    ∀ t ∈ ts, t.WellFormed := by
  obtain ⟨before, last, rfl, reads, ends⟩ := scan_eq_ok h
  intro t mem
  rcases List.mem_append.mp mem with mem | mem
  · exact (reads t mem).wellFormed
  · rw [List.mem_singleton.mp mem]
    unfold WellFormed
    rw [ends]
    exact trivial

variable {t : Token}

theorem WellFormed.isName (h : t.WellFormed) (is : t.kind = .identifier) : IsName t.text := by
  unfold WellFormed at h
  rw [is] at h
  exact h

theorem WellFormed.literal {v : Literal} (h : t.WellFormed) (is : t.kind = .literal v) :
    v.WellFormed := by
  unfold WellFormed at h
  rw [is] at h
  exact h

theorem WellFormed.isMember {name : String} (h : t.WellFormed) (is : t.name? = some name) :
    IsMember name := by
  unfold name? at is
  unfold WellFormed at h
  split at is
  · next kind =>
    rw [kind] at h
    cases is
    exact IsName.isMember h
  · next kind =>
    rw [kind] at h
    cases is
    exact h
  · cases is

end Token

/-! ## Derivations -/

namespace Grammar

variable {ts us rest : List Token}

theorem Takes.all {P : Token → Prop} (h : Takes ts rest) (all : ∀ t ∈ ts, P t) :
    ∀ t ∈ rest, P t := by
  obtain ⟨used, rfl, -⟩ := h
  exact fun t mem => all t (List.mem_append_right used mem)

theorem Binary.wellFormed_build {b : Binary} {t : Token} {build : Build}
    (h : b.op? t = some build) {l r : Expr} (left : l.WellFormed) (right : r.WellFormed) :
    (build l r).WellFormed := by
  obtain ⟨op, rfl⟩ | ⟨op, rfl⟩ := Binary.build_cases h
  · exact .logic left right
  · exact .arith left right

/-- What holds of the tree of a part of this level. -/
def Level.WellFormed (e : Expr) : Level → Prop
  | .binary _ | .compare | .unary | .primary => e.WellFormed
  | .more _ left => left.WellFormed → e.WellFormed
  | .chain => e.WellFormed ∧ e.isChain
  | .links object => object.WellFormed → object.isChain → e.WellFormed ∧ e.isChain
  | .arguments build => ∃ args close, e = build args close ∧ ∀ a ∈ args, a.WellFormed
  | .items build found => (∀ a ∈ found, a.WellFormed) →
    ∃ args close, e = build args close ∧ ∀ a ∈ args, a.WellFormed

theorem Level.wellFormed_of_operand {b : Binary} {e : Expr} (h : Level.WellFormed e b.operand) :
    e.WellFormed := by
  cases b <;> exact h

theorem Derives.wellFormed {l : Level} {e : Expr} (h : Derives l ts e rest)
    (tokens : ∀ t ∈ ts, t.WellFormed) : l.WellFormed e := by
  induction h with
  | binary first _ ih ih' =>
    exact ih' (first.takes.1.all tokens) (Level.wellFormed_of_operand (ih tokens))
  | done => exact id
  | further op first _ ih ih' =>
    intro left
    have tokens := List.forall_mem_cons.mp tokens
    have right := Level.wellFormed_of_operand (ih tokens.2)
    exact ih' (first.takes.1.all tokens.2) (Binary.wellFormed_build op left right)
  | single _ ih | plain _ ih => exact ih tokens
  | name _ ih => exact (ih tokens).1
  | compared first _ _ ih ih' =>
    have others := List.forall_mem_cons.mp (first.takes.1.all tokens)
    exact .compare (ih tokens) (ih' others.2)
  | sign _ _ ih => exact (ih (List.forall_mem_cons.mp tokens).2).signed _ _
  | literal is => exact .literal ((List.forall_mem_cons.mp tokens).1.literal is)
  | paren _ _ _ ih => exact (ih (List.forall_mem_cons.mp tokens).2).withSpan _
  | ident is _ ih =>
    have tokens := List.forall_mem_cons.mp tokens
    exact ih tokens.2 (.ident (tokens.1.isName is)) trivial
  | call is called _ ih ih' =>
    have tokens := List.forall_mem_cons.mp tokens
    obtain ⟨args, close, rfl, all⟩ := ih tokens.2
    exact ih' (called.takes.1.all tokens.2) (.call (tokens.1.isName is) all) trivial
  | stop => exact fun object chain => ⟨object, chain⟩
  | member _ named _ ih =>
    intro object chain
    have tokens := List.forall_mem_cons.mp (List.forall_mem_cons.mp tokens).2
    exact ih tokens.2 (.member object chain (tokens.1.isMember named)) trivial
  | method _ named called _ ih ih' =>
    intro object chain
    have tokens := List.forall_mem_cons.mp (List.forall_mem_cons.mp tokens).2
    obtain ⟨args, close, rfl, all⟩ := ih tokens.2
    exact ih' (called.takes.1.all tokens.2)
      (.method object chain (tokens.1.isMember named) all) trivial
  | index _ key _ _ ih ih' =>
    intro object chain
    have tokens := List.forall_mem_cons.mp tokens
    have others := List.forall_mem_cons.mp (key.takes.1.all tokens.2)
    exact ih' others.2 (.index object chain (ih tokens.2)) trivial
  | noArguments => exact ⟨[], _, rfl, by simp⟩
  | someArguments _ _ ih => exact ih (List.forall_mem_cons.mp tokens).2 (by simp)
  | @lastItem build found _ item cl _ _ _ ih =>
    intro all
    refine ⟨found ++ [item], cl.span, rfl, fun a mem => ?_⟩
    rcases List.mem_append.mp mem with mem | mem
    · exact all a mem
    · rw [List.mem_singleton.mp mem]
      exact ih tokens
  | @nextItem build found _ item _ _ _ _ inner _ _ ih ih' =>
    intro all
    have others := List.forall_mem_cons.mp (inner.takes.1.all tokens)
    refine ih' others.2 fun a mem => ?_
    rcases List.mem_append.mp mem with mem | mem
    · exact all a mem
    · rw [List.mem_singleton.mp mem]
      exact ih tokens

theorem DerivesStatement.wellFormed {s : Statement} (h : DerivesStatement ts s rest)
    (tokens : ∀ t ∈ ts, t.WellFormed) : s.WellFormed := by
  cases h with
  | assign target place _ value =>
    have others := List.forall_mem_cons.mp (target.takes.1.all tokens)
    exact ⟨(target.wellFormed tokens).1, place, value.wellFormed others.2⟩
  | call e called => exact ⟨(e.wellFormed tokens).1, called⟩

theorem Many.forall_mem {α : Type} {R : List Token → α → List Token → Prop} {P : α → Prop}
    {as : List α} (h : Many R ts as rest) (tokens : ∀ t ∈ ts, t.WellFormed)
    (takes : ∀ {ts a rest}, R ts a rest → TakesSome ts rest)
    (one : ∀ {ts a rest}, R ts a rest → (∀ t ∈ ts, t.WellFormed) → P a) : ∀ a ∈ as, P a := by
  induction h with
  | nil => simp
  | cons first _ ih =>
    refine List.forall_mem_cons.mpr ⟨one first tokens, ih ?_⟩
    exact (takes first).takes.all tokens

theorem DerivesSalience.least {n : Int64} (h : DerivesSalience ts n rest)
    (tokens : ∀ t ∈ ts, t.WellFormed) : -0x8000000000000000 < n.toInt := by
  cases h with
  | none => decide
  | plain _ int =>
    have others := (List.forall_mem_cons.mp tokens).2
    exact (List.forall_mem_cons.mp others).1.literal int
  | @negative _ _ _ n _ _ _ int =>
    have others := (List.forall_mem_cons.mp (List.forall_mem_cons.mp tokens).2).2
    have least : -0x8000000000000000 < n.toInt := (List.forall_mem_cons.mp others).1.literal int
    have lt := n.toInt_lt
    rw [← Int64.ofInt_toInt n, ← Int64.ofInt_neg, Int64.toInt_ofInt_of_le (by omega) (by omega)]
    omega

theorem DerivesRule.wellFormed {r : Rule} (h : DerivesRule ts r rest)
    (tokens : ∀ t ∈ ts, t.WellFormed) : r.WellFormed := by
  cases h with
  | mk _ named described ranked _ _ condition _ actions some =>
    have tokens := List.forall_mem_cons.mp (List.forall_mem_cons.mp tokens).2
    have header := described.takes.all tokens.2
    have opened := List.forall_mem_cons.mp (ranked.takes.all header)
    have body := (List.forall_mem_cons.mp opened.2).2
    have acts := (List.forall_mem_cons.mp (condition.takes.1.all body)).2
    exact ⟨tokens.1.isName named, ranked.least header, condition.wellFormed body,
      actions.forall_mem acts DerivesStatement.takesSome DerivesStatement.wellFormed, some⟩

theorem DerivesRules.wellFormed {rules : List Rule} (h : DerivesRules ts rules)
    (tokens : ∀ t ∈ ts, t.WellFormed) : ∀ r ∈ rules, r.WellFormed := by
  obtain ⟨last, -, derived⟩ := h
  exact derived.forall_mem tokens DerivesRule.takesSome DerivesRule.wellFormed

end Grammar

end Rulebook
