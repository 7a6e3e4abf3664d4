import Mathlib
import Rulebook.Proofs.Rule.Bare

/-!
# Displayed rules are read as what they show

The tokens of a displayed tree derive that tree, apart from its spans.
-/

namespace Rulebook

open Ink Grammar

/-! ## What pieces derive -/

/-- Each piece has a meaning, and tokens that the pieces are read as derive `a`, or what differs
from it only in what `bare` leaves out. -/
structure Ink.Spells {α : Type} (R : List Token → α → List Token → Prop) (bare : α → α)
    (ks : List Ink) (a : α) : Prop where
  means : AllMean ks
  derives : ∀ {ts}, Reads ks ts → ∀ rest, ∃ a', bare a' = bare a ∧ R (ts ++ rest) a' rest

namespace Ink.Spells

variable {ks : List Ink} {e : Expr}

theorem mono {α : Type} {R S : List Token → α → List Token → Prop} {bare : α → α} {a : α}
    (h : Spells R bare ks a) (le : ∀ {ts a rest}, R ts a rest → S ts a rest) :
    Spells S bare ks a := by
  refine ⟨h.means, fun reads rest => ?_⟩
  obtain ⟨a', same, derived⟩ := h.derives reads rest
  exact ⟨a', same, le derived⟩

theorem expr (h : Spells (Derives .unary) Expr.bare ks e) : Spells (Derives .expr) Expr.bare ks e :=
  h.mono Derives.expr_of_unary

theorem unary (h : Spells (Derives .chain) Expr.bare ks e) :
    Spells (Derives .unary) Expr.bare ks e :=
  h.mono fun derived => .plain (.name derived)

/-- One token. -/
theorem single {α : Type} {R : List Token → α → List Token → Prop} {bare : α → α} {a : α} {k : Ink}
    {kind : Token.Kind} (is : k.Means (some kind))
    (derives : ∀ {t : Token}, t.kind = kind → t.text = String.ofList k.text →
      ∀ rest, ∃ a', bare a' = bare a ∧ R (t :: rest) a' rest) : Spells R bare [k] a := by
  refine ⟨allMean_cons.mpr ⟨⟨_, is⟩, allMean_nil⟩, fun reads rest => ?_⟩
  obtain ⟨t, rfl, kind, text⟩ := reads.single_inv is
  exact derives kind text rest

end Ink.Spells

/-! ## Literals -/

/-- What is displayed of it is its own form. -/
def Literal.ReadsBack : Literal → Prop
  | .float x => Number.readFloat? (Number.floatLiteral x) = some x
  | .text s => Text.Quoted.PlainText s
  | _ => True

/-- A literal is displayed as one piece, or as the opposite of one. -/
theorem Literal.WellFormed.inks_cases {v : Literal} (h : v.WellFormed) (back : v.ReadsBack) :
    ∃ k w, k.Means (some (.literal w)) ∧ (v.inks = [k] ∧ w = v ∨ v.inks = [op .minus, k] ∧
      ∀ s s', Grammar.signed .negate (.literal w s) s' = .literal v s') := by
  cases v with
  | int i =>
    obtain ⟨ds, n, -, -, read, ⟨eq, same⟩ | ⟨eq, -, opposite⟩⟩ := signed_integer_cases h
    · exact ⟨integer ds, .int n, means_integer read, .inl ⟨eq, congrArg Literal.int same.symm⟩⟩
    · refine ⟨integer ds, .int n, means_integer read, .inr ⟨eq, fun s s' => ?_⟩⟩
      unfold Grammar.signed
      simp only [opposite]
  | float x =>
    obtain ⟨body, y, pointed, read, finite, ⟨text, same⟩ | ⟨text, opposite⟩⟩ :=
      Number.readDecimal?_floatLiteral h back
    · refine ⟨Ink.float body, .float y, means_float read finite,
        .inl ⟨?_, congrArg Literal.float same⟩⟩
      rw [inks, text, signed_pointed pointed]
    · refine ⟨Ink.float body, .float y, means_float read finite, .inr ⟨?_, fun s s' => ?_⟩⟩
      · rw [inks, text]
        rfl
      · unfold Grammar.signed
        simp only [opposite]
  | text s => exact ⟨quoted s, .text s, means_quoted back, .inl ⟨rfl, rfl⟩⟩
  | bool b => exact ⟨word (boolText b), .bool b, means_word (by cases b <;> rfl), .inl ⟨rfl, rfl⟩⟩
  | nil => exact ⟨word "nil", .nil, means_word rfl, .inl ⟨rfl, rfl⟩⟩

theorem Literal.WellFormed.spells {v : Literal} (h : v.WellFormed) (back : v.ReadsBack) (s : Span) :
    Spells (Derives .unary) Expr.bare v.inks (.literal v s) := by
  obtain ⟨k, w, is, ⟨eq, rfl⟩ | ⟨eq, opposite⟩⟩ := h.inks_cases back
  · rw [eq]
    refine .single is fun {t} kind _ rest => ?_
    exact ⟨.literal w t.span, rfl, .plain (.literal kind)⟩
  · rw [eq]
    refine ⟨by simpa using ⟨⟨_, means_op _⟩, _, is⟩, fun reads rest => ?_⟩
    obtain ⟨t, ts, rfl, minus, -, reads⟩ := reads.token_inv (means_op _)
    obtain ⟨t', rfl, kind, -⟩ := reads.single_inv is
    have sign : unaryOp? t = some .negate := by
      unfold unaryOp?
      rw [minus]
    refine ⟨_, ?_, .sign sign (.plain (.literal kind))⟩
    rw [opposite]
    rfl

/-! ## Operations -/

theorem Ink.spells_parenthesized {ls rs : List Ink} {l r : Expr} {o : Operator}
    {node : Expr → Expr → Span → Expr}
    (left : Spells (Derives .unary) Expr.bare ls l) (right : Spells (Derives .unary) Expr.bare rs r)
    (operation : ∀ {t ts us rest l' r'}, t.kind = .operator o → Derives .unary ts l' (t :: us) →
      Derives .unary us r' rest → ∃ s, Derives .expr ts (node l' r' s) rest)
    (bare : ∀ l' r' s, (node l' r' s).bare = node l'.bare r'.bare {}) (s : Span) :
    Spells (Derives .unary) Expr.bare (parenthesized ls o rs) (node l r s) := by
  constructor
  · unfold parenthesized
    simp only [allMean_cons, allMean_append, allMean_nil, left.means, right.means, true_and,
      and_true]
    exact ⟨⟨_, means_mark _⟩, ⟨_, means_blank _⟩, ⟨_, means_op _⟩, ⟨_, means_blank _⟩,
      ⟨_, means_mark _⟩⟩
  · intro ts reads rest
    obtain ⟨opening, _, rfl, opens, -, inside⟩ := reads.token_inv (means_mark _)
    obtain ⟨us, _, rfl, first, behind⟩ := inside.append_inv
    obtain ⟨t, _, rfl, is, -, behind⟩ :=
      (behind.skip_inv (means_blank _)).token_inv (means_op _)
    obtain ⟨vs, _, rfl, second, behind⟩ := (behind.skip_inv (means_blank _)).append_inv
    obtain ⟨closing, rfl, closes, -⟩ := behind.single_inv (means_mark _)
    obtain ⟨l', same, derived⟩ := left.derives first (t :: (vs ++ closing :: rest))
    obtain ⟨r', same', derived'⟩ := right.derives second (closing :: rest)
    obtain ⟨s', inner⟩ := operation is derived derived'
    refine ⟨(node l' r' s').withSpan (opening.span.cover closing.span), ?_, ?_⟩
    · rw [Expr.bare_withSpan, bare, bare, same, same']
    · simpa using Derives.plain (.paren opens inner closes)

theorem ArithOp.op?_operator (o : ArithOp) :
    ∃ b : Binary, ∀ t : Token, t.kind = .operator o.operator →
      b.op? t = some (covering (Expr.arith o)) := by
  cases o with
  | add | subtract =>
    refine ⟨.sum, fun t is => ?_⟩
    unfold Binary.op? addOp?
    simp only [is, operator]
  | multiply | divide | modulo =>
    refine ⟨.product, fun t is => ?_⟩
    unfold Binary.op? multiplyOp?
    simp only [is, operator]

theorem LogicOp.op?_operator (o : LogicOp) :
    ∃ b : Binary, ∀ t : Token, t.kind = .operator o.operator →
      b.op? t = some (covering (Expr.logic o)) := by
  cases o with
  | and =>
    refine ⟨.and, fun t is => ?_⟩
    simp [Binary.op?, andOp?, Token.isOperator, is, operator]
  | or =>
    refine ⟨.or, fun t is => ?_⟩
    simp [Binary.op?, orOp?, Token.isOperator, is, operator]

theorem CompareOp.compareOp?_operator {o : CompareOp} {t : Token}
    (is : t.kind = .operator o.operator) : compareOp? t = some o := by
  unfold compareOp?
  rw [is]
  cases o <;> rfl

theorem UnaryOp.unaryOp?_operator {o : UnaryOp} {t : Token} (is : t.kind = .operator o.operator) :
    unaryOp? t = some o := by
  unfold unaryOp?
  rw [is]
  cases o <;> rfl

theorem Expr.signed_of_not_isNumber {op : UnaryOp} {e : Expr} (h : op = .negate → ¬ e.isNumber)
    (s : Span) : Grammar.signed op e s = .unary op e s := by
  unfold Grammar.signed
  split
  · exact absurd trivial (h rfl)
  · exact absurd trivial (h rfl)
  · rfl

/-! ## Arguments -/

namespace Ink

variable {args : List Expr}

theorem allMean_listed {all : List (List Ink)} (means : ∀ ks ∈ all, AllMean ks) :
    AllMean (listed all) := by
  fun_induction listed all with
  | case1 => exact allMean_nil
  | case2 ks => exact means ks List.mem_cons_self
  | case3 ks ls more ih =>
    obtain ⟨first, others⟩ := List.forall_mem_cons.mp means
    refine allMean_append.mpr ⟨first, allMean_cons.mpr ⟨⟨_, means_mark _⟩, ?_⟩⟩
    exact allMean_cons.mpr ⟨⟨_, means_blank _⟩, ih others⟩

theorem derives_listed (build : List Expr → Span → Expr)
    (all : ∀ a ∈ args, Spells (Derives .expr) Expr.bare a.inks a) (some : args ≠ [])
    (found : List Expr) {ts : List Token}
    (reads : Reads (listed (Expr.inksOfAll args) ++ [mark .closeParen]) ts) (rest : List Token) :
    ∃ args' close, args'.map Expr.bare = args.map Expr.bare ∧
      Derives (.items build found) (ts ++ rest) (build (found ++ args') close) rest := by
  induction args generalizing found ts with
  | nil => exact absurd rfl some
  | cons a more ih =>
    obtain ⟨first, others⟩ := List.forall_mem_cons.mp all
    cases more with
    | nil =>
      obtain ⟨us, _, rfl, front, behind⟩ := reads.append_inv
      obtain ⟨closing, rfl, closes, -⟩ := behind.single_inv (means_mark _)
      obtain ⟨a', same, derived⟩ := first.derives front (closing :: rest)
      refine ⟨[a'], closing.span, congrArg (· :: []) same, ?_⟩
      have item : Derives (.items build found) (us ++ closing :: rest)
          (build (found ++ [a']) closing.span) rest := .lastItem derived closes
      simpa using item
    | cons b more =>
      have split : listed (Expr.inksOfAll (a :: b :: more)) ++ [mark .closeParen] =
          a.inks ++ mark .comma :: space ::
            (listed (Expr.inksOfAll (b :: more)) ++ [mark .closeParen]) := by
        simp [Expr.inksOfAll, listed]
      rw [split] at reads
      obtain ⟨us, _, rfl, front, behind⟩ := reads.append_inv
      obtain ⟨comma, vs, rfl, separates, -, behind⟩ := behind.token_inv (means_mark _)
      obtain ⟨a', same, derived⟩ := first.derives front (comma :: (vs ++ rest))
      obtain ⟨args', close, sames, items⟩ :=
        ih others (List.cons_ne_nil b more) (found ++ [a']) (behind.skip_inv (means_blank _))
      refine ⟨a' :: args', close, congrArg₂ List.cons same sames, ?_⟩
      rw [List.append_assoc] at items ⊢
      exact .nextItem derived separates items

theorem spells_applied (build : List Expr → Span → Expr)
    (all : ∀ a ∈ args, Spells (Derives .expr) Expr.bare a.inks a) :
    Spells (fun ts args' rest => ∃ close, Derives (.arguments build) ts (build args' close) rest)
      (List.map Expr.bare) (applied (Expr.inksOfAll args)) args := by
  constructor
  · have means : ∀ ks ∈ Expr.inksOfAll args, AllMean ks := by
      rw [Expr.inksOfAll_eq]
      exact List.forall_mem_map.mpr fun a mem => (all a mem).means
    refine allMean_cons.mpr ⟨⟨_, means_mark _⟩, allMean_append.mpr ⟨allMean_listed means, ?_⟩⟩
    exact allMean_cons.mpr ⟨⟨_, means_mark _⟩, allMean_nil⟩
  · intro ts reads rest
    obtain ⟨opening, us, rfl, opens, -, reads⟩ := reads.token_inv (means_mark _)
    cases args with
    | nil =>
      obtain ⟨closing, rfl, closes, -⟩ := reads.single_inv (means_mark _)
      exact ⟨[], rfl, closing.span, .noArguments opens closes⟩
    | cons a more =>
      obtain ⟨args', close, sames, items⟩ :=
        derives_listed build all (List.cons_ne_nil a more) [] reads rest
      exact ⟨args', sames, close, .someArguments opens items⟩

end Ink

/-! ## Chains -/

theorem IsMember.means {name : String} (h : IsMember name) :
    ∃ kind, (word name).Means (some kind) ∧ ∀ t : Token, t.kind = kind →
      t.text = String.ofList (word name).text → t.name? = some name := by
  obtain ⟨-, is | ⟨k, is⟩⟩ := h
  · refine ⟨_, means_word is, fun t kind text => ?_⟩
    unfold Token.name?
    simp only [kind, text, word, String.ofList_toList]
  · refine ⟨_, means_word is, fun t kind text => ?_⟩
    unfold Token.name?
    simp only [kind, text, word, String.ofList_toList]

namespace Ink

variable {ks ls : List Ink} {o k : Expr} {name : String} {args : List Expr}

theorem spells_ident (is : IsName name) (s : Span) :
    Spells (Derives .chain) Expr.bare [word name] (.ident name s) := by
  refine .single (means_word is.2) fun {t} kind text rest => ?_
  rw [word, String.ofList_toList] at text
  refine ⟨.ident t.text t.span, ?_, .ident kind .stop⟩
  rw [text, Expr.bare, Expr.bare]

theorem Spells.member (object : Spells (Derives .chain) Expr.bare ks o) (is : IsMember name)
    (s : Span) :
    Spells (Derives .chain) Expr.bare (ks ++ [mark .dot, word name]) (.member o name s) := by
  obtain ⟨kind, means, named⟩ := is.means
  constructor
  · simpa [object.means] using ⟨⟨_, means_mark _⟩, _, means⟩
  · intro ts reads rest
    obtain ⟨us, _, rfl, front, behind⟩ := reads.append_inv
    obtain ⟨dot, _, rfl, dots, -, last⟩ := behind.token_inv (means_mark _)
    obtain ⟨t, rfl, kind, text⟩ := last.single_inv means
    obtain ⟨o', same, derived⟩ := object.derives front (dot :: t :: rest)
    refine ⟨.member o' name (o'.span.cover t.span), ?_, ?_⟩
    · rw [Expr.bare, Expr.bare, same]
    · simpa using derived.chain_append (.member dots (named t kind text) .stop)

theorem Spells.index (object : Spells (Derives .chain) Expr.bare ks o)
    (key : Spells (Derives .expr) Expr.bare ls k) (s : Span) :
    Spells (Derives .chain) Expr.bare (ks ++ mark .openBracket :: (ls ++ [mark .closeBracket]))
      (.index o k s) := by
  constructor
  · simpa [object.means, key.means] using ⟨⟨_, means_mark _⟩, _, means_mark _⟩
  · intro ts reads rest
    obtain ⟨us, _, rfl, front, behind⟩ := reads.append_inv
    obtain ⟨opening, _, rfl, opens, -, inside⟩ := behind.token_inv (means_mark _)
    obtain ⟨vs, _, rfl, middle, last⟩ := inside.append_inv
    obtain ⟨closing, rfl, closes, -⟩ := last.single_inv (means_mark _)
    obtain ⟨o', same, derived⟩ := object.derives front (opening :: (vs ++ closing :: rest))
    obtain ⟨k', same', derived'⟩ := key.derives middle (closing :: rest)
    refine ⟨.index o' k' (o'.span.cover closing.span), ?_, ?_⟩
    · rw [Expr.bare, Expr.bare, same, same']
    · simpa using derived.chain_append (.index opens derived' closes .stop)

theorem spells_call (is : IsName name)
    (all : ∀ a ∈ args, Spells (Derives .expr) Expr.bare a.inks a) (s : Span) :
    Spells (Derives .chain) Expr.bare (word name :: applied (Expr.inksOfAll args))
      (.call name args s) := by
  constructor
  · exact allMean_cons.mpr ⟨⟨_, means_word is.2⟩, (spells_applied (Expr.call name) all).means⟩
  · intro ts reads rest
    obtain ⟨head, us, rfl, kind, text, behind⟩ := reads.token_inv (means_word is.2)
    rw [word, String.ofList_toList] at text
    obtain ⟨args', sames, close, derived⟩ :=
      (spells_applied (fun args close => .call head.text args (head.span.cover close)) all).derives
        behind rest
    refine ⟨.call head.text args' (head.span.cover close), ?_, .call kind derived .stop⟩
    rw [Expr.bare, Expr.bare, Expr.bareAll_eq, Expr.bareAll_eq, sames, text]

theorem Spells.method (object : Spells (Derives .chain) Expr.bare ks o) (is : IsMember name)
    (all : ∀ a ∈ args, Spells (Derives .expr) Expr.bare a.inks a) (s : Span) :
    Spells (Derives .chain) Expr.bare
      (ks ++ mark .dot :: word name :: applied (Expr.inksOfAll args)) (.method o name args s) := by
  obtain ⟨kind, means, named⟩ := is.means
  constructor
  · refine allMean_append.mpr ⟨object.means, allMean_cons.mpr ⟨⟨_, means_mark _⟩, ?_⟩⟩
    exact allMean_cons.mpr ⟨⟨_, means⟩, (spells_applied (Expr.method o name) all).means⟩
  · intro ts reads rest
    obtain ⟨us, _, rfl, front, behind⟩ := reads.append_inv
    obtain ⟨dot, _, rfl, dots, -, behind⟩ := behind.token_inv (means_mark _)
    obtain ⟨t, vs, rfl, kind, text, last⟩ := behind.token_inv means
    obtain ⟨o', same, derived⟩ := object.derives front (dot :: t :: (vs ++ rest))
    obtain ⟨args', sames, close, called⟩ :=
      (spells_applied (fun args close => .method o' name args (o'.span.cover close)) all).derives
        last rest
    refine ⟨.method o' name args' (o'.span.cover close), ?_, ?_⟩
    · rw [Expr.bare, Expr.bare, Expr.bareAll_eq, Expr.bareAll_eq, same, sames]
    · simpa using derived.chain_append (.method dots (named t kind text) called .stop)

end Ink

/-! ## Expressions -/

namespace Expr

theorem spells_unary {ks : List Ink} {e : Expr} {o : UnaryOp}
    (operand : Spells (Derives .unary) bare ks e) (sign : o = .negate → ¬ e.isNumber) (s : Span) :
    Spells (Derives .unary) bare (op o.operator :: ks) (unary o e s) := by
  refine ⟨allMean_cons.mpr ⟨⟨_, means_op _⟩, operand.means⟩, fun reads rest => ?_⟩
  obtain ⟨t, us, rfl, is, -, behind⟩ := reads.token_inv (means_op _)
  obtain ⟨e', same, derived⟩ := operand.derives behind rest
  have sign' : o = .negate → ¬ e'.isNumber := by
    rw [← isNumber_bare, same, isNumber_bare]
    exact sign
  refine ⟨_, ?_, .sign (UnaryOp.unaryOp?_operator is) derived⟩
  rw [signed_of_not_isNumber sign', bare, bare, same]

theorem WellFormed.spells {e : Expr} (h : e.WellFormed) (back : ∀ v ∈ e.literals, v.ReadsBack) :
    Spells (Derives .unary) bare e.inks e ∧
      (e.isChain → Spells (Derives .chain) bare e.inks e) := by
  have both {e : Expr} (chain : Spells (Derives .chain) bare e.inks e) :
      Spells (Derives .unary) bare e.inks e ∧
        (e.isChain → Spells (Derives .chain) bare e.inks e) :=
    ⟨chain.unary, fun _ => chain⟩
  induction h with
  | literal is => exact ⟨is.spells (back _ (by simp)) _, False.elim⟩
  | ident is => exact both (spells_ident is _)
  | unary _ sign ih => exact ⟨spells_unary (ih back).1 sign _, False.elim⟩
  | @arith o _ _ _ _ _ ih ih' =>
    rw [literals_arith, List.forall_mem_append] at back
    refine ⟨spells_parenthesized (ih back.1).1 (ih' back.2).1 ?_ (fun _ _ _ => rfl) _, False.elim⟩
    intro t ts us rest l r is left right
    obtain ⟨b, op⟩ := o.op?_operator
    exact ⟨_, left.operation (op t is) right⟩
  | @compare o _ _ _ _ _ ih ih' =>
    rw [literals_compare, List.forall_mem_append] at back
    refine ⟨spells_parenthesized (ih back.1).1 (ih' back.2).1 ?_ (fun _ _ _ => rfl) _, False.elim⟩
    intro t ts us rest l r is left right
    exact ⟨_, left.comparison (CompareOp.compareOp?_operator is) right⟩
  | @logic o _ _ _ _ _ ih ih' =>
    rw [literals_logic, List.forall_mem_append] at back
    refine ⟨spells_parenthesized (ih back.1).1 (ih' back.2).1 ?_ (fun _ _ _ => rfl) _, False.elim⟩
    intro t ts us rest l r is left right
    obtain ⟨b, op⟩ := o.op?_operator
    exact ⟨_, left.operation (op t is) right⟩
  | member _ chain is ih => exact both (((ih back).2 chain).member is _)
  | index _ chain _ ih ih' =>
    rw [literals_index, List.forall_mem_append] at back
    exact both (((ih back.1).2 chain).index (ih' back.2).1.expr _)
  | call is _ ih =>
    rw [literals_call] at back
    have all (a) (mem) := (ih a mem fun v inside => back v (List.mem_flatMap_of_mem mem inside)).1
    exact both (spells_call is (fun a mem => (all a mem).expr) _)
  | method _ chain is _ ih ih' =>
    rw [literals_method, List.forall_mem_append] at back
    have all (a) (mem) := (ih' a mem fun v inside =>
      back.2 v (List.mem_flatMap_of_mem mem inside)).1
    exact both (((ih back.1).2 chain).method is (fun a mem => (all a mem).expr) _)

end Expr

/-! ## Statements -/

theorem Expr.isChain_of_isPlace {e : Expr} (h : isPlace e) : e.isChain := by
  cases e <;> first | exact trivial | exact h.elim

theorem Expr.isChain_of_isCall {e : Expr} (h : isCall e) : e.isChain := by
  cases e <;> first | exact trivial | exact h.elim

namespace Statement

theorem WellFormed.spells {s : Statement} (h : s.WellFormed)
    (back : ∀ v ∈ s.literals, v.ReadsBack) : Spells DerivesStatement bare s.inks s := by
  cases s with
  | assign target value s =>
    obtain ⟨wellFormed, place, wellFormed'⟩ := h
    simp only [literals, exprs, List.flatMap_cons, List.flatMap_nil, List.append_nil,
      List.forall_mem_append] at back
    have left := (wellFormed.spells back.1).2 (Expr.isChain_of_isPlace place)
    have right := (wellFormed'.spells back.2).1.expr
    constructor
    · refine allMean_append.mpr ⟨left.means, ?_⟩
      simp only [allMean_cons, allMean_append, allMean_nil, right.means, true_and, and_true]
      exact ⟨⟨_, means_blank _⟩, ⟨_, means_op _⟩, ⟨_, means_blank _⟩, ⟨_, means_mark _⟩⟩
    · intro ts reads rest
      obtain ⟨us, _, rfl, front, behind⟩ := reads.append_inv
      obtain ⟨eq, _, rfl, assigns, -, behind⟩ :=
        (behind.skip_inv (means_blank _)).token_inv (means_op _)
      obtain ⟨vs, _, rfl, middle, last⟩ := (behind.skip_inv (means_blank _)).append_inv
      obtain ⟨semi, rfl, ends, -⟩ := last.single_inv (means_mark _)
      obtain ⟨target', same, derived⟩ := left.derives front (eq :: (vs ++ semi :: rest))
      obtain ⟨value', same', derived'⟩ := right.derives middle (semi :: rest)
      have place' : isPlace target' := by
        rw [← Expr.isPlace_bare, same, Expr.isPlace_bare]
        exact place
      refine ⟨.assign target' value' (target'.span.cover semi.span), ?_, ?_⟩
      · rw [bare, bare, same, same']
      · simpa using DerivesStatement.assign derived place' assigns derived' ends
  | call e s =>
    obtain ⟨wellFormed, call⟩ := h
    simp only [literals, exprs, List.flatMap_cons, List.flatMap_nil, List.append_nil] at back
    have chain := (wellFormed.spells back).2 (Expr.isChain_of_isCall call)
    constructor
    · exact allMean_append.mpr ⟨chain.means, allMean_cons.mpr ⟨⟨_, means_mark _⟩, allMean_nil⟩⟩
    · intro ts reads rest
      obtain ⟨us, _, rfl, front, last⟩ := reads.append_inv
      obtain ⟨semi, rfl, ends, -⟩ := last.single_inv (means_mark _)
      obtain ⟨e', same, derived⟩ := chain.derives front (semi :: rest)
      have call' : isCall e' := by
        rw [← Expr.isCall_bare, same, Expr.isCall_bare]
        exact call
      refine ⟨.call e' (e'.span.cover semi.span), ?_, ?_⟩
      · rw [bare, bare, same]
      · simpa using DerivesStatement.call derived call' ends

theorem spells_inksOfAll {ss : List Statement}
    (all : ∀ s ∈ ss, Spells DerivesStatement bare s.inks s) :
    Spells (Many DerivesStatement) (List.map bare) (inksOfAll ss) ss := by
  induction ss with
  | nil =>
    refine ⟨allMean_nil, fun reads rest => ⟨[], rfl, ?_⟩⟩
    rw [reads.nil_inv]
    exact .nil
  | cons s ss ih =>
    obtain ⟨first, others⟩ := List.forall_mem_cons.mp all
    constructor
    · have means := allMean_append.mpr ⟨first.means, (ih others).means⟩
      exact allMean_cons.mpr ⟨⟨_, means_blank _⟩, means⟩
    · intro ts reads rest
      obtain ⟨us, vs, rfl, front, behind⟩ := (reads.skip_inv (means_blank _)).append_inv
      obtain ⟨s', same, derived⟩ := first.derives front (vs ++ rest)
      obtain ⟨ss', sames, derived'⟩ := (ih others).derives behind rest
      refine ⟨s' :: ss', congrArg₂ List.cons same sames, ?_⟩
      rw [List.append_assoc]
      exact .cons derived derived'

end Statement

/-! ## Rules -/

namespace Rule

theorem spells_description {d : Option String}
    (plain : ∀ s ∈ d, Text.Quoted.PlainText s) :
    Spells DerivesDescription id (descriptionInks d) d := by
  cases d with
  | none =>
    refine ⟨allMean_nil, fun reads rest => ⟨none, rfl, ?_⟩⟩
    rw [reads.nil_inv]
    exact .none
  | some s =>
    have means := means_quoted (plain s rfl)
    refine ⟨allMean_cons.mpr ⟨⟨_, means_blank _⟩, by simpa using ⟨_, means⟩⟩, fun reads rest => ?_⟩
    obtain ⟨t, rfl, kind, -⟩ := (reads.skip_inv (means_blank _)).single_inv means
    exact ⟨some s, rfl, .some kind⟩

theorem spells_salience {n : Int64} (least : -0x8000000000000000 < n.toInt) :
    Spells DerivesSalience id
      (word "salience" :: space :: signed integer (toString n.toInt).toList) n := by
  have means : (word "salience").Means (some (.keyword .salience)) := means_word rfl
  obtain ⟨ds, m, -, -, read, ⟨eq, same⟩ | ⟨eq, same, -⟩⟩ := signed_integer_cases least
  · rw [eq]
    constructor
    · simpa using ⟨⟨_, means⟩, ⟨_, means_blank _⟩, _, means_integer read⟩
    · intro ts reads rest
      obtain ⟨t, _, rfl, is, -, behind⟩ := reads.token_inv means
      obtain ⟨t', rfl, kind, -⟩ := (behind.skip_inv (means_blank _)).single_inv (means_integer read)
      exact ⟨m, same.symm, .plain is kind⟩
  · rw [eq]
    constructor
    · simpa using ⟨⟨_, means⟩, ⟨_, means_blank _⟩, ⟨_, means_op _⟩, _, means_integer read⟩
    · intro ts reads rest
      obtain ⟨t, _, rfl, is, -, behind⟩ := reads.token_inv means
      obtain ⟨minus, _, rfl, sign, -, behind⟩ :=
        (behind.skip_inv (means_blank _)).token_inv (means_op _)
      obtain ⟨t', rfl, kind, -⟩ := behind.single_inv (means_integer read)
      exact ⟨-m, same.symm, .negative is sign kind⟩

theorem WellFormed.spells {r : Rule} (h : r.WellFormed)
    (plain : ∀ s ∈ r.description, Text.Quoted.PlainText s)
    (back : ∀ v ∈ r.literals, v.ReadsBack) : Spells DerivesRule bare r.inks r := by
  have start : (word "rule").Means (some (.keyword .rule)) := means_word rfl
  have introduces : (word "When").Means (some (.keyword .when)) := means_word rfl
  have separates : (word "Then").Means (some (.keyword .«then»)) := means_word rfl
  have named := means_word h.name.2
  obtain ⟨inCondition, inActions⟩ := List.forall_mem_append.mp back
  have described := spells_description plain
  have ranked := spells_salience h.salience
  have condition := (h.condition.spells inCondition).1.expr
  have actions := Statement.spells_inksOfAll fun s mem => (h.actions s mem).spells fun v inside =>
    inActions v (List.mem_flatMap_of_mem mem inside)
  constructor
  · have body : AllMean r.bodyInks := by
      unfold bodyInks
      simp only [allMean_cons, allMean_append, allMean_nil, condition.means, actions.means,
        true_and, and_true]
      exact ⟨⟨_, means_blank _⟩, ⟨_, introduces⟩, ⟨_, means_blank _⟩, ⟨_, means_blank _⟩,
        ⟨_, separates⟩, ⟨_, means_blank _⟩, _, means_mark _⟩
    have header := ranked.means
    rw [allMean_cons, allMean_cons] at header
    unfold inks
    simp only [allMean_cons, allMean_append, described.means, header, body, true_and, and_true]
    exact ⟨⟨_, start⟩, ⟨_, named⟩, _, means_mark _⟩
  · intro ts reads rest
    obtain ⟨t₀, _, rfl, is₀, -, reads⟩ := reads.token_inv start
    obtain ⟨name, _, rfl, is₁, text, reads⟩ := (reads.skip_inv (means_blank _)).token_inv named
    obtain ⟨ds, _, rfl, inDescription, reads⟩ := reads.append_inv
    obtain ⟨ns, _, rfl, inSalience, reads⟩ := @Reads.append_inv
      (word "salience" :: space :: signed integer (toString r.salience.toInt).toList) _ _
        (reads.skip_inv (means_blank _))
    obtain ⟨opening, _, rfl, opens, -, reads⟩ :=
      (reads.skip_inv (means_blank _)).token_inv (means_mark _)
    obtain ⟨t₂, _, rfl, is₂, -, reads⟩ := (reads.skip_inv (means_blank _)).token_inv introduces
    obtain ⟨cs, _, rfl, inCondition, reads⟩ := (reads.skip_inv (means_blank _)).append_inv
    obtain ⟨t₃, _, rfl, is₃, -, reads⟩ := (reads.skip_inv (means_blank _)).token_inv separates
    obtain ⟨ss, _, rfl, inActions, reads⟩ := reads.append_inv
    obtain ⟨closing, rfl, closes, -⟩ :=
      (reads.skip_inv (means_blank _)).single_inv (means_mark _)
    rw [word, String.ofList_toList] at text
    obtain ⟨as, sames, derived⟩ := actions.derives inActions (closing :: rest)
    obtain ⟨c, same, derived'⟩ := condition.derives inCondition (t₃ :: (ss ++ closing :: rest))
    obtain ⟨_, rfl, salience⟩ := ranked.derives inSalience
      (opening :: t₂ :: (cs ++ t₃ :: (ss ++ closing :: rest)))
    obtain ⟨_, rfl, description⟩ := described.derives inDescription
      (ns ++ opening :: t₂ :: (cs ++ t₃ :: (ss ++ closing :: rest)))
    have acts : as ≠ [] := by
      rintro rfl
      exact h.acts (List.map_eq_nil_iff.mp sames.symm)
    refine ⟨⟨name.text, r.description, r.salience, c, as, t₀.span.cover closing.span⟩, ?_, ?_⟩
    · unfold bare
      rw [text, same, sames]
    · simpa using
        DerivesRule.mk is₀ is₁ description salience opens is₂ derived' is₃ derived acts closes

end Rule

end Rulebook
