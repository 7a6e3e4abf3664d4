import Mathlib
import Rulebook.Proofs.Grammar.Run

/-!
# The grammar of rule texts

What the token lists of expressions, statements and rules are, said without a parser. A derivation
leads from a token list to a tree and the tokens behind it, so that it has taken those before.

    expr    := and ("||" and)*            chain := NAME args? link*
    and     := compare ("&&" compare)*    link  := "." (NAME | KEYWORD) args? | "[" expr "]"
    compare := sum (OP sum)?              args  := "(" (expr ("," expr)*)? ")"
    sum     := product (("+" | "-") product)*
    product := unary (("*" | "/" | "%") unary)*
    unary   := ("-" | "!")* primary
    primary := LITERAL | chain | "(" expr ")"
-/

namespace Rulebook.Grammar

/-! ## Expressions -/

/-- The levels on which any number of operands may follow each other. -/
inductive Binary where
  | or
  | and
  | sum
  | product

/-- What a part of an expression is. Operands, links and arguments go on behind a tree that has been
built so far: `more` behind a left operand, `links` behind an object, `items` behind arguments. -/
inductive Level where
  | binary (b : Binary)
  | more (b : Binary) (left : Expr)
  | compare
  | unary
  | primary
  | chain
  | links (object : Expr)
  | arguments (build : List Expr → Span → Expr)
  | items (build : List Expr → Span → Expr) (found : List Expr)

/-- A whole expression. -/
abbrev Level.expr : Level := .binary .or

namespace Binary

/-- The level of the operands. -/
def operand : Binary → Level
  | .or => .binary .and
  | .and => .compare
  | .sum => .binary .product
  | .product => .unary

/-- The tree that an operator of the level builds. -/
def op? : Binary → Token → Option Build
  | .or => orOp?
  | .and => andOp?
  | .sum => addOp?
  | .product => multiplyOp?

end Binary

/-- The tokens of a part of an expression, its tree, and the tokens behind it. -/
inductive Derives : Level → List Token → Expr → List Token → Prop
  | binary {b ts left us e rest} : Derives b.operand ts left us → Derives (.more b left) us e rest →
      Derives (.binary b) ts e rest
  | done {b left rest} : Derives (.more b left) rest left rest
  | further {b left t build ts right us e rest} : b.op? t = some build →
      Derives b.operand ts right us → Derives (.more b (build left right)) us e rest →
        Derives (.more b left) (t :: ts) e rest
  | single {ts e rest} : Derives (.binary .sum) ts e rest → Derives .compare ts e rest
  | compared {ts left t us op right rest} : Derives (.binary .sum) ts left (t :: us) →
      compareOp? t = some op → Derives (.binary .sum) us right rest →
        Derives .compare ts (.compare op left right (left.span.cover right.span)) rest
  | plain {ts e rest} : Derives .primary ts e rest → Derives .unary ts e rest
  | sign {t op ts e rest} : unaryOp? t = some op → Derives .unary ts e rest →
      Derives .unary (t :: ts) (signed op e (t.span.cover e.span)) rest
  | literal {t v rest} : t.kind = .literal v → Derives .primary (t :: rest) (.literal v t.span) rest
  | name {ts e rest} : Derives .chain ts e rest → Derives .primary ts e rest
  | paren {op ts e cl rest} : op.kind = .mark .openParen → Derives .expr ts e (cl :: rest) →
      cl.kind = .mark .closeParen →
        Derives .primary (op :: ts) (e.withSpan (op.span.cover cl.span)) rest
  | ident {head ts e rest} : head.kind = .identifier →
      Derives (.links (.ident head.text head.span)) ts e rest → Derives .chain (head :: ts) e rest
  | call {head ts call us e rest} : head.kind = .identifier →
      Derives (.arguments fun args close => .call head.text args (head.span.cover close)) ts call us →
        Derives (.links call) us e rest → Derives .chain (head :: ts) e rest
  | stop {object rest} : Derives (.links object) rest object rest
  | member {object dot t name ts e rest} : dot.kind = .mark .dot → t.name? = some name →
      Derives (.links (.member object name (object.span.cover t.span))) ts e rest →
        Derives (.links object) (dot :: t :: ts) e rest
  | method {object dot t name ts call us e rest} : dot.kind = .mark .dot → t.name? = some name →
      Derives (.arguments fun args close => .method object name args (object.span.cover close)) ts
        call us →
      Derives (.links call) us e rest → Derives (.links object) (dot :: t :: ts) e rest
  | index {object op ts key cl us e rest} : op.kind = .mark .openBracket →
      Derives .expr ts key (cl :: us) → cl.kind = .mark .closeBracket →
        Derives (.links (.index object key (object.span.cover cl.span))) us e rest →
          Derives (.links object) (op :: ts) e rest
  | noArguments {build op cl rest} : op.kind = .mark .openParen → cl.kind = .mark .closeParen →
      Derives (.arguments build) (op :: cl :: rest) (build [] cl.span) rest
  | someArguments {build op ts e rest} : op.kind = .mark .openParen →
      Derives (.items build []) ts e rest → Derives (.arguments build) (op :: ts) e rest
  | lastItem {build found ts item cl rest} : Derives .expr ts item (cl :: rest) →
      cl.kind = .mark .closeParen →
        Derives (.items build found) ts (build (found ++ [item]) cl.span) rest
  | nextItem {build found ts item comma us e rest} : Derives .expr ts item (comma :: us) →
      comma.kind = .mark .comma → Derives (.items build (found ++ [item])) us e rest →
        Derives (.items build found) ts e rest

/-! ## Statements and rules -/

/-- Any number of the same, one behind the other. -/
inductive Many {α : Type} (R : List Token → α → List Token → Prop) :
    List Token → List α → List Token → Prop
  | nil {rest} : Many R rest [] rest
  | cons {ts a us as rest} : R ts a us → Many R us as rest → Many R ts (a :: as) rest

/-- Whether the last link of a chain is a member or an element. -/
def isPlace : Expr → Prop
  | .member .. | .index .. => True
  | _ => False

/-- Whether the last link of a chain is a call. -/
def isCall : Expr → Prop
  | .call .. | .method .. => True
  | _ => False

/-- An assignment to a place, or a call. -/
inductive DerivesStatement : List Token → Statement → List Token → Prop
  | assign {ts target eq us value semi rest} : Derives .chain ts target (eq :: us) →
      isPlace target → eq.kind = .operator .assign → Derives .expr us value (semi :: rest) →
        semi.kind = .mark .semicolon →
          DerivesStatement ts (.assign target value (target.span.cover semi.span)) rest
  | call {ts e semi rest} : Derives .chain ts e (semi :: rest) → isCall e →
      semi.kind = .mark .semicolon → DerivesStatement ts (.call e (e.span.cover semi.span)) rest

/-- A description may be left out. -/
inductive DerivesDescription : List Token → Option String → List Token → Prop
  | none {rest} : DerivesDescription rest none rest
  | some {t s rest} : t.kind = .literal (.text s) → DerivesDescription (t :: rest) (some s) rest

/-- So may a salience, and its sign. -/
inductive DerivesSalience : List Token → Int64 → List Token → Prop
  | none {rest} : DerivesSalience rest Rule.defaultSalience rest
  | plain {word t n rest} : word.kind = .keyword .salience → t.kind = .literal (.int n) →
      DerivesSalience (word :: t :: rest) n rest
  | negative {word minus t n rest} : word.kind = .keyword .salience →
      minus.kind = .operator .minus → t.kind = .literal (.int n) →
        DerivesSalience (word :: minus :: t :: rest) (-n) rest

inductive DerivesRule : List Token → Rule → List Token → Prop
  | mk {start name ts description us salience op word vs condition thn ws actions cl rest} :
      start.kind = .keyword .rule → name.kind = .identifier → DerivesDescription ts description us →
      DerivesSalience us salience (op :: word :: vs) → op.kind = .mark .openBrace →
      word.kind = .keyword .when → Derives .expr vs condition (thn :: ws) →
      thn.kind = .keyword .«then» → Many DerivesStatement ws actions (cl :: rest) → actions ≠ [] →
      cl.kind = .mark .closeBrace →
        DerivesRule (start :: name :: ts)
          ⟨name.text, description, salience, condition, actions, start.span.cover cl.span⟩ rest

/-- A whole token list: rules up to the end. -/
def DerivesRules (ts : List Token) (rules : List Rule) : Prop :=
  ∃ last : Token, last.kind = .eof ∧ Many DerivesRule ts rules [last]

/-! ## Operator tokens -/

theorem Binary.kind_of_op? {b : Binary} {t : Token} {build : Build} (h : b.op? t = some build) :
    ∃ o, t.kind = .operator o := by
  rcases t with ⟨kind, text, span⟩
  cases b <;> cases kind <;>
    simp [op?, orOp?, andOp?, addOp?, multiplyOp?, Token.isOperator] at h ⊢

/-- Binary operators build logical or arithmetic trees. -/
theorem Binary.build_cases {b : Binary} {t : Token} {build : Build} (h : b.op? t = some build) :
    (∃ op, build = covering (.logic op)) ∨ ∃ op, build = covering (.arith op) := by
  cases b <;> simp only [op?, orOp?, andOp?, addOp?, multiplyOp?] at h <;> split at h <;> cases h
  all_goals first
  | exact .inl ⟨_, rfl⟩
  | exact .inr ⟨_, rfl⟩

theorem kind_of_compareOp? {t : Token} {op : CompareOp} (h : compareOp? t = some op) :
    ∃ o, t.kind = .operator o := by
  rcases t with ⟨kind, text, span⟩
  cases kind <;> simp [compareOp?] at h ⊢

theorem kind_of_unaryOp? {t : Token} {op : UnaryOp} (h : unaryOp? t = some op) :
    ∃ o, t.kind = .operator o := by
  rcases t with ⟨kind, text, span⟩
  cases kind <;> simp [unaryOp?] at h ⊢

theorem kind_of_name? {t : Token} {name : String} (h : t.name? = some name) : t.kind ≠ .eof := by
  rcases t with ⟨kind, text, span⟩
  cases kind <;> simp [Token.name?] at h ⊢

/-! ## Levels inside each other -/

namespace Derives

variable {ts us rest : List Token} {e l r : Expr} {t : Token}

theorem sum_of_unary (h : Derives .unary ts e rest) : Derives (.binary .sum) ts e rest :=
  .binary (.binary h .done) .done

theorem operand_of_unary (b : Binary) (h : Derives .unary ts e rest) :
    Derives b.operand ts e rest := by
  cases b with
  | or => exact .binary (.single h.sum_of_unary) .done
  | and => exact .single h.sum_of_unary
  | sum => exact .binary h .done
  | product => exact h

theorem expr_of_compare (h : Derives .compare ts e rest) : Derives .expr ts e rest :=
  .binary (.binary h .done) .done

theorem expr_of_binary {b : Binary} (h : Derives (.binary b) ts e rest) :
    Derives .expr ts e rest := by
  cases b with
  | or => exact h
  | and => exact .binary h .done
  | sum => exact expr_of_compare (.single h)
  | product => exact expr_of_compare (.single (.binary h .done))

theorem expr_of_unary (h : Derives .unary ts e rest) : Derives .expr ts e rest :=
  expr_of_compare (.single h.sum_of_unary)

theorem operation {b : Binary} {build : Build} (left : Derives .unary ts l (t :: us))
    (op : b.op? t = some build) (right : Derives .unary us r rest) :
    Derives .expr ts (build l r) rest :=
  expr_of_binary (.binary (left.operand_of_unary b) (.further op (right.operand_of_unary b) .done))

theorem comparison {o : CompareOp} (left : Derives .unary ts l (t :: us))
    (op : compareOp? t = some o) (right : Derives .unary us r rest) :
    Derives .expr ts (.compare o l r (l.span.cover r.span)) rest :=
  expr_of_compare (.compared left.sum_of_unary op right.sum_of_unary)

theorem links_append {level : Level} {object o : Expr} (h : Derives level ts o us)
    (links : level = .links object) (more : Derives (.links o) us e rest) :
    Derives (.links object) ts e rest := by
  induction h generalizing object with
  | stop =>
    cases links
    exact more
  | member is named _ ih =>
    cases links
    exact .member is named (ih rfl more)
  | method is named called _ _ ih =>
    cases links
    exact .method is named called (ih rfl more)
  | index opens key closes _ _ ih =>
    cases links
    exact .index opens key closes (ih rfl more)
  | _ => cases links

/-- More links may follow a chain. -/
theorem chain_append {o : Expr} (h : Derives .chain ts o us) (more : Derives (.links o) us e rest) :
    Derives .chain ts e rest := by
  cases h with
  | ident is links => exact .ident is (links.links_append rfl more)
  | call is called links => exact .call is called (links.links_append rfl more)

end Derives

/-! ## Tokens taken -/

/-- The second list is the first without tokens at its front, none of which is the end. -/
def Takes (ts rest : List Token) : Prop :=
  ∃ used, ts = used ++ rest ∧ ∀ t ∈ used, t.kind ≠ .eof

namespace Takes

variable {ts us rest : List Token}

theorem refl (ts : List Token) : Takes ts ts := ⟨[], rfl, by simp⟩

theorem trans (h : Takes ts us) (k : Takes us rest) : Takes ts rest := by
  obtain ⟨used, rfl, all⟩ := h
  obtain ⟨used', rfl, all'⟩ := k
  refine ⟨used ++ used', (List.append_assoc used used' rest).symm, fun t mem => ?_⟩
  rcases List.mem_append.mp mem with mem | mem
  · exact all t mem
  · exact all' t mem

theorem cons {t : Token} {kind : Token.Kind} (h : t.kind = kind) (ne : kind ≠ .eof)
    (k : Takes ts rest) : Takes (t :: ts) rest := by
  obtain ⟨used, rfl, all⟩ := k
  rw [← h] at ne
  exact ⟨t :: used, rfl, by simpa using ⟨ne, all⟩⟩

theorem length_le (h : Takes ts rest) : rest.length ≤ ts.length := by
  obtain ⟨used, rfl, -⟩ := h
  simp

end Takes

/-- At least one token is taken. -/
def TakesSome (ts rest : List Token) : Prop := ∃ t us, ts = t :: us ∧ t.kind ≠ .eof ∧ Takes us rest

namespace TakesSome

variable {ts us rest : List Token}

theorem takes (h : TakesSome ts rest) : Takes ts rest := by
  obtain ⟨t, us, rfl, ne, takes⟩ := h
  exact .cons rfl ne takes

theorem cons {t : Token} {kind : Token.Kind} (h : t.kind = kind) (ne : kind ≠ .eof)
    (k : Takes ts rest) : TakesSome (t :: ts) rest :=
  ⟨t, ts, rfl, h ▸ ne, k⟩

theorem trans (h : TakesSome ts us) (k : Takes us rest) : TakesSome ts rest := by
  obtain ⟨t, ts, rfl, ne, takes⟩ := h
  exact ⟨t, ts, rfl, ne, takes.trans k⟩

theorem both {P : Prop} (h : TakesSome ts rest) : Takes ts rest ∧ (P → TakesSome ts rest) :=
  ⟨h.takes, fun _ => h⟩

theorem length_lt (h : TakesSome ts rest) : rest.length < ts.length := by
  obtain ⟨t, us, rfl, -, takes⟩ := h
  exact Nat.lt_succ_of_le takes.length_le

end TakesSome

/-- Whether a part of this level has a token of its own. -/
def Level.Proper : Level → Prop
  | .more .. | .links .. => False
  | _ => True

theorem Binary.operand_proper (b : Binary) : b.operand.Proper := by cases b <;> exact trivial

theorem Derives.takes {l : Level} {ts rest : List Token} {e : Expr} (h : Derives l ts e rest) :
    Takes ts rest ∧ (l.Proper → TakesSome ts rest) := by
  induction h with
  | @binary b _ _ _ _ _ _ _ ih ih' => exact TakesSome.both ((ih.2 b.operand_proper).trans ih'.1)
  | done | stop => exact ⟨.refl _, False.elim⟩
  | further op _ _ ih ih' =>
    obtain ⟨o, is⟩ := Binary.kind_of_op? op
    exact ⟨.cons is (by simp) (ih.1.trans ih'.1), False.elim⟩
  | single _ ih | plain _ ih | name _ ih => exact TakesSome.both (ih.2 trivial)
  | compared _ op _ ih ih' =>
    obtain ⟨o, is⟩ := kind_of_compareOp? op
    exact TakesSome.both ((ih.2 trivial).trans (.cons is (by simp) ih'.1))
  | sign op _ ih =>
    obtain ⟨o, is⟩ := kind_of_unaryOp? op
    exact TakesSome.both (.cons is (by simp) ih.1)
  | literal is => exact TakesSome.both (.cons is (by simp) (.refl _))
  | paren opens _ closes ih =>
    exact TakesSome.both (.cons opens (by simp) (ih.1.trans (.cons closes (by simp) (.refl _))))
  | ident is _ ih => exact TakesSome.both (.cons is (by simp) ih.1)
  | call is _ _ ih ih' => exact TakesSome.both (.cons is (by simp) (ih.1.trans ih'.1))
  | member is named _ ih =>
    exact ⟨.cons is (by simp) (.cons rfl (kind_of_name? named) ih.1), False.elim⟩
  | method is named _ _ ih ih' =>
    have rest := ih.1.trans ih'.1
    exact ⟨.cons is (by simp) (.cons rfl (kind_of_name? named) rest), False.elim⟩
  | index opens _ closes _ ih ih' =>
    have rest := ih.1.trans (.cons closes (by simp) ih'.1)
    exact ⟨.cons opens (by simp) rest, False.elim⟩
  | noArguments opens closes =>
    exact TakesSome.both (.cons opens (by simp) (.cons closes (by simp) (.refl _)))
  | someArguments opens _ ih => exact TakesSome.both (.cons opens (by simp) ih.1)
  | lastItem _ closes ih => exact TakesSome.both ((ih.2 trivial).trans (.cons closes (by simp) (.refl _)))
  | nextItem _ is _ ih ih' => exact TakesSome.both ((ih.2 trivial).trans (.cons is (by simp) ih'.1))

theorem Derives.takesSome {l : Level} {ts rest : List Token} {e : Expr} (h : Derives l ts e rest)
    (proper : l.Proper) : TakesSome ts rest :=
  h.takes.2 proper

theorem DerivesStatement.takesSome {ts rest : List Token} {s : Statement}
    (h : DerivesStatement ts s rest) : TakesSome ts rest := by
  cases h with
  | assign target _ assigns value ends =>
    have close := Takes.cons ends (by simp) (.refl rest)
    have value := (value.takesSome trivial).takes.trans close
    exact (target.takesSome trivial).trans (.cons assigns (by simp) value)
  | call e _ ends =>
    have close := Takes.cons ends (by simp) (.refl rest)
    exact (e.takesSome trivial).trans close

theorem Many.takes {α : Type} {R : List Token → α → List Token → Prop} {ts rest : List Token}
    {as : List α} (h : Many R ts as rest) (one : ∀ {ts a rest}, R ts a rest → TakesSome ts rest) :
    Takes ts rest := by
  induction h with
  | nil => exact .refl _
  | cons first _ ih => exact (one first).takes.trans ih

theorem DerivesDescription.takes {ts rest : List Token} {d : Option String}
    (h : DerivesDescription ts d rest) : Takes ts rest := by
  cases h with
  | none => exact .refl _
  | some is => exact .cons is (by simp) (.refl _)

theorem DerivesSalience.takes {ts rest : List Token} {n : Int64} (h : DerivesSalience ts n rest) :
    Takes ts rest := by
  cases h with
  | none => exact .refl _
  | plain is int => exact .cons is (by simp) (.cons int (by simp) (.refl _))
  | negative is sign int =>
    exact .cons is (by simp) (.cons sign (by simp) (.cons int (by simp) (.refl _)))

theorem DerivesRule.takesSome {ts rest : List Token} {r : Rule} (h : DerivesRule ts r rest) :
    TakesSome ts rest := by
  cases h with
  | mk starts named described ranked opens introduces condition separates actions _ closes =>
    have close := Takes.cons closes (by simp) (.refl rest)
    have actions := (actions.takes DerivesStatement.takesSome).trans close
    have condition := (condition.takesSome trivial).takes.trans (.cons separates (by simp) actions)
    have body := Takes.cons opens (by simp) (.cons introduces (by simp) condition)
    have header := described.takes.trans (ranked.takes.trans body)
    exact .cons starts (by simp) (.cons named (by simp) header)

end Rulebook.Grammar
