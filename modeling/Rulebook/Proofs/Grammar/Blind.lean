import Mathlib
import Rulebook.Proofs.Grammar.Soundness
import Rulebook.Proofs.Rule.Bare
import Rulebook.Proofs.Token.Joined

/-!
# Parsers do not look at spans

On two token lists that are the same but for their spans a parser does the same: it takes as many
tokens, and gives results, or stops for reasons, that are the same but for their spans.
-/

namespace Rulebook.Grammar

open Rulebook.Grammar.Parser

/-! ## Without spans -/

namespace Fault

def bare : Fault → Fault
  | expected what found => expected what found.bare
  | assignToCall target => assignToCall target.bare
  | fault => fault

theorem message_bare (fault : Fault) : fault.bare.message = fault.message := by
  cases fault with
  | expected what found =>
    rw [bare]
    unfold message
    simp only [Token.shown_bare]
  | assignToCall target =>
    rw [bare]
    unfold message
    simp only [Expr.shown_bare]
  | chainedComparison | assignToFact | badSalience => rfl

end Fault

def Stop.bare : Stop → Stop
  | .tooDeep => .tooDeep
  | .refused fault _ rule => .refused fault.bare {} rule

/-! ## Sequences -/

variable {α β γ δ : Type}

/-- What came of a parser, apart from spans. -/
def erased (f : α → γ) : Except Stop α × List Token → Except Stop γ × List Token
  | (.ok a, ts) => (.ok (f a), ts.map Token.bare)
  | (.error e, ts) => (.error e.bare, ts.map Token.bare)

/-- On lists that are the same but for spans the two parsers do the same but for spans. -/
def Blind (f : α → γ) (p q : Parser α) : Prop :=
  ∀ ts us : List Token, ts.map Token.bare = us.map Token.bare →
    erased f (p.on ts) = erased f (q.on us)

namespace Blind

variable {f : α → γ} {g : β → δ} {p q : Parser α} {k l : α → Parser β}

theorem pure {a b : α} (same : f a = f b) : Blind f (pure a) (pure b) := by
  intro ts us eq
  simp only [erased, on_pure, same, eq]

theorem throw {e e' : Stop} (same : e.bare = e'.bare) : Blind f (throw e) (throw e') := by
  intro ts us eq
  simp only [erased, on_throw, same, eq]

theorem bind (head : Blind f p q) (tail : ∀ a b, f a = f b → Blind g (k a) (l b)) :
    Blind g (p >>= k) (q >>= l) := by
  intro ts us eq
  have same := head ts us eq
  rw [on_bind, on_bind]
  revert same
  rcases p.on ts with ⟨e | a, ts⟩ <;> rcases q.on us with ⟨e' | b, us⟩ <;>
    intro same <;> obtain ⟨result, left⟩ := Prod.mk.inj same
  · exact congrArg₂ Prod.mk (congrArg Except.error (Except.error.inj result)) left
  · cases result
  · cases result
  · exact tail a b (Except.ok.inj result) ts us left

theorem bare_first {ts us : List Token} (eq : ts.map Token.bare = us.map Token.bare) :
    (first ts).bare = (first us).bare := by
  cases ts <;> cases us <;> first
    | rfl
    | cases eq
    | exact (List.cons.inj eq).1

theorem bare_rest {ts us : List Token} (eq : ts.map Token.bare = us.map Token.bare) :
    (rest ts).map Token.bare = (rest us).map Token.bare := by
  rcases ts with _ | ⟨t, ts⟩ <;> rcases us with _ | ⟨u, us⟩ <;> try cases eq
  · rfl
  · obtain ⟨same, others⟩ := List.cons.inj eq
    have ends := Token.congr_of_bare Token.isEof (fun _ => rfl) same
    simp only [rest, ends]
    split
    · exact eq
    · exact others

theorem peek : Blind Token.bare peek peek := by
  intro ts us eq
  simp only [erased, on_peek, bare_first eq, eq]

theorem next : Blind Token.bare next next := by
  intro ts us eq
  simp only [erased, on_next, bare_first eq, bare_rest eq]

theorem get : Blind (List.map Token.bare) get get := by
  intro ts us eq
  simp only [erased, on_get, eq]

theorem refuse {fault fault' : Fault} (same : fault.bare = fault'.bare) (s s' : Span) :
    Blind f (refuse fault s) (refuse fault' s') := by
  intro ts us eq
  simp only [erased, on_refuse, Stop.bare, same, eq]

theorem expected (what : Expected) : Blind f (expected what) (expected what) :=
  peek.bind fun t u same => by
    have faults : (Fault.expected what t).bare = (Fault.expected what u).bare := by
      rw [Fault.bare, Fault.bare, same]
    exact refuse faults _ _

theorem nextIf {p : Token → Bool} (kinds : ∀ t, p t.bare = p t) :
    Blind (Option.map Token.bare) (nextIf p) (nextIf p) := by
  unfold Parser.nextIf
  refine peek.bind fun t u same => ?_
  have test : p t = p u := by rw [← kinds t, same, kinds u]
  rw [test]
  split
  · exact next.bind fun t u same => pure (congrArg some same)
  · exact pure rfl

/-- What follows a token that may be there. -/
theorem nextIf_bind {p : Token → Bool} {k l : Option Token → Parser β}
    (kinds : ∀ t, p t.bare = p t) (without : Blind g (k none) (l none))
    (behind : ∀ t u : Token, t.bare = u.bare → Blind g (k (some t)) (l (some u))) :
    Blind g (Parser.nextIf p >>= k) (Parser.nextIf p >>= l) := by
  refine (nextIf kinds).bind fun a b same => ?_
  cases a with
  | none =>
    cases b with
    | none => exact without
    | some u => cases same
  | some t =>
    cases b with
    | none => cases same
    | some u => exact behind t u (Option.some.inj same)

theorem mark (m : Mark) : Blind Token.bare (mark m) (mark m) :=
  nextIf_bind (fun _ => rfl) (expected _) fun _ _ same => pure same

theorem keyword (k : Keyword) : Blind Token.bare (keyword k) (keyword k) :=
  nextIf_bind (fun _ => rfl) (expected _) fun _ _ same => pure same

theorem inRule (h : Blind f p q) (name : String) : Blind f (inRule name p) (inRule name q) := by
  intro ts us eq
  have same := h ts us eq
  unfold Parser.inRule
  rw [on_tryCatch, on_tryCatch]
  revert same
  rcases p.on ts with ⟨(_ | _) | a, ts⟩ <;> rcases q.on us with ⟨(_ | _) | b, us⟩ <;>
    intro same <;> simp_all [erased, Stop.bare]

end Blind

/-! ## Trees -/

theorem Binary.bare_build {b : Binary} {t : Token} {build : Build} (h : b.op? t = some build)
    {l l' r r' : Expr} (left : l.bare = l'.bare) (right : r.bare = r'.bare) :
    (build l r).bare = (build l' r').bare := by
  obtain ⟨op, rfl⟩ | ⟨op, rfl⟩ := Binary.build_cases h <;>
    simp only [covering, Expr.bare, left, right]

theorem literal?_bare (e : Expr) : e.bare.literal? = e.literal? := by
  cases e <;> rfl

theorem signed_of_literal? {e : Expr} (h : e.literal? = none) (op : UnaryOp) (s : Span) :
    signed op e s = .unary op e s := by
  cases op <;> cases e <;> first
    | rfl
    | cases h

theorem bare_signed {e e' : Expr} (same : e.bare = e'.bare) (op : UnaryOp) (s s' : Span) :
    (signed op e s).bare = (signed op e' s').bare := by
  have literals : e.literal? = e'.literal? := by rw [← literal?_bare e, same, literal?_bare]
  rcases none : e'.literal? with _ | v
  · rw [signed_of_literal? (literals.trans none), signed_of_literal? none, Expr.bare, Expr.bare,
      same]
  · rw [none] at literals
    cases e <;> cases literals
    cases e' <;> cases none
    cases op <;> cases v <;> try rfl
    simp only [signed]
    split <;> rfl

/-! ## Level by level -/

variable {room : Nat}

theorem Binary.op?_blind {b : Binary} {ts us : List Token}
    (eq : ts.map Token.bare = us.map Token.bare) : b.op? (first ts) = b.op? (first us) :=
  Token.congr_of_bare b.op? (fun _ => by cases b <;> rfl) (Blind.bare_first eq)

theorem Binary.moreParser_blind {b : Binary}
    (operand : ∀ r < room, Blind Expr.bare (b.operandParser r) (b.operandParser r)) {l l' : Expr}
    (left : l.bare = l'.bare) : Blind Expr.bare (b.moreParser room l) (b.moreParser room l') := by
  induction room generalizing l l' with
  | zero =>
    intro ts us eq
    rw [moreParser_zero, moreParser_zero]
    rw [op?_blind eq]
    split
    · exact Blind.pure left ts us eq
    · exact congrArg (_, ·) (Blind.bare_rest eq)
  | succ room ih =>
    intro ts us eq
    rw [moreParser_succ, moreParser_succ]
    rw [op?_blind eq]
    split
    · exact Blind.pure left ts us eq
    · next build op =>
      have more := (operand room (Nat.lt_succ_self room)).bind fun r r' right =>
        ih (fun r lt => operand r (Nat.lt_succ_of_lt lt)) (bare_build op left right)
      exact more _ _ (Blind.bare_rest eq)

theorem Binary.parser_blind {b : Binary}
    (operand : ∀ r ≤ room, Blind Expr.bare (b.operandParser r) (b.operandParser r)) :
    Blind Expr.bare (b.parser room) (b.parser room) := by
  rw [parser_eq]
  exact (operand room le_rfl).bind fun l l' left =>
    moreParser_blind (fun r lt => operand r (Nat.le_of_lt lt)) left

theorem comparison_blind (operand : Blind Expr.bare (sum room) (sum room)) :
    Blind Expr.bare (comparison room) (comparison room) := by
  unfold comparison
  refine operand.bind fun l l' left => Blind.peek.bind fun t u same => ?_
  rw [Token.congr_of_bare compareOp? (fun _ => rfl) same]
  split
  · exact .pure left
  · next op _ =>
    refine Blind.next.bind fun _ _ _ => operand.bind fun r r' right =>
      Blind.peek.bind fun t u same => ?_
    rw [Token.congr_of_bare compareOp? (fun _ => rfl) same]
    split
    · rw [(Token.bare_eq_bare_iff.mp same).2]
      exact .refuse rfl _ _
    · exact .pure (by simp only [Expr.bare, left, right])

theorem unary_blind (inner : Blind Expr.bare (primary room) (primary room))
    (smaller : ∀ r < room, Blind Expr.bare (unary r) (unary r)) :
    Blind Expr.bare (unary room) (unary room) := by
  unfold unary
  refine Blind.peek.bind fun t u same => ?_
  rw [Token.congr_of_bare unaryOp? (fun _ => rfl) same]
  split
  · exact inner
  · refine Blind.next.bind fun _ _ _ => ?_
    cases room with
    | zero => exact .throw rfl
    | succ room =>
      exact (smaller room (Nat.lt_succ_self room)).bind fun _ _ same =>
        .pure (bare_signed same _ _ _)

theorem primary_blind (chains : Blind Expr.bare (chain room) (chain room))
    (inner : Blind Expr.bare (expression room) (expression room)) :
    Blind Expr.bare (primary room) (primary room) := by
  unfold primary
  refine Blind.peek.bind fun t u same => ?_
  obtain ⟨kind, -⟩ := Token.bare_eq_bare_iff.mp same
  rw [kind]
  split
  · exact Blind.next.bind fun _ _ _ => .pure rfl
  · exact chains
  · refine Blind.next.bind fun _ _ _ => inner.bind fun e e' same =>
      (Blind.mark _).bind fun _ _ _ => .pure ?_
    rw [Expr.bare_withSpan, Expr.bare_withSpan, same]
  · exact .expected _

/-- Arguments are read up to their spans, which includes that of the closing parenthesis. -/
abbrev bareArguments (r : List Expr × Span) : List Expr := r.1.map Expr.bare

theorem separated_blind (inner : Blind Expr.bare (expression room) (expression room))
    {bound bound' : List Token} (bounds : bound.map Token.bare = bound'.map Token.bare)
    {found found' : List Expr} (same : found.map Expr.bare = found'.map Expr.bare) :
    Blind bareArguments (separated (expression room) bound found)
      (separated (expression room) bound' found') := by
  induction bound generalizing bound' found found' with
  | nil =>
    cases bound' <;> cases bounds
    exact .expected _
  | cons x bound ih =>
    rcases bound' with _ | ⟨x', bound'⟩
    · cases bounds
    obtain ⟨-, bounds⟩ := List.cons.inj bounds
    unfold separated
    refine inner.bind fun e e' item => ?_
    have items : (e :: found).map Expr.bare = (e' :: found').map Expr.bare := by
      rw [List.map_cons, List.map_cons, item, same]
    refine .nextIf_bind (fun _ => rfl) ?_ fun _ _ _ => ih bounds items
    exact .nextIf_bind (fun _ => rfl) (.expected _) fun _ _ _ =>
      .pure (by simp only [bareArguments, List.map_reverse, items])

theorem arguments_blind (inner : Blind Expr.bare (expression room) (expression room)) :
    Blind bareArguments (arguments room) (arguments room) := by
  unfold arguments
  refine (Blind.mark _).bind fun _ _ _ => .nextIf_bind (fun _ => rfl) ?_ fun _ _ _ => .pure rfl
  exact Blind.get.bind fun _ _ bounds => separated_blind inner bounds rfl

theorem links_blind (args : ∀ r < room, Blind bareArguments (arguments r) (arguments r))
    (inner : ∀ r < room, Blind Expr.bare (expression r) (expression r))
    (smaller : ∀ r < room, ∀ o o' : Expr, o.bare = o'.bare →
      Blind Expr.bare (links r o) (links r o'))
    {o o' : Expr} (same : o.bare = o'.bare) : Blind Expr.bare (links room o) (links room o') := by
  unfold links
  refine .nextIf_bind (fun _ => rfl) ?_ fun _ _ _ => ?_
  · refine .nextIf_bind (fun _ => rfl) (.pure same) fun _ _ _ => ?_
    cases room with
    | zero => exact .throw rfl
    | succ room =>
      have lt := Nat.lt_succ_self room
      exact (inner room lt).bind fun key key' keys => (Blind.mark _).bind fun _ _ _ =>
        smaller room lt _ _ (by rw [Expr.bare, Expr.bare, same, keys])
  · cases room with
    | zero => exact .throw rfl
    | succ room =>
      have lt := Nat.lt_succ_self room
      refine Blind.peek.bind fun t u name => ?_
      rw [Token.congr_of_bare Token.name? (fun _ => rfl) name]
      split
      · exact .expected _
      · refine Blind.next.bind fun _ _ _ => Blind.peek.bind fun t u opens => ?_
        rw [Token.congr_of_bare (·.isMark .openParen) (fun _ => rfl) opens]
        split
        · refine (args room lt).bind fun as as' same' => smaller room lt _ _ ?_
          rw [Expr.bare, Expr.bare, same, Expr.bareAll_eq, Expr.bareAll_eq]
          exact congrArg (Expr.method _ _ · _) same'
        · exact smaller room lt _ _ (by rw [Expr.bare, Expr.bare, same])

theorem chain_blind (args : Blind bareArguments (arguments room) (arguments room))
    (linked : ∀ o o' : Expr, o.bare = o'.bare → Blind Expr.bare (links room o) (links room o')) :
    Blind Expr.bare (chain room) (chain room) := by
  unfold chain
  refine Blind.next.bind fun head head' same => Blind.peek.bind fun t u opens => ?_
  rw [Token.congr_of_bare (·.isMark .openParen) (fun _ => rfl) opens,
    (Token.bare_eq_bare_iff.mp same).2]
  split
  · refine args.bind fun as as' same => linked _ _ ?_
    rw [Expr.bare, Expr.bare, Expr.bareAll_eq, Expr.bareAll_eq]
    exact congrArg (Expr.call _ · _) same
  · exact linked _ _ rfl

structure BlindAt (room : Nat) : Prop where
  expression : Blind Expr.bare (expression room) (expression room)
  arguments : Blind bareArguments (arguments room) (arguments room)
  links : ∀ o o' : Expr, o.bare = o'.bare → Blind Expr.bare (links room o) (links room o')
  operand : ∀ b : Binary, Blind Expr.bare (b.operandParser room) (b.operandParser room)
  whole : Blind Expr.bare (disjunction room) (disjunction room)

theorem expression_blind
    (smaller : ∀ r < room, Blind Expr.bare (disjunction r) (disjunction r)) :
    Blind Expr.bare (expression room) (expression room) := by
  unfold expression
  cases room with
  | zero => exact .throw rfl
  | succ room => exact smaller room (Nat.lt_succ_self room)

theorem blindAt (room : Nat) : BlindAt room := by
  -- With the same room a parser calls only those settled before it here, and any with less.
  induction room using Nat.strong_induction_on with
  | _ room ih =>
    have inner := expression_blind fun r lt => (ih r lt).whole
    have args := arguments_blind inner
    have linked : ∀ o o' : Expr, o.bare = o'.bare →
        Blind Expr.bare (Grammar.links room o) (Grammar.links room o') := fun _ _ =>
      links_blind (fun r lt => (ih r lt).arguments) (fun r lt => (ih r lt).expression)
        fun r lt => (ih r lt).links
    have primaries := primary_blind (chain_blind args linked) inner
    have unaries := unary_blind primaries fun r lt => (ih r lt).operand .product
    have upTo {b : Binary} (h : Blind Expr.bare (b.operandParser room) (b.operandParser room)) :
        ∀ r ≤ room, Blind Expr.bare (b.operandParser r) (b.operandParser r) := by
      intro r le
      rcases Nat.lt_or_eq_of_le le with lt | rfl
      · exact (ih r lt).operand b
      · exact h
    have products := Binary.parser_blind (b := .product) (upTo unaries)
    have sums := Binary.parser_blind (b := .sum) (upTo products)
    have comparisons := comparison_blind sums
    have conjunctions := Binary.parser_blind (b := .and) (upTo comparisons)
    refine ⟨inner, args, linked, ?_, Binary.parser_blind (b := .or) (upTo conjunctions)⟩
    intro b
    cases b with
    | or => exact conjunctions
    | and => exact comparisons
    | sum => exact products
    | product => exact unaries

/-! ## Statements and rules -/

theorem bare_statement_assign {l l' r r' : Expr} (left : l.bare = l'.bare)
    (right : r.bare = r'.bare) (s s' : Span) :
    (Statement.assign l r s).bare = (Statement.assign l' r' s').bare := by
  rw [Statement.bare, Statement.bare, left, right]

theorem statement_blind (room : Nat) : Blind Statement.bare (statement room) (statement room) := by
  have blind := blindAt room
  unfold statement
  refine Blind.peek.bind fun t u same => ?_
  obtain ⟨kind, -⟩ := Token.bare_eq_bare_iff.mp same
  rw [kind]
  split
  · refine (chain_blind blind.arguments blind.links).bind fun target target' same =>
      Blind.peek.bind fun t u assigns => ?_
    rw [Token.congr_of_bare (·.isOperator .assign) (fun _ => rfl) assigns]
    have assigned : Blind Statement.bare
        (do let _ ← next
            let value ← expression room
            let stop ← mark .semicolon
            return Statement.assign target value (target.span.cover stop.span))
        (do let _ ← next
            let value ← expression room
            let stop ← mark .semicolon
            return Statement.assign target' value (target'.span.cover stop.span)) :=
      Blind.next.bind fun _ _ _ => blind.expression.bind fun _ _ value =>
        (Blind.mark _).bind fun _ _ _ => .pure (bare_statement_assign same value _ _)
    have called : Blind Statement.bare
        (do let stop ← mark .semicolon
            return Statement.call target (target.span.cover stop.span))
        (do let stop ← mark .semicolon
            return Statement.call target' (target'.span.cover stop.span)) :=
      (Blind.mark _).bind fun _ _ _ => .pure (by rw [Statement.bare, Statement.bare, same])
    have elsewhere : (Fault.assignToCall target).bare = (Fault.assignToCall target').bare := by
      rw [Fault.bare, Fault.bare, same]
    split
    · cases target <;> cases target' <;> try cases same
      all_goals first
        | exact assigned
        | exact .refuse rfl _ _
        | exact .refuse elsewhere _ _
    · cases target <;> cases target' <;> try cases same
      all_goals first
        | exact called
        | exact .expected _
  · exact .expected _

theorem statements_blind (room : Nat) {bound bound' : List Token}
    (bounds : bound.map Token.bare = bound'.map Token.bare) {found found' : List Statement}
    (same : found.map Statement.bare = found'.map Statement.bare) :
    Blind (List.map Statement.bare) (statements room bound found)
      (statements room bound' found') := by
  have finish : found.reverse.map Statement.bare = found'.reverse.map Statement.bare := by
    rw [List.map_reverse, List.map_reverse, same]
  induction bound generalizing bound' found found' with
  | nil =>
    cases bound' <;> cases bounds
    exact .pure finish
  | cons x bound ih =>
    rcases bound' with _ | ⟨x', bound'⟩
    · cases bounds
    obtain ⟨-, bounds⟩ := List.cons.inj bounds
    unfold statements
    refine Blind.peek.bind fun t u token => ?_
    rw [Token.congr_of_bare (fun t => t.isMark .closeBrace || t.isEof) (fun _ => rfl) token]
    split
    · exact .pure finish
    · refine (statement_blind room).bind fun s s' more => ?_
      have longer : (s :: found).map Statement.bare = (s' :: found').map Statement.bare := by
        rw [List.map_cons, List.map_cons, more, same]
      exact ih bounds longer (by rw [List.map_reverse, List.map_reverse, longer])

theorem description_blind : Blind id description description := by
  unfold description
  refine Blind.peek.bind fun t u same => ?_
  obtain ⟨kind, -⟩ := Token.bare_eq_bare_iff.mp same
  rw [kind]
  split
  · exact Blind.next.bind fun _ _ _ => .pure rfl
  · exact .pure rfl

theorem salience_blind : Blind id salience salience := by
  unfold salience
  refine (Blind.nextIf fun _ => rfl).bind fun a b sign => Blind.peek.bind fun t u same => ?_
  have signs : a.isSome = b.isSome := by
    rw [← Option.isSome_map (f := Token.bare), sign, Option.isSome_map]
  obtain ⟨kind, text⟩ := Token.bare_eq_bare_iff.mp same
  rw [kind, text, signs]
  split
  · exact Blind.next.bind fun _ _ _ => .pure rfl
  · exact .refuse rfl _ _
  · exact .expected _

theorem declaredSalience_blind : Blind id declaredSalience declaredSalience := by
  unfold declaredSalience
  exact .nextIf_bind (fun _ => rfl) (.pure rfl) fun _ _ _ => salience_blind

theorem ruleBody_blind (room : Nat) (start start' : Token) (name : String) :
    Blind Rule.bare (ruleBody room start name) (ruleBody room start' name) := by
  unfold ruleBody
  refine description_blind.bind fun d d' description => ?_
  refine declaredSalience_blind.bind fun n n' salience => ?_
  refine (Blind.mark _).bind fun _ _ _ => (Blind.keyword _).bind fun _ _ _ => ?_
  refine (blindAt room).expression.bind fun c c' condition => (Blind.keyword _).bind fun _ _ _ => ?_
  refine Blind.get.bind fun _ _ bounds => ?_
  refine (statements_blind room bounds rfl).bind fun as as' actions => ?_
  have empty : as.isEmpty = as'.isEmpty := by
    rw [← List.isEmpty_map (f := Statement.bare), actions, List.isEmpty_map]
  rw [empty]
  split
  · exact .expected _
  · refine (Blind.mark _).bind fun _ _ _ => .pure ?_
    cases description
    cases salience
    simp only [Rule.bare, condition, actions]

theorem rule_blind (room : Nat) : Blind Rule.bare (rule room) (rule room) := by
  unfold rule ruleKeyword
  refine Blind.bind (f := Token.bare) ?_ fun start start' _ => ?_
  · exact .nextIf_bind (fun _ => rfl) (.expected _) fun _ _ same => .pure same
  · refine .nextIf_bind (fun _ => rfl) (.expected _) fun t u same => ?_
    simp only [(Token.bare_eq_bare_iff.mp same).2]
    exact (ruleBody_blind room start start' u.text).inRule _

/-! ## Many rules -/

/-- A fault of a rule apart from its place. -/
def bareFault (f : Fault × Span × Option String) : Fault × Option String := (f.1.bare, f.2.2)

/-- Both give the same rules but for spans, or fail alike. -/
inductive Matching : Except Failure (List Rule) → Except Failure (List Rule) → Prop
  | ok {rules rules'} : rules.map Rule.bare = rules'.map Rule.bare →
      Matching (.ok rules) (.ok rules')
  | tooDeep : Matching (.error .tooDeep) (.error .tooDeep)
  | broken {faults faults'} : faults.map bareFault = faults'.map bareFault →
      Matching (.error (.broken faults)) (.error (.broken faults'))

theorem bare_nextRule {ts us : List Token} (eq : ts.map Token.bare = us.map Token.bare)
    {last last' : Token} (same : last.bare = last'.bare) :
    (nextRule last ts).map Token.bare = (nextRule last' us).map Token.bare := by
  induction ts generalizing us last last' with
  | nil =>
    cases us <;> cases eq
    rfl
  | cons t ts ih =>
    rcases us with _ | ⟨u, us⟩
    · cases eq
    obtain ⟨head, others⟩ := List.cons.inj eq
    have stop : (t.isEof || (t.isKeyword .rule && !last.isMark .dot)) =
        (u.isEof || (u.isKeyword .rule && !last'.isMark .dot)) := by
      rw [Token.congr_of_bare (fun t => t.isEof) (fun _ => rfl) head,
        Token.congr_of_bare (fun t => t.isKeyword .rule) (fun _ => rfl) head,
        Token.congr_of_bare (fun t => t.isMark .dot) (fun _ => rfl) same]
    rw [nextRule, nextRule, stop]
    split
    · exact eq
    · exact ih others head

theorem bare_recover {ts us : List Token} (eq : ts.map Token.bare = us.map Token.bare) :
    (recover ts).map Token.bare = (recover us).map Token.bare := by
  rcases ts with _ | ⟨t, ts⟩ <;> rcases us with _ | ⟨u, us⟩ <;> try cases eq
  · rfl
  · obtain ⟨head, others⟩ := List.cons.inj eq
    rw [recover, recover, Token.congr_of_bare Token.isEof (fun _ => rfl) head]
    split
    · exact eq
    · exact bare_nextRule others head

theorem finish_blind {found found' : List Rule} (same : found.map Rule.bare = found'.map Rule.bare)
    {faults faults' : List (Fault × Span × Option String)}
    (alike : faults.map bareFault = faults'.map bareFault) :
    Matching (rulesFrom.finish found faults) (rulesFrom.finish found' faults') := by
  have empty : faults.isEmpty = faults'.isEmpty := by
    rw [← List.isEmpty_map (f := bareFault), alike, List.isEmpty_map]
  unfold rulesFrom.finish
  rw [empty]
  split
  · exact .ok (by rw [List.map_reverse, List.map_reverse, same])
  · exact .broken (by rw [List.map_reverse, List.map_reverse, alike])

theorem rulesFrom_blind (room : Nat) {bound bound' ts us : List Token}
    (bounds : bound.map Token.bare = bound'.map Token.bare)
    (eq : ts.map Token.bare = us.map Token.bare) {found found' : List Rule}
    (same : found.map Rule.bare = found'.map Rule.bare)
    {faults faults' : List (Fault × Span × Option String)}
    (alike : faults.map bareFault = faults'.map bareFault) :
    Matching (rulesFrom room found faults ts bound) (rulesFrom room found' faults' us bound') := by
  induction bound generalizing bound' ts us found found' faults faults' with
  | nil =>
    cases bound' <;> cases bounds
    exact finish_blind same alike
  | cons x bound ih =>
    rcases bound' with _ | ⟨x', bound'⟩
    · cases bounds
    obtain ⟨-, bounds⟩ := List.cons.inj bounds
    have ran : erased Rule.bare ((rule room).run.run ts) =
        erased Rule.bare ((rule room).run.run us) :=
      rule_blind room ts us eq
    unfold rulesFrom
    rw [Token.congr_of_bare Token.isEof (fun _ => rfl) (Blind.bare_first eq)]
    split
    · exact finish_blind same alike
    revert ran
    rcases (rule room).run.run ts with ⟨(_ | ⟨fault, span, name⟩) | r, ts'⟩ <;>
      rcases (rule room).run.run us with ⟨(_ | ⟨fault', span', name'⟩) | r', us'⟩ <;>
      intro ran <;> obtain ⟨result, left⟩ := Prod.mk.inj ran <;> try cases result
    · exact .tooDeep
    · obtain ⟨fault, -, name⟩ := Stop.refused.inj (Except.error.inj result)
      refine ih bounds (bare_recover left) same ?_
      rw [List.map_cons, List.map_cons, alike, bareFault, bareFault, fault, name]
    · refine ih bounds left ?_ alike
      rw [List.map_cons, List.map_cons, same, Except.ok.inj result]

/-- Rules are read from a token list whatever the spans of its tokens are. -/
theorem rules_blind (room : Nat) {ts us : List Token}
    (eq : ts.map Token.bare = us.map Token.bare) : Matching (rules room ts) (rules room us) :=
  rulesFrom_blind room eq eq rfl rfl

end Rulebook.Grammar
