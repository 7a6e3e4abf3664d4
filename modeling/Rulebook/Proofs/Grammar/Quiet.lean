import Mathlib
import Rulebook.Proofs.Grammar.Soundness

/-!
# No parser passes the beginning of a rule

Whether it succeeds or not, what a parser has taken holds no `rule` keyword but as the name of a
member. Only the parser of a rule takes one that begins a rule, and takes it first.
-/

namespace Rulebook.Grammar

open Rulebook.Grammar.Parser

/-- Every `rule` keyword is directly behind a dot. -/
inductive Quiet : List Token → Prop
  | nil : Quiet []
  | cons {t ts} : t.kind ≠ .eof → t.kind ≠ .keyword .rule → Quiet ts → Quiet (t :: ts)
  | named {dot t ts} : dot.kind = .mark .dot → t.kind ≠ .eof → Quiet ts → Quiet (dot :: t :: ts)

theorem Quiet.append {ts us : List Token} (h : Quiet ts) (k : Quiet us) : Quiet (ts ++ us) := by
  induction h with
  | nil => exact k
  | cons ne other _ ih => exact .cons ne other ih
  | named is ne _ ih => exact .named is ne ih

theorem Quiet.ne_eof {ts : List Token} {t : Token} (h : Quiet ts) (mem : t ∈ ts) :
    t.kind ≠ .eof := by
  induction h with
  | nil => cases mem
  | cons ne _ _ ih =>
    rcases List.mem_cons.mp mem with rfl | mem
    · exact ne
    · exact ih mem
  | named is ne _ ih =>
    rcases List.mem_cons.mp mem with rfl | mem
    · simp [is]
    rcases List.mem_cons.mp mem with rfl | mem
    · exact ne
    · exact ih mem

/-- The tokens in front of the second list are quiet. -/
def Passes (ts us : List Token) : Prop := ∃ used, ts = used ++ us ∧ Quiet used

namespace Passes

variable {ts us vs : List Token} {d t : Token}

theorem refl (ts : List Token) : Passes ts ts := ⟨[], rfl, .nil⟩

theorem trans (h : Passes ts us) (k : Passes us vs) : Passes ts vs := by
  obtain ⟨used, rfl, quiet⟩ := h
  obtain ⟨used', rfl, quiet'⟩ := k
  exact ⟨used ++ used', (List.append_assoc used used' vs).symm, quiet.append quiet'⟩

theorem rest (other : (first ts).kind ≠ .keyword .rule) : Passes ts (Parser.rest ts) := by
  by_cases ends : (first ts).kind = .eof
  · cases ts with
    | nil => exact refl []
    | cons t ts =>
      change Passes (t :: ts) (if t.isEof then t :: ts else ts)
      rw [first_cons] at ends
      rw [if_pos (Token.isEof_iff.mpr ends)]
      exact refl _
  · exact ⟨[first ts], eq_first_cons ends, .cons ends other .nil⟩

theorem dot (is : d.kind = .mark .dot) : Passes (d :: us) us :=
  ⟨[d], rfl, .cons (by simp [is]) (by simp [is]) .nil⟩

theorem name (is : d.kind = .mark .dot) (ne : t.kind ≠ .eof) : Passes (d :: t :: us) us :=
  ⟨[d, t], rfl, .named is ne .nil⟩

end Passes

/-! ## Elementary parsers -/

/-- What the parser takes from the list is quiet. -/
def QuietOn {α : Type} (p : Parser α) (ts : List Token) : Prop := Passes ts (p.on ts).2

namespace QuietOn

variable {α β : Type} {ts : List Token}

theorem bind {p : Parser α} {f : α → Parser β} (head : QuietOn p ts)
    (tail : ∀ a us, p.on ts = (.ok a, us) → QuietOn (f a) us) : QuietOn (p >>= f) ts := by
  unfold QuietOn at head ⊢
  rcases ran : p.on ts with ⟨e | a, us⟩
  · rw [on_bind_error ran]
    rwa [ran] at head
  · rw [on_bind_ok ran]
    rw [ran] at head
    exact head.trans (tail a us ran)

theorem peek {f : Token → Parser β} (tail : QuietOn (f (first ts)) ts) :
    QuietOn (Parser.peek >>= f) ts := by
  refine bind (.refl ts) fun a us ran => ?_
  cases ran
  exact tail

theorem next {f : Token → Parser β} (other : (first ts).kind ≠ .keyword .rule)
    (tail : QuietOn (f (first ts)) (rest ts)) : QuietOn (Parser.next >>= f) ts := by
  refine bind (.rest other) fun a us ran => ?_
  cases ran
  exact tail

theorem nextIf {p : Token → Bool} (other : ∀ t, p t = true → t.kind ≠ .keyword .rule)
    (ts : List Token) : QuietOn (Parser.nextIf p) ts := by
  unfold QuietOn
  rw [on_nextIf]
  split
  · next takes => exact .rest (other _ takes)
  · exact .refl ts

theorem ofMark (m : Mark) (ts : List Token) : QuietOn (Parser.nextIf (·.isMark m)) ts :=
  nextIf (fun t is => by simp [Token.isMark_iff.mp is]) ts

theorem mark (m : Mark) (ts : List Token) : QuietOn (Parser.mark m) ts := by
  unfold Parser.mark
  refine (ofMark m ts).bind fun t us _ => ?_
  cases t <;> exact .refl us

theorem ofKeyword {k : Keyword} (other : k ≠ .rule) (ts : List Token) :
    QuietOn (Parser.nextIf (·.isKeyword k)) ts :=
  nextIf (fun t is => by simpa [Token.isKeyword_iff.mp is] using other) ts

theorem keyword {k : Keyword} (other : k ≠ .rule) (ts : List Token) :
    QuietOn (Parser.keyword k) ts := by
  unfold Parser.keyword
  refine (ofKeyword other ts).bind fun t us _ => ?_
  cases t <;> exact .refl us

theorem inRule {p : Parser α} (h : QuietOn p ts) (name : String) : QuietOn (inRule name p) ts := by
  unfold QuietOn Parser.inRule at *
  rw [on_tryCatch]
  rcases ran : p.on ts with ⟨(_ | _) | _, us⟩ <;> rw [ran] at h <;> exact h

end QuietOn

/-! ## Level by level -/

variable {room : Nat}

theorem Binary.other_of_op? {b : Binary} {t : Token} {build : Build} (h : b.op? t = some build) :
    t.kind ≠ .keyword .rule := by
  obtain ⟨o, is⟩ := kind_of_op? h
  simp [is]

theorem Binary.moreParser_quiet {b : Binary}
    (operand : ∀ r < room, ∀ ts, QuietOn (b.operandParser r) ts) (left : Expr) (ts : List Token) :
    QuietOn (b.moreParser room left) ts := by
  induction room generalizing left ts with
  | zero =>
    unfold QuietOn
    rw [moreParser_zero]
    split
    · exact .refl ts
    · next op => exact .rest (other_of_op? op)
  | succ room ih =>
    unfold QuietOn
    rw [moreParser_succ]
    split
    · exact .refl ts
    · next op =>
      have right := operand room (Nat.lt_succ_self room) (rest ts)
      have more (e : Expr) (us : List Token) :=
        ih (fun r lt => operand r (Nat.lt_succ_of_lt lt)) e us
      exact (Passes.rest (other_of_op? op)).trans (right.bind fun e us _ => more _ us)

theorem Binary.parser_quiet {b : Binary}
    (operand : ∀ r ≤ room, ∀ ts, QuietOn (b.operandParser r) ts) (ts : List Token) :
    QuietOn (b.parser room) ts := by
  rw [parser_eq]
  exact (operand room le_rfl ts).bind fun left us _ =>
    moreParser_quiet (fun r lt => operand r (Nat.le_of_lt lt)) left us

theorem comparison_quiet (operand : ∀ ts, QuietOn (sum room) ts) (ts : List Token) :
    QuietOn (comparison room) ts := by
  unfold comparison
  refine (operand ts).bind fun left us _ => .peek ?_
  split
  · exact .refl us
  · next op is =>
    obtain ⟨o, is⟩ := kind_of_compareOp? is
    refine .next (by simp [is]) ((operand _).bind fun right vs _ => .peek ?_)
    split <;> exact .refl vs

theorem unary_quiet (inner : ∀ ts, QuietOn (primary room) ts)
    (smaller : ∀ r < room, ∀ ts, QuietOn (unary r) ts) (ts : List Token) :
    QuietOn (unary room) ts := by
  unfold unary
  refine .peek ?_
  split
  · exact inner ts
  · next op is =>
    obtain ⟨o, is⟩ := kind_of_unaryOp? is
    refine .next (by simp [is]) ?_
    cases room with
    | zero => exact .refl _
    | succ room =>
      exact (smaller room (Nat.lt_succ_self room) _).bind fun operand us _ => .refl us

theorem primary_quiet
    (chains : ∀ ts, (first ts).kind = .identifier → QuietOn (chain room) ts)
    (inner : ∀ ts, QuietOn (expression room) ts) (ts : List Token) : QuietOn (primary room) ts := by
  unfold primary
  refine .peek ?_
  split
  · next is => exact .next (by simp [is]) (.refl _)
  · next is => exact chains ts is
  · next is =>
    refine .next (by simp [is]) ((inner _).bind fun e us _ => ?_)
    exact (QuietOn.mark _ us).bind fun close vs _ => .refl vs
  · exact .refl ts

theorem separated_quiet (inner : ∀ ts, QuietOn (expression room) ts) (bound : List Token)
    (found : List Expr) (ts : List Token) : QuietOn (separated (expression room) bound found) ts := by
  induction bound generalizing found ts with
  | nil => exact .refl ts
  | cons _ bound ih =>
    unfold separated
    refine (inner ts).bind fun e us _ => (QuietOn.ofMark _ us).bind fun comma vs _ => ?_
    split
    · exact ih (e :: found) vs
    · refine (QuietOn.ofMark _ vs).bind fun close ws _ => ?_
      cases close <;> exact .refl ws

theorem arguments_quiet (inner : ∀ ts, QuietOn (expression room) ts) (ts : List Token) :
    QuietOn (arguments room) ts := by
  unfold arguments
  refine (QuietOn.mark _ ts).bind fun op us _ => (QuietOn.ofMark _ us).bind fun close vs _ => ?_
  cases close with
  | some close => exact .refl vs
  | none =>
    refine QuietOn.bind (.refl vs) fun bound ws _ => separated_quiet inner bound [] ws

theorem links_quiet (args : ∀ r < room, ∀ ts, QuietOn (arguments r) ts)
    (inner : ∀ r < room, ∀ ts, QuietOn (expression r) ts)
    (smaller : ∀ r < room, ∀ o ts, QuietOn (links r o) ts) (object : Expr) (ts : List Token) :
    QuietOn (links room object) ts := by
  unfold links
  by_cases dotted : (first ts).isMark .dot
  · cases ts with
    | nil => cases dotted
    | cons dot us =>
      have is : dot.kind = .mark .dot := Token.isMark_iff.mp dotted
      unfold QuietOn
      rw [on_bind_ok (on_nextIf_pos dotted (by simp [is]) us), if_pos (by rfl)]
      cases room with
      | zero => exact .dot is
      | succ room =>
        have lt := Nat.lt_succ_self room
        rw [on_bind_ok (on_peek us)]
        split
        · exact .dot is
        · next name named =>
          -- The name may be the keyword, and it is taken together with its dot.
          have ne := kind_of_name? named
          rw [eq_first_cons ne, on_bind_ok (on_next _), rest_cons ne]
          refine (Passes.name is ne).trans (QuietOn.peek ?_)
          split
          · exact (args room lt _).bind fun as vs _ => smaller room lt _ vs
          · exact smaller room lt _ _
  · refine QuietOn.bind (QuietOn.ofMark _ ts) fun dot us taken => ?_
    rw [on_nextIf_neg (by simpa using dotted)] at taken
    cases taken
    rw [if_neg (by simp)]
    refine (QuietOn.ofMark _ ts).bind fun op us _ => ?_
    split
    · cases room with
      | zero => exact .refl us
      | succ room =>
        have lt := Nat.lt_succ_self room
        refine (inner room lt us).bind fun key vs _ => ?_
        exact (QuietOn.mark _ vs).bind fun close ws _ => smaller room lt _ ws
    · exact .refl us

theorem chain_quiet (args : ∀ ts, QuietOn (arguments room) ts)
    (linked : ∀ o ts, QuietOn (links room o) ts) (ts : List Token)
    (head : (first ts).kind = .identifier) : QuietOn (chain room) ts := by
  unfold chain
  refine .next (by simp [head]) (.peek ?_)
  split
  · exact (args _).bind fun as us _ => linked _ us
  · exact linked _ _

structure QuietAt (room : Nat) : Prop where
  expression : ∀ ts, QuietOn (expression room) ts
  arguments : ∀ ts, QuietOn (arguments room) ts
  links : ∀ object ts, QuietOn (links room object) ts
  operand : ∀ (b : Binary) ts, QuietOn (b.operandParser room) ts
  whole : ∀ ts, QuietOn (disjunction room) ts

theorem expression_quiet (smaller : ∀ r < room, ∀ ts, QuietOn (disjunction r) ts)
    (ts : List Token) : QuietOn (expression room) ts := by
  unfold expression
  cases room with
  | zero => exact .refl ts
  | succ room => exact smaller room (Nat.lt_succ_self room) ts

theorem quietAt (room : Nat) : QuietAt room := by
  -- With the same room a parser calls only those settled before it here, and any with less.
  induction room using Nat.strong_induction_on with
  | _ room ih =>
    have inner := expression_quiet fun r lt => (ih r lt).whole
    have args := arguments_quiet inner
    have linked := links_quiet (fun r lt => (ih r lt).arguments) (fun r lt => (ih r lt).expression)
      fun r lt => (ih r lt).links
    have primaries := primary_quiet (chain_quiet args linked) inner
    have unaries := unary_quiet primaries fun r lt => (ih r lt).operand .product
    have upTo {b : Binary} (h : ∀ ts, QuietOn (b.operandParser room) ts) :
        ∀ r ≤ room, ∀ ts, QuietOn (b.operandParser r) ts := by
      intro r le
      rcases Nat.lt_or_eq_of_le le with lt | rfl
      · exact (ih r lt).operand b
      · exact h
    have products := Binary.parser_quiet (b := .product) (upTo unaries)
    have sums := Binary.parser_quiet (b := .sum) (upTo products)
    have comparisons := comparison_quiet sums
    have conjunctions := Binary.parser_quiet (b := .and) (upTo comparisons)
    refine ⟨inner, args, linked, ?_, Binary.parser_quiet (b := .or) (upTo conjunctions)⟩
    intro b
    cases b with
    | or => exact conjunctions
    | and => exact comparisons
    | sum => exact products
    | product => exact unaries

/-! ## Statements and rules -/

theorem statement_quiet (room : Nat) (ts : List Token) : QuietOn (statement room) ts := by
  have quiet := quietAt room
  unfold statement
  refine .peek ?_
  split
  · next head =>
    refine (chain_quiet quiet.arguments quiet.links ts head).bind fun target us _ => .peek ?_
    split
    · next assigns =>
      have assigns := Token.isOperator_iff.mp assigns
      have assigned : QuietOn (do
          let _ ← next
          let value ← expression room
          let stop ← mark .semicolon
          return Statement.assign target value (target.span.cover stop.span)) us := by
        refine .next (by simp [assigns]) ((quiet.expression _).bind fun value vs _ => ?_)
        exact (QuietOn.mark _ vs).bind fun stop ws _ => .refl ws
      split
      · exact assigned
      · exact assigned
      · exact .refl us
      · exact .refl us
    · have called : QuietOn (do
          let stop ← mark .semicolon
          return Statement.call target (target.span.cover stop.span)) us :=
        (QuietOn.mark _ us).bind fun stop vs _ => .refl vs
      split
      · exact called
      · exact called
      · exact .refl us
  · exact .refl ts

theorem statements_quiet (room : Nat) (bound : List Token) (found : List Statement)
    (ts : List Token) : QuietOn (statements room bound found) ts := by
  induction bound generalizing found ts with
  | nil => exact .refl ts
  | cons _ bound ih =>
    unfold statements
    refine .peek ?_
    split
    · exact .refl ts
    · exact (statement_quiet room ts).bind fun s us _ => ih (s :: found) us

theorem description_quiet (ts : List Token) : QuietOn description ts := by
  unfold description
  refine .peek ?_
  split
  · next is => exact .next (by simp [is]) (.refl _)
  · exact .refl ts

theorem salience_quiet (ts : List Token) : QuietOn salience ts := by
  unfold salience
  have minus := QuietOn.nextIf (p := (·.isOperator .minus))
    (fun t is => by simp [Token.isOperator_iff.mp is]) ts
  refine minus.bind fun sign us _ => .peek ?_
  split
  · next is => exact .next (by simp [is]) (.refl _)
  · exact .refl us
  · exact .refl us

theorem declaredSalience_quiet (ts : List Token) : QuietOn declaredSalience ts := by
  unfold declaredSalience
  refine (QuietOn.ofKeyword (by decide) ts).bind fun word us _ => ?_
  split
  · exact salience_quiet us
  · exact .refl us

theorem ruleBody_quiet (room : Nat) (start : Token) (name : String) (ts : List Token) :
    QuietOn (ruleBody room start name) ts := by
  unfold ruleBody
  refine (description_quiet ts).bind fun d us _ => ?_
  refine (declaredSalience_quiet us).bind fun n us _ => (QuietOn.mark _ us).bind fun op us _ => ?_
  refine (QuietOn.keyword (by decide) us).bind fun word us _ => ?_
  refine ((quietAt room).expression us).bind fun condition us _ => ?_
  refine (QuietOn.keyword (by decide) us).bind fun word us _ => ?_
  refine QuietOn.bind (.refl us) fun bound us _ => ?_
  refine (statements_quiet room bound [] us).bind fun actions us _ => ?_
  split
  · exact .refl us
  · exact (QuietOn.mark _ us).bind fun close us _ => .refl us

/-- An attempt takes nothing, or the keyword and then quiet tokens. -/
theorem rule_passes (room : Nat) (ts : List Token) :
    ((rule room).on ts).2 = ts ∨
      ∃ start us, ts = start :: us ∧ start.kind = .keyword .rule ∧
        Passes us ((rule room).on ts).2 := by
  unfold rule ruleKeyword
  by_cases starts : (first ts).isKeyword .rule
  · right
    cases ts with
    | nil => cases starts
    | cons start us =>
      have is : start.kind = .keyword .rule := Token.isKeyword_iff.mp starts
      refine ⟨start, us, rfl, is, ?_⟩
      have keyword : ruleKeyword.on (start :: us) = (.ok start, us) := by
        unfold ruleKeyword
        rw [on_bind_ok (on_nextIf_pos starts (by simp [is]) us)]
        rfl
      unfold ruleKeyword at keyword
      rw [on_bind_ok keyword]
      refine (QuietOn.nextIf (fun t is => ?_) us).bind fun name vs _ => ?_
      · cases kind : t.kind <;> simp [kind] at is ⊢
      · split
        · exact (ruleBody_quiet room start _ vs).inRule _
        · exact .refl vs
  · left
    rw [on_bind, on_bind, on_nextIf_neg (by simpa using starts)]
    rfl

end Rulebook.Grammar
