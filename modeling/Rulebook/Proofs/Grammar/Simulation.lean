import Mathlib
import Rulebook.Proofs.Grammar.Soundness
import Rulebook.Proofs.Grammar.Steps

/-!
# The machine reads what the parsers read

From a state whose tokens end, a reader of the machine ends, and with the same result as the parser
that is given the tokens from the cursor on and the room that the counter leaves. Trees agree up to
a map that says what the signs are that the machine makes.

One lemma for each reader, from what holds of those that it calls, then an induction on the room.
-/

namespace Rulebook

namespace Statement

def map (f : Expr → Expr) : Statement → Statement
  | assign target value span => assign (f target) (f value) span
  | call e span => call (f e) span

end Statement

namespace Rule

def map (f : Expr → Expr) (r : Rule) : Rule :=
  { r with condition := f r.condition, actions := r.actions.map (Statement.map f) }

end Rule

namespace Grammar

/-- The only fault that shows a tree is an assignment to a call. -/
def Fault.map (f : Expr → Expr) : Fault → Fault
  | assignToCall target => assignToCall (f target)
  | other => other

namespace Cursor

open Rulebook.Grammar.Parser (first on on_bind on_bind_ok on_bind_error on_peek on_next on_nextIf
  on_nextIf_pos on_nextIf_neg on_bind_eq_ok)
open Rulebook.Grammar.Cursor.State (next_rule)

/-- A map that takes trees with signs of their own to those of the grammar. -/
structure Image (sign : Cursor) (f : Expr → Expr) : Prop where
  span : ∀ e, (f e).span = e.span
  withSpan : ∀ e s, f (e.withSpan s) = (f e).withSpan s
  literal : ∀ v s, f (.literal v s) = .literal v s
  ident : ∀ n s, f (.ident n s) = .ident n s
  sign : ∀ op e s, f (sign op e s) = signed op (f e) s
  unary : ∀ op e s, (∃ v, f (.unary op e s) = .literal v s) ∨
    ∃ o e', f (.unary op e s) = .unary o e' s
  arith : ∀ op l r s, f (.arith op l r s) = .arith op (f l) (f r) s
  compare : ∀ op l r s, f (.compare op l r s) = .compare op (f l) (f r) s
  logic : ∀ op l r s, f (.logic op l r s) = .logic op (f l) (f r) s
  member : ∀ o n s, f (.member o n s) = .member (f o) n s
  index : ∀ o k s, f (.index o k s) = .index (f o) (f k) s
  call : ∀ n as s, f (.call n as s) = .call n (as.map f) s
  method : ∀ o n as s, f (.method o n as s) = .method (f o) n (as.map f) s

theorem image_signed : Image signed id := by
  constructor <;> simp

theorem Image.build {sign : Cursor} {f : Expr → Expr} (image : Image sign f)
    {b : Binary} {t : Token} {build : Build} (op : b.op? t = some build) (l r : Expr) :
    f (build l r) = build (f l) (f r) := by
  rcases Binary.build_cases op with ⟨o, rfl⟩ | ⟨o, rfl⟩
  · simp only [covering, image.logic, image.span]
  · simp only [covering, image.arith, image.span]

variable {α β γ δ : Type} {f : Expr → Expr} {base : Nat}

/-! ## Agreement -/

/-- Both give a result, or both stop for the same reason. -/
inductive Agrees (f : Expr → Expr) (named : Option String → Option String → Prop)
    (blamed : Span → Prop) (R : α → β → Prop) : Except Stop α → Except Stop β → Prop
  | ok {a b} : R a b → Agrees f named blamed R (.ok a) (.ok b)
  | tooDeep : Agrees f named blamed R (.error .tooDeep) (.error .tooDeep)
  | refused {fault span n m} : named n m → blamed span →
      Agrees f named blamed R (.error (.refused fault span n))
        (.error (.refused (fault.map f) span m))

/-- The parsers leave it to others to say of which rule a fault is. -/
def Unnamed (rule n m : Option String) : Prop := n = rule ∧ m = none

/-- From this state the reader ends in another one, as the parser does on the tokens. There the
spans of its faults are what they should be. -/
def Simulates (f : Expr → Expr) (base : Nat) (B : State → Span → Prop) (R : State → α → β → Prop)
    (q : Run (Except Stop α)) (p : Parser β) (s : State) : Prop :=
  ∃ r t r', Ends q s r t ∧ Leads base 0 s t ∧ t.rule = s.rule ∧ p.on s.rest = (r', t.rest) ∧
    Agrees f (Unnamed s.rule) (B t) (R t) r r'

/-- The span of the next token. -/
def AtNext (t : State) (span : Span) : Prop := span = (first t.rest).span

/-- The same, with levels that are still to be left, which are added to a count. -/
def SimulatesOpen (f : Expr → Expr) (base : Nat) (R : State → α → β → Prop)
    (q : Run (Except Stop α × Nat)) (count : Nat) (p : Parser β) (s : State) : Prop :=
  ∃ r n t r', Ends q s (r, count + n) t ∧ Leads base n s t ∧ t.rule = s.rule ∧
    p.on s.rest = (r', t.rest) ∧ Agrees f (Unnamed s.rule) (AtNext t) (R t) r r'

/-- One tree is the image of the other. -/
def Tree (f : Expr → Expr) (_ : State) (e e' : Expr) : Prop := e' = f e

/-- The span of the closing parenthesis is that of the token before the cursor. -/
def Listed (f : Expr → Expr) (t : State) (es : List Expr) (out : List Expr × Span) : Prop :=
  out.1 = es.map f ∧ Ends previous t out.2 t

namespace Simulates

variable {B : State → Span → Prop} {R : State → α → β → Prop} {S : State → γ → δ → Prop}
  {s t : State}

/-- A sequence whose second half stops where the first does. -/
theorem bind {q : Run (Except Stop α)} {k : Except Stop α → Run (Except Stop γ)} {p : Parser β}
    {h : β → Parser δ} (head : Simulates f base B R q p s)
    (stops : ∀ e, k (.error e) = pure (.error e))
    (tail : ∀ a b t, R t a b → Leads base 0 s t → p.on s.rest = (.ok b, t.rest) →
      Simulates f base B S (k (.ok a)) (h b) t) : Simulates f base B S (q >>= k) (p >>= h) s := by
  obtain ⟨r, t, r', ran, leads, same, read, agrees⟩ := head
  cases agrees with
  | ok related =>
    obtain ⟨r, u, r', ran', leads', same', read', agrees⟩ := tail _ _ t related leads read
    refine ⟨r, u, r', ran.bind ran', leads.trans leads', same'.trans same, ?_, same ▸ agrees⟩
    rw [on_bind_ok read, read']
  | tooDeep =>
    exact ⟨_, t, _, ran.bind (by rw [stops]; exact .pure _ t), leads, same, on_bind_error read _,
      .tooDeep⟩
  | refused named blamed =>
    exact ⟨_, t, _, ran.bind (by rw [stops]; exact .pure _ t), leads, same, on_bind_error read _,
      .refused named blamed⟩

theorem andThen {q : Reader α} {g : α → Reader γ} {p : Parser β} {h : β → Parser δ}
    (head : Simulates f base B R q.run p s)
    (tail : ∀ a b t, R t a b → Leads base 0 s t → p.on s.rest = (.ok b, t.rest) →
      Simulates f base B S (g a).run (h b) t) : Simulates f base B S (q >>= g).run (p >>= h) s :=
  bind (k := ExceptT.bindCont g) head (fun _ => rfl) tail

theorem pure {a : α} {b : β} (ready : s.Ready) (h : R s a b) :
    Simulates f base B R (pure (.ok a)) (pure b) s :=
  ⟨_, s, _, .pure _ s, .refl ready, rfl, rfl, .ok h⟩

/-- A step that both make, in a run. -/
theorem step {q : Run α} {k : α → Run (Except Stop γ)} {p : Parser δ} {a : α}
    (ran : Ends q s a t) (leads : Leads base 0 s t) (same : t.rule = s.rule)
    {r : Parser δ} (read : r.on s.rest = p.on t.rest) {S : State → γ → δ → Prop}
    (tail : Simulates f base B S (k a) p t) : Simulates f base B S (q >>= k) r s := by
  obtain ⟨r, u, r', ran', leads', same', read', agrees⟩ := tail
  exact ⟨r, u, r', ran.bind ran', leads.trans leads', same'.trans same, read.trans read',
    same ▸ agrees⟩

/-- A step that both make, in a reader. -/
theorem lift {q : Run α} {g : α → Reader γ} {p : Parser δ} {a : α}
    (ran : Ends q s a t) (leads : Leads base 0 s t) (same : t.rule = s.rule)
    {r : Parser δ} (read : r.on s.rest = p.on t.rest) {S : State → γ → δ → Prop}
    (tail : Simulates f base B S (g a).run p t) :
    Simulates f base B S ((liftM q : Reader α) >>= g).run r s :=
  step (k := ExceptT.bindCont g) ran.lift leads same read tail

theorem peek {g : Token → Reader γ} {h : Token → Parser δ} (ready : s.Ready)
    (tail : Simulates f base B S (g (first s.rest)).run (h (first s.rest)) s) :
    Simulates f base B S ((liftM Cursor.peek : Reader Token) >>= g).run (Parser.peek >>= h) s :=
  lift (ends_peek ready) (.refl ready) rfl (on_bind_ok (on_peek _) h) tail

theorem advance {g : Token → Reader γ} {h : Token → Parser δ} (ready : s.Ready)
    (tail : Simulates f base B S (g (first s.rest)).run (h (first s.rest)) s.next) :
    Simulates f base B S ((liftM Cursor.advance : Reader Token) >>= g).run
      (Parser.next >>= h) s := by
  refine lift (ends_advance ready) (.next ready) (next_rule s) ?_ tail
  rw [on_bind_ok (on_next _), ready.rest_next]

theorem eat {p : Token → Bool} {g : Bool → Reader γ} {h : Option Token → Parser δ}
    (ready : s.Ready)
    (hit : p (first s.rest) = true →
      Simulates f base B S (g true).run (h (some (first s.rest))) s.next)
    (miss : p (first s.rest) = false → Simulates f base B S (g false).run (h none) s) :
    Simulates f base B S ((liftM (Cursor.eat p) : Reader Bool) >>= g).run
      (Parser.nextIf p >>= h) s := by
  have ate := ends_eat ready p
  cases is : p (first s.rest) with
  | true =>
    rw [is, if_pos rfl] at ate
    refine lift ate (.next ready) (next_rule s) ?_ (hit is)
    rw [on_bind, on_nextIf, if_pos is, ready.rest_next]
  | false =>
    rw [is, if_neg Bool.false_ne_true] at ate
    exact lift ate (.refl ready) rfl (on_bind_ok (on_nextIf_neg is) h) (miss is)

theorem congr {q : Run (Except Stop α)} {p r : Parser β} (h : Simulates f base B R q p s)
    (read : r.on s.rest = p.on s.rest) : Simulates f base B R q r s := by
  obtain ⟨r, t, r', ran, leads, same, read', agrees⟩ := h
  exact ⟨r, t, r', ran, leads, same, read.trans read', agrees⟩

theorem refuse {R : State → α → β → Prop} (ready : s.Ready) (fault : Fault) {span : Span}
    (blamed : B s span) :
    Simulates f base B R (Cursor.refuse fault span : Reader α).run
      (Parser.refuse (fault.map f) span) s :=
  ⟨_, s, _, ends_refuse fault span s, .refl ready, rfl, rfl, .refused ⟨rfl, rfl⟩ blamed⟩

theorem expected {R : State → α → β → Prop} (ready : s.Ready) (what : Expected)
    (blamed : B s (first s.rest).span) :
    Simulates f base B R (Cursor.expected what : Reader α).run (Parser.expected what) s :=
  ⟨_, s, _, ends_expected ready what, .refl ready, rfl, rfl, .refused ⟨rfl, rfl⟩ blamed⟩

/-- A token that passes a test, or a fault. -/
theorem expect {p : Token → Bool} {what : Expected} {q : Parser Token} (ready : s.Ready)
    (blamed : B s (first s.rest).span)
    (reads : ∀ ts, q.on ts = if p (first ts) then (.ok (first ts), Parser.rest ts)
      else (.error (.refused (.expected what (first ts)) (first ts).span none), ts)) :
    Simulates f base B (fun _ a b => b = a) (Cursor.expect p what).run q s := by
  cases is : p (first s.rest) with
  | true =>
    refine ⟨_, _, _, ends_expect_pos ready what is, .next ready, next_rule s, ?_, .ok rfl⟩
    rw [reads, if_pos is, ready.rest_next]
  | false =>
    refine ⟨_, _, _, ends_expect_neg ready what is, .refl ready, rfl, ?_,
      .refused ⟨rfl, rfl⟩ blamed⟩
    rw [reads, is, if_neg Bool.false_ne_true]
    rfl

theorem mark (ready : s.Ready) (m : Mark) (blamed : B s (first s.rest).span) :
    Simulates f base B (fun _ a b => b = a) (Cursor.mark m).run (Parser.mark m) s := by
  refine expect ready blamed fun ts => ?_
  unfold Parser.mark
  rw [on_bind, on_nextIf]
  cases (first ts).isMark m <;> rfl

theorem keyword (ready : s.Ready) (k : Keyword) (blamed : B s (first s.rest).span) :
    Simulates f base B (fun _ a b => b = a) (Cursor.keyword k).run (Parser.keyword k) s := by
  refine expect ready blamed fun ts => ?_
  unfold Parser.keyword
  rw [on_bind, on_nextIf]
  cases (first ts).isKeyword k <;> rfl

end Simulates

/-! ## Levels that are open -/

/-- All levels that are open are left again. -/
theorem ends_leaveAll {n : Nat} {s t : State} (h : Leads base n s t) (le : base ≤ s.depth.level) :
    ∃ u, Ends (leaveAll n) t () u ∧ Leads base 0 s u ∧ u.rest = t.rest ∧ u.rule = t.rule := by
  induction n generalizing t with
  | zero => exact ⟨t, .pure () t, h, rfl, rfl⟩
  | succ n ih =>
    obtain ⟨u, ran, leads, same, rule⟩ := ih (h.left le)
    exact ⟨u, (ends_leave t).bind ran, leads, same, rule⟩

namespace SimulatesOpen

variable {R : State → α → β → Prop} {S : State → γ → δ → Prop} {s t : State} {count : Nat}

theorem close {R : Expr → Expr → Prop} {p : Parser Expr} {q : Run (Except Stop Expr × Nat)}
    {k : Except Stop Expr × Nat → Run (Except Stop Expr)}
    (h : SimulatesOpen f base (fun _ => R) q 0 p s) (le : base ≤ s.depth.level)
    (closes : ∀ r n, k (r, n) = do leaveAll n; return r) :
    Simulates f base AtNext (fun _ => R) (q >>= k) p s := by
  obtain ⟨r, n, t, r', ran, leads, same, read, agrees⟩ := h
  obtain ⟨u, left, leads, rest, rule⟩ := ends_leaveAll leads le
  have blamed : AtNext t = AtNext u := by
    unfold AtNext
    rw [rest]
  refine ⟨r, u, r', ran.bind ?_, leads, rule.trans same, rest ▸ read, blamed ▸ agrees⟩
  rw [closes, Nat.zero_add]
  exact left.bind (.pure r u)

theorem ok {a : α} {b : β} {p : Parser β} (ready : s.Ready) (read : p.on s.rest = (.ok b, s.rest))
    (h : R s a b) : SimulatesOpen f base R (pure (.ok a, count)) count p s :=
  ⟨_, 0, s, _, .pure _ s, .refl ready, rfl, read, .ok h⟩

theorem tooDeep {p : Parser β} (ready : s.Ready)
    (read : p.on s.rest = (.error .tooDeep, s.rest)) :
    SimulatesOpen f base R (pure (.error .tooDeep, count)) count p s :=
  ⟨_, 0, s, _, .pure _ s, .refl ready, rfl, read, .tooDeep⟩

/-- A step that both make, with the levels that it enters. -/
theorem step {q : Run α} {k : α → Run (Except Stop γ × Nat)} {p r : Parser δ} {a : α} {n : Nat}
    (ran : Ends q s a t) (leads : Leads base n s t) (same : t.rule = s.rule)
    (read : r.on s.rest = p.on t.rest) (tail : SimulatesOpen f base S (k a) (count + n) p t) :
    SimulatesOpen f base S (q >>= k) count r s := by
  obtain ⟨r, m, u, r', ran', leads', same', read', agrees⟩ := tail
  rw [Nat.add_assoc] at ran'
  exact ⟨r, n + m, u, r', ran.bind ran', leads.trans leads', same'.trans same, read.trans read',
    same ▸ agrees⟩

theorem bind {q : Run (Except Stop α)} {k : Except Stop α → Run (Except Stop γ × Nat)}
    {p : Parser β} {h : β → Parser δ} (head : Simulates f base AtNext R q p s)
    (stops : ∀ e, k (.error e) = pure (.error e, count))
    (tail : ∀ a b t, R t a b → Leads base 0 s t →
      SimulatesOpen f base S (k (.ok a)) count (h b) t) :
    SimulatesOpen f base S (q >>= k) count (p >>= h) s := by
  obtain ⟨r, t, r', ran, leads, same, read, agrees⟩ := head
  cases agrees with
  | ok related =>
    exact step ran leads same (on_bind_ok read h) (tail _ _ t related leads)
  | tooDeep =>
    exact ⟨_, 0, t, _, ran.bind (by rw [stops]; exact .pure _ t), leads, same,
      on_bind_error read _, .tooDeep⟩
  | refused named blamed =>
    exact ⟨_, 0, t, _, ran.bind (by rw [stops]; exact .pure _ t), leads, same,
      on_bind_error read _, .refused named blamed⟩

/-- A level is entered, and counted as open. -/
theorem enter {k : Except Stop Unit → Run (Except Stop γ × Nat)} {p : Parser δ} {room : Nat}
    (h : Stands base (room + 1) s)
    (tail : SimulatesOpen f base S (k (.ok ())) (count + 1) p s.entered) :
    SimulatesOpen f base S (Cursor.enter.run >>= k) count p s :=
  step h.enters h.entering rfl rfl tail

theorem enter_deep {k : Except Stop Unit → Run (Except Stop γ × Nat)} {p : Parser δ}
    (h : Stands base 0 s) (stops : k (.error .tooDeep) = Pure.pure (.error .tooDeep, count))
    (read : p.on s.rest = (.error .tooDeep, s.rest)) :
    SimulatesOpen f base S (Cursor.enter.run >>= k) count p s :=
  step (ends_enter_deep h.room_eq) (.refl h.ready) rfl rfl (stops ▸ tooDeep h.ready read)

/-- A token is taken if it passes a test. -/
theorem eat {p : Token → Bool} {k : Bool → Run (Except Stop γ × Nat)} {r : Parser δ}
    (ready : s.Ready)
    (hit : p (first s.rest) = true → ∃ m : Parser δ, r.on s.rest = m.on s.next.rest ∧
      SimulatesOpen f base S (k true) count m s.next)
    (miss : p (first s.rest) = false → SimulatesOpen f base S (k false) count r s) :
    SimulatesOpen f base S (Cursor.eat p >>= k) count r s := by
  have ate := ends_eat ready p
  cases is : p (first s.rest) with
  | true =>
    rw [is, if_pos rfl] at ate
    obtain ⟨m, read, tail⟩ := hit is
    exact step ate (.next ready) (next_rule s) read tail
  | false =>
    rw [is, if_neg Bool.false_ne_true] at ate
    exact step ate (.refl ready) rfl rfl (miss is)

end SimulatesOpen

/-! ## Level by level -/

/-- With this room, wherever the counter starts. -/
def Mirrors (f : Expr → Expr) (base : Nat) (R : State → α → β → Prop) (q : Run (Except Stop α))
    (p : Parser β) (room : Nat) : Prop :=
  ∀ s : State, Stands base room s → Simulates f base AtNext R q p s

section

variable {sign : Cursor} {room : Nat} {s : State}

theorem folds_of_none {b : Binary} (op : b.op? (first s.rest) = none) (ready : s.Ready)
    (left : Expr) (folded : Nat) :
    SimulatesOpen f base (Tree f) (folds sign b left folded) folded
      (b.moreParser room (f left)) s := by
  rw [folds]
  refine .step (ends_peek ready) (.refl ready) rfl rfl ?_
  rw [op]
  exact .ok ready (Binary.moreParser_of_none op _ _) rfl

theorem folds_simulates {b : Binary} (image : Image sign f)
    (operands : ∀ r < room, Mirrors f base (Tree f) (operand sign b) (b.operandParser r) r)
    (left : Expr) (folded : Nat) (stands : Stands base room s) :
    SimulatesOpen f base (Tree f) (folds sign b left folded) folded
      (b.moreParser room (f left)) s := by
  have ready := stands.ready
  induction room generalizing left folded s with
  | zero =>
    rcases op : b.op? (first s.rest) with _ | build
    · exact folds_of_none op ready left folded
    rw [folds]
    refine .step (ends_peek ready) (.refl ready) rfl rfl ?_
    rw [op]
    refine .step (ends_advance ready) (.next ready) (next_rule s) (p := throw .tooDeep) ?_
      (.enter_deep stands.next rfl rfl)
    rw [Binary.moreParser_zero, op, ready.rest_next]
    rfl
  | succ room ih =>
    rcases op : b.op? (first s.rest) with _ | build
    · exact folds_of_none op ready left folded
    rw [folds]
    refine .step (ends_peek ready) (.refl ready) rfl rfl ?_
    rw [op]
    refine .step (ends_advance ready) (.next ready) (next_rule s)
      (p := do b.moreParser room (build (f left) (← b.operandParser room))) ?_
      (.enter stands.next ?_)
    · rw [Binary.moreParser_succ, op, ready.rest_next]
    · refine .bind (operands room (Nat.lt_succ_self room) _ stands.next.entered) (fun _ => rfl)
        fun right _ t tree leads => ?_
      cases tree
      rw [← image.build op]
      exact ih (fun r lt => operands r (Nat.lt_succ_of_lt lt)) _ _
        (stands.next.entered.leads leads) leads.ready

theorem level_simulates {b : Binary} (image : Image sign f)
    (operands : ∀ r ≤ room, Mirrors f base (Tree f) (operand sign b) (b.operandParser r) r) :
    Mirrors f base (Tree f) (level sign b) (b.parser room) room := by
  intro s stands
  rw [level, Binary.parser_eq]
  refine .bind (operands room le_rfl s stands) (fun _ => rfl) fun left _ t tree leads _ => ?_
  cases tree
  have stands := stands.leads leads
  have goesOn := folds_simulates image (fun r lt => operands r (Nat.le_of_lt lt)) left 0 stands
  exact goesOn.close stands.base_le fun _ _ => rfl

theorem comparison_simulates (image : Image sign f)
    (sums : Mirrors f base (Tree f) (level sign .sum) (Grammar.sum room) room) :
    Mirrors f base (Tree f) (comparison sign).run (Grammar.comparison room) room := by
  intro s stands
  rw [comparison]
  unfold Grammar.comparison
  refine .andThen (sums s stands) fun left _ t tree leads _ => .peek leads.ready ?_
  cases tree
  rcases compareOp? (first t.rest) with _ | op
  · exact .pure leads.ready rfl
  have stands := stands.leads leads
  refine .advance stands.ready (.andThen (sums _ stands.next) fun right _ u tree leads _ => ?_)
  cases tree
  refine .peek leads.ready ?_
  split
  · exact .refuse leads.ready _ rfl
  · refine .pure leads.ready ?_
    rw [Tree, image.compare, image.span, image.span]

/-- The level that was entered is left behind what is read in it. -/
theorem Simulates.leaving {R : State → α → β → Prop} {q : Run (Except Stop α)} {p : Parser β}
    (h : Simulates f base AtNext R q p s.entered) (stands : Stands base (room + 1) s) :
    ∃ r t r', Ends q s.entered r t ∧ Leads base 0 s t.left ∧ t.rule = s.rule ∧
      p.on s.rest = (r', t.rest) ∧ Agrees f (Unnamed s.rule) (AtNext t) (R t) r r' := by
  obtain ⟨r, t, r', ran, leads, same, read, agrees⟩ := h
  exact ⟨r, t, r', ran, (stands.entering.trans leads).left stands.base_le, same, read, agrees⟩

theorem expression_simulates
    (whole : ∀ r < room, Mirrors f base (Tree f) (level sign .or) (disjunction r) r) :
    Mirrors f base (Tree f) (expression sign) (Grammar.expression room) room := by
  intro s stands
  rw [expression]
  unfold Grammar.expression
  cases room with
  | zero =>
    exact ⟨_, s, _, (ends_enter_deep stands.room_eq).bind (.pure _ s), .refl stands.ready, rfl, rfl,
      .tooDeep⟩
  | succ room =>
    obtain ⟨r, t, r', ran, leads, same, read, agrees⟩ :=
      (whole room (Nat.lt_succ_self room) _ stands.entered).leaving stands
    exact ⟨r, t.left, r', stands.enters.bind (ran.bind ((ends_leave t).bind (.pure r _))), leads,
      same, read, agrees⟩

theorem unary_simulates (image : Image sign f)
    (inner : Mirrors f base (Tree f) (primary sign).run (Grammar.primary room) room)
    (smaller : ∀ r < room, Mirrors f base (Tree f) (unary sign) (Grammar.unary r) r) :
    Mirrors f base (Tree f) (unary sign) (Grammar.unary room) room := by
  intro s stands
  have ready := stands.ready
  rw [unary]
  unfold Grammar.unary
  refine .step (ends_peek ready) (.refl ready) rfl (on_bind_ok (on_peek _) _) ?_
  rcases unaryOp? (first s.rest) with _ | op
  · exact inner s stands
  refine .step (ends_advance ready) (.next ready) (next_rule s)
    ((on_bind_ok (on_next _) _).trans (by rw [ready.rest_next])) ?_
  have stands := stands.next
  cases room with
  | zero =>
    exact ⟨_, _, _, (ends_enter_deep stands.room_eq).bind (.pure _ _), .refl stands.ready, rfl, rfl,
      .tooDeep⟩
  | succ room =>
    obtain ⟨r, t, r', ran, leads, same, read, agrees⟩ :=
      (smaller room (Nat.lt_succ_self room) _ stands.entered).leaving stands
    cases agrees with
    | ok tree =>
      cases tree
      refine ⟨_, t.left, _, stands.enters.bind (ran.bind ((ends_leave t).bind (.pure _ _))), leads,
        same, on_bind_ok read _, .ok ?_⟩
      rw [Tree, image.sign, image.span]
    | tooDeep =>
      exact ⟨_, t.left, _, stands.enters.bind (ran.bind ((ends_leave t).bind (.pure _ _))), leads,
        same, on_bind_error read _, .tooDeep⟩
    | refused named blamed =>
      exact ⟨_, t.left, _, stands.enters.bind (ran.bind ((ends_leave t).bind (.pure _ _))), leads,
        same, on_bind_error read _, .refused named blamed⟩

theorem primary_simulates (image : Image sign f)
    (chains : ∀ s, Stands base room s → (first s.rest).kind = .identifier →
      Simulates f base AtNext (Tree f) (chain sign) (Grammar.chain room) s)
    (inner : Mirrors f base (Tree f) (expression sign) (Grammar.expression room) room) :
    Mirrors f base (Tree f) (primary sign).run (Grammar.primary room) room := by
  intro s stands
  rw [primary]
  unfold Grammar.primary
  refine .peek stands.ready ?_
  rcases kind : (first s.rest).kind with _ | k | v | o | m | _
  · exact chains s stands kind
  · exact .expected stands.ready _ rfl
  · refine .advance stands.ready (.pure stands.next.ready ?_)
    exact (image.literal _ _).symm
  · exact .expected stands.ready _ rfl
  · cases m with
    | openParen =>
      refine .advance stands.ready (.andThen (inner _ stands.next) fun e _ t tree leads _ => ?_)
      cases tree
      refine .andThen (.mark leads.ready _ rfl) fun close _ u same leads _ => ?_
      cases same
      exact .pure leads.ready (image.withSpan _ _).symm
    | _ => exact .expected stands.ready _ rfl
  · exact .expected stands.ready _ rfl

/-- A list of arguments goes on as long as its tokens do. -/
theorem separated_simulates
    (inner : Mirrors f base (Tree f) (expression sign) (Grammar.expression room) room)
    (bound : List Token) (found : List Expr) (stands : Stands base room s)
    (enough : s.rest.length ≤ bound.length) :
    Simulates f base AtNext (Listed f) (separated sign found).run
      (Grammar.separated (Grammar.expression room) bound (found.map f)) s := by
  induction bound generalizing found s with
  | nil =>
    exact (stands.ready.rest_ne_nil (List.eq_nil_of_length_eq_zero (Nat.le_zero.mp enough))).elim
  | cons x bound ih =>
    rw [separated]
    unfold Grammar.separated
    refine .andThen (inner s stands) fun e _ t tree leads read => ?_
    cases tree
    have stands := stands.leads leads
    obtain ⟨r, rfl, derived⟩ := (soundAt room).expression _ _ _ read
    have lt := (derived.derives.takesSome trivial).length_lt
    have moves : Leads base 0 t t.next := .next stands.ready
    have le := moves.length_rest_le
    rw [List.length_cons] at enough
    refine .eat stands.ready (fun comma => ?_) fun _ =>
      .eat stands.ready (fun close => ?_) fun _ => ?_
    · exact ih (e :: found) stands.next (by omega)
    · refine .pure stands.next.ready ⟨?_, ends_previous stands.ready ?_⟩
      · rw [List.map_reverse, List.map_cons]
      · simp [Token.isMark_iff.mp close]
    · exact .expected stands.ready _ rfl

theorem arguments_simulates
    (inner : Mirrors f base (Tree f) (expression sign) (Grammar.expression room) room) :
    Mirrors f base (Listed f) (arguments sign).run (Grammar.arguments room) room := by
  intro s stands
  rw [arguments]
  unfold Grammar.arguments
  refine .andThen (.mark stands.ready _ rfl) fun opening _ t same leads _ => ?_
  have stands := stands.leads leads
  refine .eat stands.ready (fun close => ?_) fun _ => ?_
  · refine .pure stands.next.ready ⟨rfl, ends_previous stands.ready ?_⟩
    simp [Token.isMark_iff.mp close]
  · exact (separated_simulates inner t.rest [] stands le_rfl).congr rfl

/-! ## Chains -/

/-! Links cover what stands before them, so a chain starts where its name does. -/

theorem start_of_member {object e : Expr} {ts us : List Token}
    (h : (memberParser room object).on ts = (.ok e, us)) : e.span.start = object.span.start := by
  unfold memberParser at h
  rw [on_bind_ok (on_peek ts)] at h
  split at h
  · cases h
  rw [on_bind_ok (on_next ts), on_bind_ok (on_peek _)] at h
  split at h
  · obtain ⟨⟨args, close⟩, vs, -, h⟩ := on_bind_eq_ok.mp h
    cases h
    rfl
  · cases h
    rfl

theorem start_of_index {object e : Expr} {ts us : List Token}
    (h : (indexParser room object).on ts = (.ok e, us)) : e.span.start = object.span.start := by
  unfold indexParser at h
  obtain ⟨key, vs, -, h⟩ := on_bind_eq_ok.mp h
  obtain ⟨close, ws, -, h⟩ := on_bind_eq_ok.mp h
  cases h
  rfl

theorem start_of_links {object e : Expr} {ts us : List Token}
    (h : (links room object).on ts = (.ok e, us)) : e.span.start = object.span.start := by
  induction room generalizing object ts with
  | zero =>
    rw [links_on] at h
    split at h
    · cases h
    split at h
    · cases h
    · cases h
      rfl
  | succ room ih =>
    rw [links_on] at h
    split at h
    · obtain ⟨o, vs, linked, h⟩ := on_bind_eq_ok.mp h
      exact (ih h).trans (start_of_member linked)
    split at h
    · obtain ⟨o, vs, linked, h⟩ := on_bind_eq_ok.mp h
      exact (ih h).trans (start_of_index linked)
    · cases h
      rfl

theorem start_of_chain {e : Expr} {ts us : List Token}
    (h : (Grammar.chain room).on ts = (.ok e, us)) : e.span.start = (first ts).span.start := by
  rw [chain_eq] at h
  obtain ⟨o, vs, headed, h⟩ := on_bind_eq_ok.mp h
  refine (start_of_links h).trans ?_
  unfold headParser at headed
  rw [on_bind_ok (on_next ts), on_bind_ok (on_peek _)] at headed
  split at headed
  · obtain ⟨⟨args, close⟩, ws, -, headed⟩ := on_bind_eq_ok.mp headed
    cases headed
    rfl
  · cases headed
    rfl

theorem chainHead_simulates (image : Image sign f)
    (args : Mirrors f base (Listed f) (arguments sign).run (Grammar.arguments room) room)
    (stands : Stands base room s) (head : (first s.rest).kind = .identifier) :
    Simulates f base AtNext (Tree f) (chainHead sign).run (headParser room) s := by
  rw [chainHead]
  unfold headParser
  refine .step (k := ExceptT.bindCont _)
    (ends_expect_pos stands.ready .identifier (by rw [head])) (.next stands.ready)
    (next_rule s) ((on_bind_ok (on_next _) _).trans (by rw [stands.ready.rest_next])) ?_
  have stands := stands.next
  refine .peek stands.ready ?_
  split
  · refine .andThen (args _ stands) fun as out t listed leads _ => ?_
    obtain ⟨as', close⟩ := out
    obtain ⟨same, behind⟩ := listed
    cases same
    refine .lift behind (.refl leads.ready) rfl rfl (.pure leads.ready ?_)
    exact (image.call _ _ _).symm
  · exact .pure stands.ready (image.ident _ _).symm

theorem memberLink_simulates (image : Image sign f)
    (args : Mirrors f base (Listed f) (arguments sign).run (Grammar.arguments room) room)
    (object : Expr) :
    Mirrors f base (Tree f) (memberLink sign object).run (memberParser room (f object)) room := by
  intro s stands
  rw [memberLink]
  unfold memberParser
  refine .peek stands.ready ?_
  rcases (first s.rest).name? with _ | name
  · exact .expected stands.ready _ rfl
  refine .advance stands.ready (.peek stands.next.ready ?_)
  have stands := stands.next
  split
  · refine .andThen (args _ stands) fun as out t listed leads _ => ?_
    obtain ⟨as', close⟩ := out
    obtain ⟨same, behind⟩ := listed
    cases same
    refine .lift behind (.refl leads.ready) rfl rfl (.pure leads.ready ?_)
    rw [Tree, image.method, image.span]
  · refine .pure stands.ready ?_
    rw [Tree, image.member, image.span]

theorem indexLink_simulates (image : Image sign f)
    (inner : Mirrors f base (Tree f) (expression sign) (Grammar.expression room) room)
    (object : Expr) :
    Mirrors f base (Tree f) (indexLink sign object).run (indexParser room (f object)) room := by
  intro s stands
  rw [indexLink]
  unfold indexParser
  refine .andThen (inner s stands) fun key _ t tree leads _ => ?_
  cases tree
  refine .andThen (.mark leads.ready _ rfl) fun close _ u same leads _ => ?_
  cases same
  refine .pure leads.ready ?_
  rw [Tree, image.index, image.span]

/-- One link, behind its first token, and those behind it. -/
theorem SimulatesOpen.link {q : Run (Except Stop Expr)} {link : Nat → Parser Expr} {count : Nat}
    {k : Except Stop Unit → Run (Except Stop Expr × Nat)} (stands : Stands base room s)
    (stops : k (.error .tooDeep) = Pure.pure (.error .tooDeep, count))
    (goes : k (.ok ()) = q >>= fun
      | .error e => Pure.pure (.error e, count + 1)
      | .ok object => linksFrom sign object (count + 1))
    (linked : ∀ r < room, Mirrors f base (Tree f) q (link r) r)
    (more : ∀ r < room, ∀ object {u : State}, Stands base r u →
      SimulatesOpen f base (Tree f) (linksFrom sign object (count + 1)) (count + 1)
        (links r (f object)) u) :
    SimulatesOpen f base (Tree f) (Cursor.enter.run >>= k) count (linkedParser link room) s := by
  cases room with
  | zero => exact .enter_deep stands stops rfl
  | succ room =>
    have lt := Nat.lt_succ_self room
    refine .enter stands (goes ▸ .bind (linked room lt _ stands.entered) (fun _ => rfl) ?_)
    intro object _ t tree leads
    cases tree
    exact more room lt object (stands.entered.leads leads)

theorem linksFrom_simulates (image : Image sign f)
    (args : ∀ r < room, Mirrors f base (Listed f) (arguments sign).run (Grammar.arguments r) r)
    (inner : ∀ r < room, Mirrors f base (Tree f) (expression sign) (Grammar.expression r) r)
    (object : Expr) (count : Nat) (stands : Stands base room s) :
    SimulatesOpen f base (Tree f) (linksFrom sign object count) count
      (links room (f object)) s := by
  induction room using Nat.strong_induction_on generalizing object count s with
  | _ room ih =>
    have more (r : Nat) (lt : r < room) (object : Expr) {u : State} (stands : Stands base r u) :=
      ih r lt (fun r' lt' => args r' (lt'.trans lt)) (fun r' lt' => inner r' (lt'.trans lt)) object
        (count + 1) stands
    have ready := stands.ready
    rw [linksFrom]
    refine .eat ready (fun dot => ⟨_, ?_, .link stands.next rfl rfl
      (fun r lt => memberLink_simulates image (args r lt) object) more⟩) fun dot => ?_
    · rw [links_on, if_pos dot, ready.rest_next]
    refine .eat ready (fun bracket => ⟨_, ?_, .link stands.next rfl rfl
      (fun r lt => indexLink_simulates image (inner r lt) object) more⟩) fun bracket => ?_
    · rw [links_on, if_neg (by simp [dot]), if_pos bracket, ready.rest_next]
    · refine .ok ready ?_ rfl
      rw [links_on, if_neg (by simp [dot]), if_neg (by simp [bracket])]

theorem chain_simulates (image : Image sign f)
    (args : ∀ r ≤ room, Mirrors f base (Listed f) (arguments sign).run (Grammar.arguments r) r)
    (inner : ∀ r < room, Mirrors f base (Tree f) (expression sign) (Grammar.expression r) r)
    (stands : Stands base room s) (head : (first s.rest).kind = .identifier) :
    Simulates f base AtNext (Tree f) (chain sign) (Grammar.chain room) s := by
  rw [chain, chain_eq]
  refine .bind (chainHead_simulates image (args room le_rfl) stands head) (fun _ => rfl)
    fun object _ t tree leads _ => ?_
  cases tree
  have stands := stands.leads leads
  exact SimulatesOpen.close (linksFrom_simulates image (fun r lt => args r (Nat.le_of_lt lt)) inner
    object 0 stands) stands.base_le fun _ _ => rfl

/-! ## All levels -/

structure SimulatedAt (sign : Cursor) (f : Expr → Expr) (base room : Nat) :
    Prop where
  expression : Mirrors f base (Tree f) (expression sign) (Grammar.expression room) room
  arguments : Mirrors f base (Listed f) (arguments sign).run (Grammar.arguments room) room
  operand : ∀ b : Binary, Mirrors f base (Tree f) (operand sign b) (b.operandParser room) room
  level : ∀ b : Binary, Mirrors f base (Tree f) (level sign b) (b.parser room) room

theorem simulatedAt (image : Image sign f) (base room : Nat) : SimulatedAt sign f base room := by
  -- With the same room a reader calls only those settled before it here, and any with less.
  induction room using Nat.strong_induction_on with
  | _ room ih =>
    have upTo {P : Nat → Prop} (smaller : ∀ r < room, P r) (h : P room) : ∀ r ≤ room, P r :=
      fun r le => (Nat.lt_or_eq_of_le le).elim (smaller r) fun same => same ▸ h
    have inner := expression_simulates fun r lt => (ih r lt).level .or
    have args := arguments_simulates inner
    have chains (s : State) := chain_simulates (s := s) image
      (upTo (fun r lt => (ih r lt).arguments) args) fun r lt => (ih r lt).expression
    have primaries := primary_simulates image chains inner
    have operandOf (b : Binary) : ∀ r < room, Mirrors f base (Tree f) (operand sign b)
        (b.operandParser r) r := fun r lt => (ih r lt).operand b
    have products : Mirrors f base (Tree f) (operand sign .product)
        (Binary.product.operandParser room) room := by
      rw [operand]
      refine unary_simulates image primaries fun r lt => ?_
      have unaries := operandOf .product r lt
      rw [operand] at unaries
      exact unaries
    have product := level_simulates (b := .product) image (upTo (operandOf .product) products)
    have sums :
        Mirrors f base (Tree f) (operand sign .sum) (Binary.sum.operandParser room) room := by
      rw [operand]
      exact product
    have sum := level_simulates (b := .sum) image (upTo (operandOf .sum) sums)
    have ands :
        Mirrors f base (Tree f) (operand sign .and) (Binary.and.operandParser room) room := by
      rw [operand]
      exact comparison_simulates image sum
    have and := level_simulates (b := .and) image (upTo (operandOf .and) ands)
    have ors : Mirrors f base (Tree f) (operand sign .or) (Binary.or.operandParser room) room := by
      rw [operand]
      exact and
    have or := level_simulates (b := .or) image (upTo (operandOf .or) ors)
    refine ⟨inner, args, fun b => ?_, fun b => ?_⟩
    · cases b with
      | or => exact ors
      | and => exact ands
      | sum => exact sums
      | product => exact products
    · cases b with
      | or => exact or
      | and => exact and
      | sum => exact sum
      | product => exact product

end

end Cursor

end Grammar

end Rulebook
