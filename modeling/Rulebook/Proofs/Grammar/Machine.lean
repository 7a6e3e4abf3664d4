import Mathlib
import Rulebook.Proofs.Grammar.Attempts
import Rulebook.Proofs.Grammar.Simulation

/-!
# Rules and rule sets on the machine

A rule begins with the counter at the base. So does every round, whether the one before it succeeded
or not, and the machine reads from a token list what the grammar reads.
-/

namespace Rulebook.Grammar.Cursor

open Rulebook.Grammar.Parser (first on on_bind on_bind_ok on_bind_error on_peek on_next on_nextIf
  on_nextIf_pos on_nextIf_neg on_get)
open Rulebook.Grammar.Cursor.State (next_rule)

variable {f : Expr → Expr} {sign : Cursor} {base origin : Nat}
  {d : Depth} {s t : State}

/-- The span starts with a token between an origin and the cursor. -/
def Blames (origin : Nat) (t : State) (span : Span) : Prop :=
  ∃ i x, origin ≤ i ∧ i ≤ t.pos ∧ t.tokens[i]? = some x ∧ span.start = x.span.start

/-- The end is ahead, and behind its origin the counter is where it was there. -/
structure Grounded (d : Depth) (origin : Nat) (s : State) : Prop where
  ready : s.Ready
  depth_eq : s.depth = d
  origin_le : origin ≤ s.pos

namespace Grounded

theorem stands (h : Grounded d origin s) : Stands d.level d.room s :=
  ⟨h.ready, by rw [h.depth_eq], by rw [h.depth_eq]⟩

theorem leads (h : Grounded d origin s) (k : Leads base 0 s t) : Grounded d origin t :=
  ⟨k.ready, k.depth.trans h.depth_eq, h.origin_le.trans k.pos⟩

theorem next (h : Grounded d origin s) : Grounded d origin s.next :=
  have moves : Leads d.level 0 s s.next := .next h.ready
  h.leads moves

theorem begins (h : Grounded d origin s) (part : Part) : Leads d.level 0 s (s.begun part) :=
  h.depth_eq ▸ .begun h.ready part

theorem blames (h : Grounded d origin s) : Blames origin s (first s.rest).span :=
  ⟨s.pos, first s.rest, h.origin_le, le_rfl, h.ready.getElem?, rfl⟩

/-- A fault at the cursor is one behind the origin. -/
theorem since {α β : Type} {R : State → α → β → Prop} {q : Run (Except Stop α)} {p : Parser β}
    (h : Grounded d origin s) (k : Simulates f base AtNext R q p s) :
    Simulates f base (Blames origin) R q p s := by
  obtain ⟨r, t, r', ran, leads, same, read, agrees⟩ := k
  refine ⟨r, t, r', ran, leads, same, read, ?_⟩
  cases agrees with
  | ok related => exact .ok related
  | tooDeep => exact .tooDeep
  | refused named blamed =>
    cases blamed
    exact .refused named (h.leads leads).blames

end Grounded

/-! ## Statements -/

theorem chain_at (image : Image sign f) (grounded : Grounded d origin s)
    (head : (first s.rest).kind = .identifier) :
    Simulates f d.level (Blames origin) (Tree f) (chain sign) (Grammar.chain d.room) s :=
  grounded.since <| chain_simulates image (fun r _ => (simulatedAt image d.level r).arguments)
    (fun r _ => (simulatedAt image d.level r).expression) grounded.stands head

theorem expression_at (image : Image sign f) (grounded : Grounded d origin s) :
    Simulates f d.level (Blames origin) (Tree f) (expression sign) (Grammar.expression d.room) s :=
  grounded.since ((simulatedAt image d.level d.room).expression s grounded.stands)

theorem assign_simulates (image : Image sign f) (target : Expr) (grounded : Grounded d origin s) :
    Simulates f d.level (Blames origin) (fun _ a b => b = a.map f)
      (do
        let _ ← advance
        let value ← (expression sign : Reader Expr)
        let stop ← mark .semicolon
        return Statement.assign target value (target.span.cover stop.span) : Reader Statement).run
      (do
        let _ ← Parser.next
        let value ← Grammar.expression d.room
        let stop ← Parser.mark .semicolon
        return .assign (f target) value ((f target).span.cover stop.span)) s := by
  refine .advance grounded.ready ?_
  have grounded := grounded.next
  refine .andThen (expression_at image grounded) fun value _ t tree leads _ => ?_
  cases tree
  have grounded := grounded.leads leads
  refine .andThen (.mark grounded.ready _ grounded.blames) fun stop _ u same leads _ => ?_
  cases same
  refine .pure leads.ready ?_
  rw [image.span]
  rfl

theorem call_simulates (image : Image sign f) (target : Expr) (grounded : Grounded d origin s) :
    Simulates f d.level (Blames origin) (fun _ a b => b = a.map f)
      (do
        let stop ← mark .semicolon
        return Statement.call target (target.span.cover stop.span) : Reader Statement).run
      (do
        let stop ← Parser.mark .semicolon
        return .call (f target) ((f target).span.cover stop.span)) s := by
  refine .andThen (.mark grounded.ready _ grounded.blames) fun stop _ t same leads _ => ?_
  cases same
  refine .pure leads.ready ?_
  rw [image.span]
  rfl

theorem statement_simulates (image : Image sign f) (grounded : Grounded d origin s) :
    Simulates f d.level (Blames origin) (fun _ a b => b = a.map f) (statement sign).run
      (Grammar.statement d.room) s := by
  have begins := grounded.begins .action
  have begun := grounded.leads begins
  unfold statement Grammar.statement
  refine .lift (ends_begin .action s) begins rfl rfl (.peek begins.ready ?_)
  rcases kind : (first (s.begun .action).rest).kind with _ | k | v | o | m | _
  case identifier =>
    refine .andThen (chain_at image begun kind) fun target _ t tree leads read => ?_
    cases tree
    have grounded := begun.leads leads
    -- A refused target is blamed with the first token of the statement.
    have blamed : Blames origin t target.span := by
      have starts := start_of_chain read
      rw [image.span] at starts
      exact ⟨s.pos, _, begun.origin_le, leads.pos, leads.tokens ▸ begun.ready.getElem?, starts⟩
    refine .peek grounded.ready ?_
    split
    · have assigned := assign_simulates image target grounded
      have refused : Simulates f d.level (Blames origin) (fun _ a b => b = a.map f)
          (refuse (.assignToCall target) target.span : Reader Statement).run
          (Parser.refuse (.assignToCall (f target)) (f target).span) t := by
        rw [image.span]
        exact .refuse grounded.ready _ blamed
      cases target with
      | ident name span =>
        rw [image.ident]
        exact .refuse grounded.ready _ blamed
      | member o n s =>
        rw [image.member] at assigned ⊢
        exact assigned
      | index o k s =>
        rw [image.index] at assigned ⊢
        exact assigned
      | unary op e s =>
        rcases image.unary op e s with ⟨v, eq⟩ | ⟨o, e', eq⟩ <;> rw [eq] at refused ⊢ <;>
          exact refused
      | _ =>
        simp only [image.literal, image.arith, image.compare, image.logic, image.call,
          image.method] at refused ⊢
        exact refused
    · have called := call_simulates image target grounded
      cases target with
      | call n as s =>
        rw [image.call] at called ⊢
        exact called
      | method o n as s =>
        rw [image.method] at called ⊢
        exact called
      | unary op e s =>
        rcases image.unary op e s with ⟨v, eq⟩ | ⟨o, e', eq⟩ <;> rw [eq] <;>
          exact .expected grounded.ready _ grounded.blames
      | _ =>
        simp only [image.literal, image.ident, image.arith, image.compare, image.logic,
          image.member, image.index]
        exact .expected grounded.ready _ grounded.blames
  all_goals exact .expected begun.ready _ begun.blames

theorem statements_simulates (image : Image sign f) (bound : List Token) (found : List Statement)
    (grounded : Grounded d origin s) (enough : s.rest.length ≤ bound.length) :
    Simulates f d.level (Blames origin) (fun _ as bs => bs = as.map (Statement.map f))
      (statements sign found).run
      (Grammar.statements d.room bound (found.map (Statement.map f))) s := by
  induction bound generalizing found s with
  | nil =>
    exact (grounded.ready.rest_ne_nil (List.eq_nil_of_length_eq_zero (Nat.le_zero.mp enough))).elim
  | cons x bound ih =>
    rw [statements]
    unfold Grammar.statements
    refine .peek grounded.ready ?_
    split
    · exact .pure grounded.ready List.map_reverse.symm
    refine .andThen (statement_simulates image grounded) fun a _ t same leads read => ?_
    cases same
    have lt := (statement_sound read).derives.takesSome.length_lt
    rw [List.length_cons] at enough
    exact ih (a :: found) (grounded.leads leads) (by omega)

/-! ## Rules -/

theorem description_simulates (ready : s.Ready) :
    Simulates f base AtNext (fun _ a b => b = a) description.run Grammar.description s := by
  unfold description Grammar.description
  refine .peek ready ?_
  rcases (first s.rest).kind with _ | k | v | o | m | _
  case literal =>
    cases v with
    | text value => exact .advance ready (.pure ready.next rfl)
    | _ => exact .pure ready rfl
  all_goals exact .pure ready rfl

/-- The number behind the sign of a salience. -/
def magnitudeParser (negative : Bool) : Parser Int64 := do
  let t ← Parser.peek
  match t.kind with
  | .literal (.int n) =>
    let _ ← Parser.next
    return if negative then -n else n
  | .literal other => Parser.refuse (.badSalience other t.text) t.span
  | _ => Parser.expected .salience

theorem salience_eq : Grammar.salience = (do
    magnitudeParser (← Parser.nextIf (·.isOperator .minus)).isSome : Parser Int64) := rfl

theorem magnitude_simulates (ready : s.Ready) (negative : Bool) :
    Simulates f base AtNext (fun _ a b => b = a) (magnitude negative).run
      (magnitudeParser negative) s := by
  unfold magnitude magnitudeParser
  refine .peek ready ?_
  rcases (first s.rest).kind with _ | k | v | o | m | _
  case literal =>
    cases v with
    | int n => exact .advance ready (.pure ready.next rfl)
    | _ => exact .refuse ready _ rfl
  all_goals exact .expected ready _ rfl

theorem salience_simulates (ready : s.Ready) :
    Simulates f base AtNext (fun _ a b => b = a) salience.run Grammar.salience s := by
  rw [salience_eq]
  exact .eat ready (fun _ => magnitude_simulates ready.next true) fun _ =>
    magnitude_simulates ready false

theorem declaredSalience_simulates (ready : s.Ready) :
    Simulates f base AtNext (fun _ a b => b = a) declaredSalience.run
      Grammar.declaredSalience s := by
  unfold declaredSalience Grammar.declaredSalience
  exact .eat ready (fun _ => salience_simulates ready.next) fun _ => .pure ready rfl

theorem ruleBody_simulates (image : Image sign f) (start : Token) (name : String)
    (grounded : Grounded d origin s) :
    Simulates f d.level (Blames origin) (fun _ a b => b = a.map f) (ruleBody sign start name).run
      (Grammar.ruleBody d.room start name) s := by
  unfold ruleBody Grammar.ruleBody
  refine .andThen (grounded.since (description_simulates grounded.ready))
    fun d _ t same leads _ => ?_
  cases same
  have grounded := grounded.leads leads
  refine .andThen (grounded.since (declaredSalience_simulates grounded.ready))
    fun n _ t same leads _ => ?_
  cases same
  have grounded := grounded.leads leads
  refine .andThen (.mark grounded.ready _ grounded.blames) fun _ _ t _ leads _ => ?_
  have grounded := grounded.leads leads
  refine .andThen (.keyword grounded.ready _ grounded.blames) fun _ _ t _ leads _ => ?_
  have grounded := grounded.leads leads
  have begins := grounded.begins .condition
  refine .lift (ends_begin .condition t) begins rfl rfl ?_
  have grounded := grounded.leads begins
  refine .andThen (expression_at image grounded) fun condition _ t tree leads _ => ?_
  cases tree
  have grounded := grounded.leads leads
  refine .andThen (.keyword grounded.ready _ grounded.blames) fun _ _ t _ leads _ => ?_
  have grounded := grounded.leads leads
  have body := statements_simulates image t.rest [] grounded le_rfl
  refine Simulates.congr ?_ (on_bind_ok (on_get _) _)
  refine .andThen body fun actions _ t same leads _ => ?_
  cases same
  have grounded := grounded.leads leads
  rw [List.isEmpty_map]
  split
  · exact .expected grounded.ready _ grounded.blames
  · refine .andThen (.mark grounded.ready _ grounded.blames) fun _ _ t same leads _ =>
      .pure leads.ready ?_
    cases same
    rfl

theorem rule_on (room : Nat) (ts : List Token) :
    (Grammar.rule room).on ts =
      if (first ts).isKeyword .rule then
        if (first (Parser.rest ts)).kind matches .identifier then
          (Parser.inRule (first (Parser.rest ts)).text
            (Grammar.ruleBody room (first ts) (first (Parser.rest ts)).text)).on
              (Parser.rest (Parser.rest ts))
        else
          (.error (.refused (.expected .ruleName (first (Parser.rest ts)))
            (first (Parser.rest ts)).span none), Parser.rest ts)
      else
        (.error (.refused (.expected .ruleKeyword (first ts)) (first ts).span none), ts) := by
  unfold Grammar.rule ruleKeyword
  rw [on_bind, on_bind, on_nextIf]
  cases (first ts).isKeyword .rule
  · rfl
  · change Parser.on (_ >>= _) (Parser.rest ts) = _
    rw [on_bind, on_nextIf]
    cases (first (Parser.rest ts)).kind <;> rfl

theorem inRule_agrees {α β : Type} {B : Span → Prop} {R : α → β → Prop} {name : String}
    {p : Parser β} {rule : Option String} {r : Except Stop α} {r' : Except Stop β}
    {ts us : List Token}
    (read : p.on ts = (r', us)) (agrees : Agrees f (Unnamed (some name)) B R r r') :
    ∃ r'', (Parser.inRule name p).on ts = (r'', us) ∧
      Agrees f (fun n m => n = m.or rule) B R r r'' := by
  unfold Parser.inRule
  rw [Parser.on_tryCatch, read]
  cases agrees with
  | ok related => exact ⟨_, rfl, .ok related⟩
  | tooDeep => exact ⟨_, rfl, .tooDeep⟩
  | refused named blamed =>
    obtain ⟨rfl, -⟩ := named
    exact ⟨_, rfl, .refused rfl blamed⟩

/-- The keyword of a rule, taken. -/
theorem ends_ruleKeyword (ready : s.Ready) (starts : (first s.rest).isKeyword .rule = true) :
    ∃ t, Ends (expect (·.isKeyword .rule) .ruleKeyword).run s (.ok (first s.rest)) t ∧
      Leads base 0 s t ∧ t.rule = s.rule ∧ t.rest = Parser.rest s.rest ∧ s.pos < t.pos := by
  have ne : (first s.rest).kind ≠ .eof := by simp [Token.isKeyword_iff.mp starts]
  refine ⟨_, ends_expect_pos ready .ruleKeyword starts, .next ready, next_rule s,
    ready.rest_next, ?_⟩
  rw [State.next_of_ne_eof ne]
  exact Nat.lt_succ_self s.pos

/-- A rule stops with its name, once that has been read. -/
theorem rule_simulates (image : Image sign f) (grounded : Grounded d origin s) :
    ∃ r t r', Ends (rule sign).run s r t ∧ Leads d.level 0 s t ∧
      ((first s.rest).isKeyword .rule = true → s.pos < t.pos) ∧
      (Grammar.rule d.room).on s.rest = (r', t.rest) ∧
      Agrees f (fun n m => n = m.or s.rule) (Blames origin t) (fun a b => b = a.map f) r r' := by
  have begins := grounded.begins .rule
  have ready : (s.begun .rule).Ready := begins.ready
  have ended := Ends.lift (ends_begin .rule s)
  rw [rule_on]
  cases starts : (first s.rest).isKeyword .rule with
  | false =>
    exact ⟨_, _, _, ended.andThen (.stop (ends_expect_neg ready .ruleKeyword starts)), begins,
      (absurd · Bool.false_ne_true), rfl,
      .refused (by simp [State.begun]) (grounded.leads begins).blames⟩
  | true =>
    obtain ⟨t, taken, leads, rule, rest, further⟩ := ends_ruleKeyword ready starts
    have keyed : Leads d.level 0 s t := begins.trans leads
    rw [if_pos rfl, ← State.rest_begun .rule s, ← rest]
    cases named : ((first t.rest).kind matches .identifier) with
    | false =>
      refine ⟨_, t, _, ended.andThen (taken.andThen (.stop (ends_expect_neg keyed.ready .ruleName
        named))), keyed, fun _ => further, rfl, .refused ?_ (grounded.leads keyed).blames⟩
      rw [rule]
      rfl
    | true =>
      -- From here on the faults carry the name.
      have called : Ends (expect (·.kind matches .identifier) .ruleName).run t
          (.ok (first t.rest)) t.next := ends_expect_pos keyed.ready .ruleName named
      have name := Ends.lift (Ends.modify (State.named (some (first t.rest).text)) t.next)
      have into : Leads d.level 0 t (t.next.named (some (first t.rest).text)) :=
        (Leads.next keyed.ready).trans (.named keyed.ready.next _)
      obtain ⟨r, u, r', ran, leads, -, read, agrees⟩ := ruleBody_simulates image (first s.rest)
        (first t.rest).text ((grounded.leads keyed).leads into)
      rw [State.rest_named, keyed.ready.rest_next] at read
      obtain ⟨r'', read, agrees⟩ := inRule_agrees read agrees
      exact ⟨r, u, r'', ended.andThen (taken.andThen (called.andThen (name.andThen ran))),
        keyed.trans (into.trans leads), fun _ => Nat.lt_of_lt_of_le further (into.trans leads).pos,
        read, agrees⟩

/-! ## Many rules -/

/-- What is skipped ends before the next rule. The token before the cursor is there to be looked
at. -/
theorem ends_skip {last : Token} (ready : s.Ready) {i : Nat} (behind : s.pos = i + 1)
    (before : s.tokens[i]? = some last) :
    ∃ t, Ends (skip sign) s () t ∧ Leads base 0 s t ∧ t.rest = nextRule last s.rest := by
  induction rest : s.rest generalizing s last i with
  | nil => exact absurd rest ready.rest_ne_nil
  | cons x xs ih =>
    have here : first s.rest = x := by rw [rest, Parser.first_cons]
    have peeked := ends_peek ready
    rw [here] at peeked
    rw [skip, nextRule]
    cases ends : x.isEof with
    | true =>
      refine ⟨s, peeked.bind ?_, .refl ready, rest⟩
      rw [ends]
      exact .pure () s
    | false =>
      have looked := ends_tokenAt before
      cases stops : x.isKeyword .rule && !last.isMark .dot with
      | true =>
        refine ⟨s, peeked.bind ?_, .refl ready, by simp [rest]⟩
        rw [ends]
        refine .bind (.get s) ?_
        rw [behind]
        refine looked.bind ?_
        rw [stops]
        exact .pure () s
      | false =>
        have ne : (first s.rest).kind ≠ .eof := by
          rw [here, Ne, ← Token.isEof_iff, ends]
          exact Bool.false_ne_true
        have moved : s.next = s.moved := State.next_of_ne_eof ne
        have rest' : s.moved.rest = xs := by
          have whole := ready.rest_eq
          rw [rest] at whole
          exact (List.cons.inj whole).2.symm
        have front : s.moved.tokens[s.pos]? = some x := here ▸ ready.getElem?
        obtain ⟨t, ran, leads, eq⟩ := ih (ready.moved ne) rfl front rest'
        refine ⟨t, peeked.bind ?_, (moved ▸ Leads.next ready).trans leads, by simpa using eq⟩
        rw [ends]
        refine .bind (.get s) ?_
        rw [behind]
        refine looked.bind ?_
        rw [stops]
        exact (moved ▸ ends_advance ready).bind ran

theorem ends_recover (ready : s.Ready) :
    ∃ t, Ends (recover sign) s () t ∧ Leads base 0 s t ∧ t.rest = Grammar.recover s.rest ∧
      ((first s.rest).isEof = false → s.pos < t.pos) := by
  have advanced := ends_advance ready
  have whole := ready.rest_eq
  unfold recover
  cases ends : (first s.rest).isEof with
  | true =>
    have still : s.next = s := by rw [State.next, ends, if_pos rfl]
    have skipped : Ends (skip sign) s () s := by
      rw [skip]
      refine (ends_peek ready).bind ?_
      rw [ends]
      exact .pure () s
    refine ⟨s, (still ▸ advanced).bind skipped, .refl ready, ?_, (absurd · Bool.noConfusion)⟩
    rw [whole, Grammar.recover, ends, if_pos rfl]
  | false =>
    have ne : (first s.rest).kind ≠ .eof := by
      rw [Ne, ← Token.isEof_iff, ends]
      exact Bool.false_ne_true
    have moved : s.next = s.moved := State.next_of_ne_eof ne
    obtain ⟨t, ran, leads, eq⟩ := ends_skip (ready.moved ne) rfl ready.getElem?
    refine ⟨t, (moved ▸ advanced).bind ran, (moved ▸ Leads.next ready).trans leads, ?_,
      fun _ => leads.pos⟩
    rw [eq, whole, Grammar.recover, ends, if_neg Bool.false_ne_true, Parser.first_cons]

/-- What is left behind an attempt. -/
def behind (r : Except Stop Rule) (us : List Token) : List Token :=
  match r with
  | .error (.refused ..) => Grammar.recover us
  | _ => us

/-- An attempt at a rule takes a token, or it is refused where it stands. -/
theorem attempt_simulates (image : Image sign f) (grounded : Grounded d origin s)
    (unnamed : s.rule = none) :
    ∃ r t r', Ends (attempt sign).run s r t ∧ Leads d.level 0 s t ∧
      (Grammar.rule d.room).on s.rest = (r', t.rest) ∧
      Agrees f Eq (Blames origin t) (fun a b => b = a.map f) r r' ∧
      (s.pos < t.pos ∨ t.rest = s.rest ∧ ∃ fault span n, r = .error (.refused fault span n)) := by
  have peeked := Ends.lift (ends_peek grounded.ready)
  cases starts : (first s.rest).isKeyword .rule with
  | true =>
    obtain ⟨r, t, r', ran, leads, further, read, agrees⟩ := rule_simulates image grounded
    simp only [unnamed, Option.or_none] at agrees
    refine ⟨r, t, r', peeked.andThen ?_, leads, read, agrees, .inl (further starts)⟩
    rw [starts]
    exact ran
  | false =>
    have ran : Ends (attempt sign).run s _ s := peeked.andThen <| by
      rw [starts]
      exact ends_expected grounded.ready .ruleKeyword
    refine ⟨_, s, _, ran, .refl grounded.ready, ?_, .refused unnamed grounded.blames,
      .inr ⟨rfl, _, _, _, rfl⟩⟩
    rw [rule_on, starts]
    rfl

/-- The span starts with a token from the origin on that is passed in the round, or is the end. -/
def Passed (origin : Nat) (t : State) (span : Span) : Prop :=
  ∃ i x, origin ≤ i ∧ t.tokens[i]? = some x ∧ span.start = x.span.start ∧
    (i < t.pos ∨ (first t.rest).isEof = true)

/-- A round goes forward, by the rule or by what is skipped. -/
theorem round_simulates (image : Image sign f) (grounded : Grounded d origin s)
    (goes : (first s.rest).isEof = false) :
    ∃ r t r' us, Ends (round sign) s r t ∧ Leads d.level 0 s t ∧ s.pos < t.pos ∧
      (Grammar.rule d.room).on s.rest = (r', us) ∧ t.rest = behind r' us ∧
      Agrees f Eq (Passed origin t) (fun a b => b = a.map f) r r' := by
  have renamed : Leads d.level 0 s (s.named none) := .named grounded.ready none
  have renames := Ends.modify (State.named none) s
  obtain ⟨r, t, r', ran, leads, read, agrees, moves⟩ :=
    attempt_simulates image (grounded.leads renamed) rfl
  have leads := renamed.trans leads
  cases agrees with
  | ok related =>
    have moved := moves.resolve_right (by simp)
    exact ⟨_, t, _, t.rest, renames.bind (ran.bind (.pure _ t)), leads, moved, read, rfl,
      .ok related⟩
  | tooDeep =>
    have moved := moves.resolve_right (by simp)
    exact ⟨_, t, _, t.rest, renames.bind (ran.bind (.pure _ t)), leads, moved, read, rfl, .tooDeep⟩
  | refused named blamed =>
    obtain ⟨u, recovered, skips, rest, further⟩ := ends_recover leads.ready
    obtain ⟨i, x, from_origin, le, found, starts⟩ := blamed
    have passed : i < u.pos ∨ (first u.rest).isEof = true := by
      cases ends : (first t.rest).isEof with
      | false => exact .inl (Nat.lt_of_le_of_lt le (further ends))
      | true =>
        refine .inr ?_
        rw [rest, leads.ready.rest_eq, Grammar.recover, ends]
        exact ends
    refine ⟨_, u, _, t.rest, renames.bind (ran.bind (recovered.bind (.pure _ u))),
      leads.trans skips, ?_, read, rest,
      .refused named ⟨i, x, from_origin, skips.tokens ▸ found, starts, passed⟩⟩
    rcases moves with moved | ⟨still, -⟩
    · exact Nat.lt_of_lt_of_le moved skips.pos
    · exact Nat.lt_of_le_of_lt leads.pos (further (still ▸ goes))

/-- The outcome with other trees in it. -/
def outcome (f : Expr → Expr) : Except Failure (List Rule) → Except Failure (List Rule)
  | .ok rules => .ok (rules.map (Rule.map f))
  | .error .tooDeep => .error .tooDeep
  | .error (.broken faults) => .error (.broken (faults.map (Prod.map (Fault.map f) id)))

theorem ruleSet_simulates (image : Image sign f) (bound : List Token) (rules : List Rule)
    (faults : List (Fault × Span × Option String)) (grounded : Grounded d origin s)
    (enough : s.rest.length ≤ bound.length) :
    ∃ r t, Ends (ruleSet sign rules faults) s r t ∧ Leads d.level 0 s t ∧
      rulesFrom d.room (rules.map (Rule.map f)) (faults.map (Prod.map (Fault.map f) id)) s.rest
        bound = outcome f r := by
  induction bound generalizing rules faults s with
  | nil =>
    exact (grounded.ready.rest_ne_nil (List.eq_nil_of_length_eq_zero (Nat.le_zero.mp enough))).elim
  | cons x bound ih =>
    have peeked := ends_peek grounded.ready
    rw [ruleSet]
    cases goes : (first s.rest).isEof with
    | true =>
      refine ⟨if faults.isEmpty then .ok rules.reverse else .error (.broken faults.reverse), s,
        peeked.bind ?_, .refl grounded.ready, ?_⟩
      · rw [goes]
        exact .pure _ s
      · rw [rulesFrom, goes, if_pos rfl, rulesFrom.finish, List.isEmpty_map]
        split <;> simp [outcome]
    | false =>
      obtain ⟨r, t, r', us, ran, leads, further, read, rest, agrees⟩ :=
        round_simulates image grounded goes
      have fewer := leads.length_rest_lt grounded.ready further
      rw [List.length_cons] at enough
      have others (rules faults) := ih rules faults (grounded.leads leads) (by omega)
      cases agrees with
      | @ok r _ same =>
        cases same
        obtain ⟨out, u, ran', leads', eq⟩ := others (r :: rules) faults
        refine ⟨out, u, peeked.bind ?_, leads.trans leads', ?_⟩
        · rw [goes]
          exact ran.bind ran'
        · rw [rulesFrom_ok goes read, ← eq, rest]
          rfl
      | tooDeep =>
        refine ⟨.error .tooDeep, t, peeked.bind ?_, leads, rulesFrom_tooDeep goes read⟩
        rw [goes]
        exact ran.bind (.pure _ t)
      | @refused fault span n m same _ =>
        cases same
        obtain ⟨out, u, ran', leads', eq⟩ := others rules ((fault, span, n) :: faults)
        refine ⟨out, u, peeked.bind ?_, leads.trans leads', ?_⟩
        · rw [goes]
          exact ran.bind ran'
        · rw [rulesFrom_refused goes read, ← eq, rest]
          rfl

/-- A token list that ends is read as the grammar reads it, up to the trees. -/
theorem ruleSet_reads (image : Image sign f) (limit : Nat) {tokens : List Token} {last : Token}
    (mem : last ∈ tokens) (ends : last.kind = .eof) :
    ∃ r t, Ends (ruleSet sign [] []) (start limit tokens) r t ∧
      Leads 0 0 (start limit tokens) t ∧ Grammar.rules limit tokens = outcome f r :=
  have grounded : Grounded { limit } 0 (start limit tokens) := ⟨⟨last, mem, ends⟩, rfl, le_rfl⟩
  ruleSet_simulates image tokens [] [] grounded le_rfl

end Rulebook.Grammar.Cursor
