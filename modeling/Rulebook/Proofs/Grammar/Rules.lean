import Mathlib
import Rulebook.Proofs.Grammar.Completeness

/-!
# Reading rules

Statements and rules are read as they are derived. A whole token list is a rule set if and only if
it is derived as one: once a rule is refused, reading on cannot succeed any more.
-/

namespace Rulebook.Grammar

open Rulebook.Grammar.Parser

variable {ts us rest : List Token}

/-! ## Statements -/

theorem DerivesStatement.first {s : Statement} (h : DerivesStatement ts s rest) :
    (Parser.first ts).kind = .identifier := by
  cases h with
  | assign target => exact target.first_of_chain
  | call e => exact e.first_of_chain

theorem yields_assign {room : Nat} {deep : Prop} {target value : Expr} {eq semi : Token}
    (start : (Parser.first ts).kind = .identifier)
    (head : Yields (chain room) ts target (eq :: us) deep) (place : isPlace target)
    (assigns : eq.kind = .operator .assign)
    (right : Yields (expression room) us value (semi :: rest) deep)
    (ends : semi.kind = .mark .semicolon) :
    Yields (statement room) ts (.assign target value (target.span.cover semi.span)) rest deep := by
  unfold statement
  refine .bind_ok (on_peek _) ?_
  rw [start]
  refine head.bind (.bind_ok (on_peek _) ?_)
  rw [first_cons, Token.isOperator_iff.mpr assigns, if_pos rfl]
  have tail : Yields (do
      let _ ← next
      let value ← expression room
      let stop ← mark .semicolon
      return Statement.assign target value (target.span.cover stop.span)) (eq :: us)
      (.assign target value (target.span.cover semi.span)) rest deep := by
    refine .bind_ok (on_next _) ?_
    rw [rest_cons (by simp [assigns])]
    exact right.bind (.bind_ok (on_mark ends rest) (.pure _ rest))
  cases target with
  | member | index => exact tail
  | _ => exact place.elim

theorem yields_callStatement {room : Nat} {deep : Prop} {e : Expr} {semi : Token}
    (start : (Parser.first ts).kind = .identifier)
    (head : Yields (chain room) ts e (semi :: rest) deep) (called : isCall e)
    (ends : semi.kind = .mark .semicolon) :
    Yields (statement room) ts (.call e (e.span.cover semi.span)) rest deep := by
  unfold statement
  refine .bind_ok (on_peek _) ?_
  rw [start]
  refine head.bind (.bind_ok (on_peek _) ?_)
  have other : (Parser.first (semi :: rest)).isOperator .assign = false := by
    simp [Token.isOperator, ends]
  rw [other, if_neg Bool.false_ne_true]
  cases e with
  | call | method => exact .bind_ok (on_mark ends rest) (.pure _ rest)
  | _ => exact called.elim

theorem DerivesStatement.yields {s : Statement} (h : DerivesStatement ts s rest) (room : Nat) :
    Yields (statement room) ts s rest (room ≤ ts.length) := by
  have start := h.first
  cases h with
  | assign chain place assigns right ends =>
    have le := chain.takes.1.length_le
    simp only [List.length_cons] at le
    have head := chain.followed (fun _ => .of_assign assigns) room
    have right := right.yields (.of_mark ends (by decide)) room
    exact yields_assign start (head.mono (by omega)) place assigns (right.mono (by omega)) ends
  | call chain called ends =>
    have head := chain.followed (fun _ => .of_mark ends (by decide)) room
    exact yields_callStatement start (head.mono (by omega)) called ends

/-- What makes reading stop as too deep further on makes it stop here. -/
def Deepens (deep : List Token → Prop) : Prop :=
  ∀ ⦃ts rest⦄, TakesSome ts rest → deep rest → deep ts

theorem deepens_length (room : Nat) : Deepens fun ts => room ≤ ts.length :=
  fun _ _ takes le => le.trans (Nat.le_of_lt takes.length_lt)

theorem yields_statements {R : List Token → Statement → List Token → Prop}
    {deep : List Token → Prop} {room : Nat} {ss : List Statement} (h : Many R ts ss rest)
    (one : ∀ {ts s rest}, R ts s rest →
      DerivesStatement ts s rest ∧ Yields (statement room) ts s rest (deep ts))
    (deepens : Deepens deep) (closes : (first rest).kind = .mark .closeBrace) (bound : List Token)
    (le : ts.length ≤ bound.length) (before : List Statement) :
    Yields (statements room bound before) ts (before.reverse ++ ss) rest (deep ts) := by
  induction h generalizing bound before with
  | nil =>
    rw [List.append_nil]
    cases bound with
    | nil => exact .pure _ _
    | cons x bound =>
      unfold statements
      refine .bind_ok (on_peek _) ?_
      rw [Token.isMark_iff.mpr closes, Bool.true_or, if_pos rfl]
      exact .pure _ _
  | @cons ts s us ss rest read _ ih =>
    obtain ⟨derived, yields⟩ := one read
    have lt := derived.takesSome.length_lt
    cases bound with
    | nil =>
      simp only [List.length_nil] at le
      omega
    | cons x bound =>
      simp only [List.length_cons] at le
      unfold statements
      refine .bind_ok (on_peek _) ?_
      have other : ((Parser.first ts).isMark .closeBrace || (Parser.first ts).isEof) = false := by
        simp [Token.isMark, Token.isEof, derived.first]
      rw [other, if_neg Bool.false_ne_true]
      have others := ih closes bound (by omega) (s :: before)
      rw [List.reverse_cons, List.append_assoc, List.singleton_append] at others
      exact yields.bind (others.mono (deepens derived.takesSome))

/-! ## Rules -/

theorem DerivesDescription.on {d : Option String} (h : DerivesDescription ts d rest)
    (start : ∀ s, (first rest).kind ≠ .literal (.text s)) : description.on ts = (.ok d, rest) := by
  unfold description
  rw [on_bind_ok (on_peek ts)]
  cases h with
  | none =>
    split
    · next s is => exact absurd is (start s)
    · rfl
  | some is =>
    simp only [first_cons, is]
    rw [on_bind_ok (on_next _), rest_cons (by simp [is])]
    rfl

theorem salience_on {t : Token} {n : Int64} (is : t.kind = .literal (.int n)) :
    salience.on (t :: rest) = (.ok n, rest) := by
  unfold salience
  have other : (first (t :: rest)).isOperator .minus = false := by simp [Token.isOperator, is]
  rw [on_bind_ok (on_nextIf_neg other), on_bind_ok (on_peek _)]
  simp only [first_cons, is]
  rw [on_bind_ok (on_next _), rest_cons (by simp [is])]
  rfl

theorem salience_on_minus {minus t : Token} {n : Int64} (sign : minus.kind = .operator .minus)
    (is : t.kind = .literal (.int n)) : salience.on (minus :: t :: rest) = (.ok (-n), rest) := by
  unfold salience
  rw [on_bind_ok (on_nextIf_pos (Token.isOperator_iff.mpr sign) (by simp [sign]) _),
    on_bind_ok (on_peek _)]
  simp only [first_cons, is]
  rw [on_bind_ok (on_next _), rest_cons (by simp [is])]
  rfl

theorem DerivesSalience.on {n : Int64} (h : DerivesSalience ts n rest)
    (start : (first rest).isKeyword .salience = false) :
    declaredSalience.on ts = (.ok n, rest) := by
  unfold declaredSalience
  cases h with
  | none =>
    rw [on_bind_ok (on_nextIf_neg start)]
    rfl
  | plain is int =>
    rw [on_bind_ok (on_nextIf_pos (Token.isKeyword_iff.mpr is) (by simp [is]) _)]
    exact salience_on int
  | negative is sign int =>
    rw [on_bind_ok (on_nextIf_pos (Token.isKeyword_iff.mpr is) (by simp [is]) _)]
    exact salience_on_minus sign int

/-- Behind a description a text is never mistaken for one. -/
theorem DerivesSalience.first_ne_text {n : Int64} {op : Token}
    (h : DerivesSalience ts n (op :: rest)) (opens : op.kind = .mark .openBrace) (s : String) :
    (first ts).kind ≠ .literal (.text s) := by
  cases h with
  | none => simp [opens]
  | plain is | negative is => simp [is]

theorem Yields.inRule {α : Type} {p : Parser α} {a : α} {deep : Prop} {name : String}
    (h : Yields p ts a rest deep) : Yields (inRule name p) ts a rest deep := by
  rcases h with ok | ⟨is, us, stop⟩
  · exact .inl (on_inRule_eq_ok.mpr ok)
  · exact .inr ⟨is, us, on_inRule_tooDeep stop⟩

theorem yields_rule {room : Nat} {deep : Prop} {start name op word thn cl : Token}
    {vs ws : List Token} {d : Option String} {n : Int64} {condition : Expr}
    {actions : List Statement} (starts : start.kind = .keyword .rule)
    (named : name.kind = .identifier) (described : DerivesDescription ts d us)
    (ranked : DerivesSalience us n (op :: word :: vs)) (opens : op.kind = .mark .openBrace)
    (introduces : word.kind = .keyword .when)
    (read : Yields (expression room) vs condition (thn :: ws) deep)
    (separates : thn.kind = .keyword .«then»)
    (body : Yields (statements room ws []) ws actions (cl :: rest) deep) (some : actions ≠ [])
    (closes : cl.kind = .mark .closeBrace) :
    Yields (rule room) (start :: name :: ts)
      ⟨name.text, d, n, condition, actions, start.span.cover cl.span⟩ rest deep := by
  have keyword : ruleKeyword.on (start :: name :: ts) = (.ok start, name :: ts) := by
    unfold ruleKeyword
    rw [on_bind_ok (on_nextIf_pos (Token.isKeyword_iff.mpr starts) (by simp [starts]) _)]
    rfl
  unfold rule
  refine .bind_ok keyword ?_
  refine .bind_ok (on_nextIf_pos (by simp [named]) (by simp [named]) _) (.inRule ?_)
  unfold ruleBody
  refine .bind_ok (described.on (ranked.first_ne_text opens)) ?_
  refine .bind_ok (ranked.on (by simp [Token.isKeyword, opens])) ?_
  refine .bind_ok (on_mark opens _) (.bind_ok (on_keyword introduces _) ?_)
  refine read.bind (.bind_ok (on_keyword separates ws) (.bind_ok (on_get ws) ?_))
  refine body.bind ?_
  rw [if_neg (by simpa using some)]
  exact .bind_ok (on_mark closes rest) (.pure _ rest)

theorem DerivesRule.yields {r : Rule} (h : DerivesRule ts r rest) (room : Nat) :
    Yields (rule room) ts r rest (room ≤ ts.length) := by
  cases h with
  | mk starts named described ranked opens introduces derived separates acts some closes =>
    have le := described.takes.length_le
    have le₁ := ranked.takes.length_le
    have le₂ := derived.takes.1.length_le
    simp only [List.length_cons] at le₁ le₂ ⊢
    have condition := derived.yields (.of_keyword separates) room
    have body := yields_statements acts (fun h => ⟨h, h.yields room⟩) (deepens_length room) closes
      _ le_rfl []
    exact yields_rule starts named described ranked opens introduces (condition.mono (by omega))
      separates (body.mono (by omega)) some closes

/-! ## Whole token lists -/

theorem rulesFrom_of_faults {room : Nat} (bound : List Token) {rules : List Rule}
    {faults : List (Fault × Span × Option String)} (some : faults ≠ []) (rs : List Rule) :
    rulesFrom room rules faults ts bound ≠ .ok rs := by
  induction bound generalizing ts rules faults with
  | nil =>
    unfold rulesFrom rulesFrom.finish
    rw [if_neg (by simpa using some)]
    simp
  | cons x bound ih =>
    unfold rulesFrom
    split
    · unfold rulesFrom.finish
      rw [if_neg (by simpa using some)]
      simp
    · split
      · exact ih some
      · simp
      · exact ih (List.cons_ne_nil _ _)

theorem rulesFrom_sound {room : Nat} (bound : List Token) (le : ts.length ≤ bound.length)
    {found rs : List Rule} (h : rulesFrom room found [] ts bound = .ok rs) :
    ∃ more rest, rs = found.reverse ++ more ∧ Many (DerivesRuleIn room) ts more rest ∧
      (first rest).kind = .eof := by
  induction bound generalizing ts found with
  | nil =>
    cases h
    have nil : ts = [] := List.length_eq_zero_iff.mp (Nat.le_zero.mp le)
    exact ⟨[], ts, (List.append_nil _).symm, .nil, by rw [nil]; rfl⟩
  | cons x bound ih =>
    simp only [List.length_cons] at le
    unfold rulesFrom at h
    split at h
    · next ended =>
      cases h
      exact ⟨[], ts, (List.append_nil _).symm, .nil, Token.isEof_iff.mp ended⟩
    · split at h
      · next r us read =>
        have one := rule_sound read
        have lt := one.derives.takesSome.length_lt
        obtain ⟨more, rest, rfl, others, ends⟩ := ih (by omega) h
        refine ⟨r :: more, rest, ?_, .cons one others, ends⟩
        rw [List.reverse_cons, List.append_assoc, List.singleton_append]
      · cases h
      · exact absurd h (rulesFrom_of_faults bound (List.cons_ne_nil _ _) rs)

theorem rulesFrom_complete {R : List Token → Rule → List Token → Prop} {deep : List Token → Prop}
    {room : Nat} {more : List Rule} (h : Many R ts more rest)
    (one : ∀ {ts r rest}, R ts r rest → TakesSome ts rest ∧ Yields (rule room) ts r rest (deep ts))
    (deepens : Deepens deep) (ends : (first rest).kind = .eof) (bound : List Token)
    (le : ts.length ≤ bound.length) (found : List Rule) :
    rulesFrom room found [] ts bound = .ok (found.reverse ++ more) ∨
      deep ts ∧ rulesFrom room found [] ts bound = .error .tooDeep := by
  induction h generalizing found bound with
  | nil =>
    left
    rw [List.append_nil]
    cases bound with
    | nil => rfl
    | cons x bound =>
      unfold rulesFrom
      rw [if_pos (Token.isEof_iff.mpr ends)]
      rfl
  | @cons ts r us more rest read _ ih =>
    obtain ⟨takes, yields⟩ := one read
    have lt := takes.length_lt
    obtain ⟨t, vs, rfl, ne, -⟩ := id takes
    cases bound with
    | nil =>
      simp only [List.length_nil] at le
      omega
    | cons x bound =>
      have le : (t :: vs).length ≤ bound.length + 1 := le
      unfold rulesFrom
      rw [first_cons, Token.isEof_eq_false ne, if_neg Bool.false_ne_true]
      rcases yields with read | ⟨deep, ws, stop⟩
      · change (rule room).run.run (t :: vs) = _ at read
        rw [read]
        have others := ih ends bound (by omega) (r :: found)
        rw [List.reverse_cons, List.append_assoc, List.singleton_append] at others
        exact others.imp_right fun ⟨deep, stop⟩ => ⟨deepens takes deep, stop⟩
      · right
        change (rule room).run.run (t :: vs) = _ at stop
        rw [stop]
        exact ⟨deep, rfl⟩

end Rulebook.Grammar
