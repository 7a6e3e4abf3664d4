import Mathlib
import Rulebook.Proofs.Grammar.Machine

/-!
# The counter of nesting is balanced

Whatever a reader of the machine meets, it ends with the counter where it found it. In between the
counter never goes above the limit, and no level is left that the reader has not entered.
-/

namespace Rulebook.Grammar.Cursor

open Rulebook.Grammar.Parser (first on on_bind_ok on_bind_error on_bind_eq_ok on_peek on_next
  on_nextIf_kind on_nextIf_eq_none)

variable {α β : Type} {f : Expr → Expr} {base room : Nat} {s t : State}

/-! ## The machine of the grammar -/

theorem statement_map_id : Statement.map id = id := by
  funext a
  cases a <;> rfl

theorem rule_map_id : Rule.map id = id := by
  funext r
  simp [Rule.map, statement_map_id]

theorem fault_map_id : Fault.map id = id := by
  funext fault
  cases fault <;> rfl

theorem outcome_id (r : Except Failure (List Rule)) : outcome id r = r := by
  rcases r with (_ | faults) | rules
  · rfl
  · simp [outcome, fault_map_id]
  · simp [outcome, rule_map_id]

theorem ruleSet_signed (limit : Nat) {tokens : List Token} (ended : ∃ t ∈ tokens, t.kind = .eof) :
    ∃ t, Ends (ruleSet signed [] []) (start limit tokens) (Grammar.rules limit tokens) t ∧
      Leads 0 0 (start limit tokens) t := by
  obtain ⟨last, mem, ends⟩ := ended
  obtain ⟨r, t, ran, leads, read⟩ := ruleSet_reads image_signed limit mem ends
  rw [outcome_id] at read
  exact ⟨t, read ▸ ran, leads⟩

/-! ## All readers -/

/-- The readers of the machine that makes signs part of literals, as the grammar does. -/
inductive IsReader : {α : Type} → Run (Except Stop α) → Prop
  | expression : IsReader (expression signed)
  | level (b : Binary) : IsReader (level signed b)
  | comparison : IsReader (comparison signed).run
  | unary : IsReader (unary signed)
  | primary : IsReader (primary signed).run
  | chain : IsReader (chain signed)
  | arguments : IsReader (arguments signed).run
  | statement : IsReader (statement signed).run
  | salience : IsReader salience.run
  | rule : IsReader (rule signed).run

theorem Leads.pos_lt {n : Nat} (h : Leads base n s t) (takes : TakesSome s.rest t.rest) :
    s.pos < t.pos := by
  have lt := takes.length_lt
  simp only [State.rest, List.length_drop, h.tokens] at lt
  omega

/-- What a parser takes, the reader passes. -/
theorem Simulates.forward {B : State → Span → Prop} {R : State → α → β → Prop}
    {q : Run (Except Stop α)} {p : Parser β} (h : Simulates f base B R q p s)
    (takes : ∀ b us, p.on s.rest = (.ok b, us) → TakesSome s.rest us) :
    ∃ r t, Ends q s r t ∧ Leads base 0 s t ∧ ∀ a, r = .ok a → s.pos < t.pos := by
  obtain ⟨r, t, r', ran, leads, -, read, agrees⟩ := h
  refine ⟨r, t, ran, leads, fun a ok => ?_⟩
  cases agrees with
  | ok related => exact leads.pos_lt (takes _ _ read)
  | tooDeep | refused => cases ok

theorem magnitude_takes {ts us : List Token} {negative : Bool} {n : Int64}
    (h : (magnitudeParser negative).on ts = (.ok n, us)) : TakesSome ts us := by
  unfold magnitudeParser at h
  rw [on_bind_ok (on_peek ts)] at h
  split at h
  · next is =>
    rw [on_bind_ok (on_next ts)] at h
    cases h
    have ne : (first ts).kind ≠ .eof := by simp [is]
    exact ⟨_, _, Parser.eq_first_cons ne, ne, .refl _⟩
  · cases h
  · cases h

theorem salience_takes {ts us : List Token} {n : Int64}
    (h : Grammar.salience.on ts = (.ok n, us)) : TakesSome ts us := by
  rw [salience_eq] at h
  obtain ⟨minus, ms, taken, read⟩ := on_bind_eq_ok.mp h
  cases minus with
  | none =>
    obtain ⟨-, rfl⟩ := on_nextIf_eq_none taken
    exact magnitude_takes read
  | some minus =>
    obtain ⟨is, rfl⟩ := on_nextIf_kind taken Token.isOperator_iff (by simp)
    exact .cons is (by simp) (magnitude_takes read).takes

/-- Where there is no name, a chain is refused at once. -/
theorem chain_refused (ready : s.Ready) (other : (first s.rest).kind ≠ .identifier) :
    Ends (chain signed) s
      (.error (.refused (.expected .identifier (first s.rest)) (first s.rest).span s.rule)) s := by
  rw [chain, chainHead]
  refine .bind (.stop (ends_expect_neg ready .identifier ?_)) (.pure _ s)
  cases kind : (first s.rest).kind <;> simp [kind] at other ⊢

theorem primary_at (base : Nat) (stands : Stands base room s) :
    Simulates id base AtNext (Tree id) (primary signed).run (Grammar.primary room) s := by
  have at_ (r : Nat) := simulatedAt image_signed base r
  exact primary_simulates image_signed (fun s stands head => chain_simulates image_signed
    (fun r _ => (at_ r).arguments) (fun r _ => (at_ r).expression) stands head)
    (at_ room).expression s stands

theorem IsReader.runs {q : Run (Except Stop α)} (reader : IsReader q) (ready : s.Ready) :
    ∃ r t, Ends q s r t ∧ Leads s.depth.level 0 s t ∧ ∀ a, r = .ok a → s.pos < t.pos := by
  have stands : Stands s.depth.level s.depth.room s := ⟨ready, le_rfl, rfl⟩
  have grounded : Grounded s.depth s.pos s := ⟨ready, rfl, le_rfl⟩
  have simulated := simulatedAt image_signed s.depth.level s.depth.room
  have sound := soundAt s.depth.room
  have operands {b : Binary} {e us} (h : (b.operandParser s.depth.room).on s.rest = (.ok e, us)) :
      TakesSome s.rest us :=
    (sound.operand b _ _ _ h).derives.takesSome b.operand_proper
  cases reader with
  | expression =>
    refine (simulated.expression s stands).forward fun e us h => ?_
    obtain ⟨r, -, derived⟩ := sound.expression _ _ _ h
    exact derived.derives.takesSome trivial
  | level b =>
    refine (simulated.level b s stands).forward fun e us h => ?_
    have derived := Binary.parser_sound (fun r _ => (soundAt r).operand b) _ _ _ h
    exact derived.derives.takesSome trivial
  | comparison =>
    have simulates := simulated.operand .and s stands
    rw [operand] at simulates
    exact simulates.forward fun e us h => operands (b := .and) h
  | unary =>
    have simulates := simulated.operand .product s stands
    rw [operand] at simulates
    exact simulates.forward fun e us h => operands (b := .product) h
  | primary =>
    refine (primary_at _ stands).forward fun e us h => ?_
    have derived := primary_sound chain_derives sound.expression _ _ _ h
    exact derived.derives.takesSome trivial
  | chain =>
    by_cases head : (first s.rest).kind = .identifier
    · refine (chain_at image_signed grounded head).forward fun e us h => ?_
      exact (chain_derives head h).derives.takesSome trivial
    · exact ⟨_, s, chain_refused ready head, .refl ready, fun a ok => by cases ok⟩
  | arguments =>
    refine (simulated.arguments s stands).forward fun out us h => ?_
    have derived := sound.arguments (fun args close => .call "" args close) _ _ _ _ h
    exact derived.derives.takesSome trivial
  | statement =>
    exact (statement_simulates image_signed grounded).forward fun a us h =>
      (statement_sound h).derives.takesSome
  | salience => exact (salience_simulates (f := id) ready).forward fun n us => salience_takes
  | rule =>
    obtain ⟨r, t, r', ran, leads, -, read, agrees⟩ := rule_simulates image_signed grounded
    refine ⟨r, t, ran, leads, fun a ok => ?_⟩
    cases agrees with
    | ok related => exact leads.pos_lt (rule_sound read).derives.takesSome
    | tooDeep | refused => cases ok

/-! ## Balance -/

/-- A reader ends with the counter as it was, with a result or not. Between, every level that is
entered is within the limit, and every level that is left is above those of the beginning. So a rule
set begins each rule, condition and action without any level open. -/
theorem depth_balanced :
    (∀ {α : Type} {q : Run (Except Stop α)}, IsReader q → ∀ s : State, s.Ready →
      ∃ r t, Ends q s r t ∧ t.depth = s.depth ∧
        ∃ new, t.notes = new ++ s.notes ∧ ∀ n ∈ new, n.Within s.depth.level s.depth.limit) ∧
    ∀ limit tokens, (∃ t ∈ tokens, t.kind = .eof) →
      ∃ t, Ends (ruleSet signed [] []) (start limit tokens) (Grammar.rules limit tokens) t ∧
        t.depth = { limit } ∧ ∀ n ∈ t.notes, n.Within 0 limit := by
  constructor
  · intro α q reader s ready
    obtain ⟨r, t, ran, leads, -⟩ := reader.runs ready
    exact ⟨r, t, ran, leads.depth, leads.notes⟩
  · intro limit tokens ended
    obtain ⟨t, ran, leads⟩ := ruleSet_signed limit ended
    obtain ⟨new, eq, within⟩ := leads.notes
    have notes : t.notes = new := eq.trans (List.append_nil new)
    exact ⟨t, ran, leads.depth, notes ▸ within⟩

/-- The second parenthesis is beyond a limit of two. -/
def nested : List Token :=
  [⟨.keyword .rule, "rule", {}⟩, ⟨.identifier, "A", {}⟩, ⟨.mark .openBrace, "\x7b", {}⟩,
    ⟨.keyword .when, "when", {}⟩, ⟨.mark .openParen, "(", {}⟩, ⟨.mark .openParen, "(", {}⟩,
    ⟨.identifier, "x", {}⟩, .eof {}]

theorem depth_balanced_nested :
    (start 2 nested).Ready ∧ (Grammar.rules 2 nested matches .error .tooDeep) = true ∧
      (∃ r t, Ends (rule signed).run (start 2 nested) r t ∧ t.depth = { limit := 2 } ∧
        ∃ new, t.notes = new ++ [] ∧ ∀ n ∈ new, n.Within 0 2) ∧
      ∃ t, Ends (ruleSet signed [] []) (start 2 nested) (Grammar.rules 2 nested) t ∧
        t.depth = { limit := 2 } ∧ ∀ n ∈ t.notes, n.Within 0 2 := by
  have ended : ∃ t ∈ nested, t.kind = .eof := ⟨.eof {}, by simp [nested], rfl⟩
  obtain ⟨readers, rounds⟩ := depth_balanced
  exact ⟨ended, by decide +kernel, readers .rule (start 2 nested) ended, rounds 2 nested ended⟩

end Rulebook.Grammar.Cursor
