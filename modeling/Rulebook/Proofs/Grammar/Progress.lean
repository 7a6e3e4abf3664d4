import Mathlib
import Rulebook.Proofs.Grammar.Balanced
import Rulebook.Proofs.RuleSet.Spans

/-!
# The cursor goes forward

From every place in a token list that ends, each reader of the machine ends as well, with the cursor
neither before where it was nor beyond the end. Whatever a round meets, it takes a token. So the
faults of the rounds are found one behind the other.
-/

namespace Rulebook.Grammar.Cursor

open Rulebook.Grammar.Parser (first)

variable {α : Type} {base n : Nat} {before tokens : List Token} {last : Token} {s t u : State}

/-! ## Tokens with one end -/

/-- The cursor is not beyond the last token. -/
structure Inside (before : List Token) (last : Token) (s : State) : Prop where
  tokens : s.tokens = before ++ [last]
  pos : s.pos ≤ before.length

namespace Inside

theorem rest_eq (h : Inside before last s) : s.rest = before.drop s.pos ++ [last] := by
  rw [State.rest, h.tokens, List.drop_append_of_le_length h.pos]

theorem ready (h : Inside before last s) (ends : last.kind = .eof) : s.Ready := by
  refine ⟨last, ?_, ends⟩
  rw [h.rest_eq]
  exact List.mem_append_right _ List.mem_cons_self

theorem isEof_first (h : Inside before last s) (none : ∀ t ∈ before, t.kind ≠ .eof)
    (lt : s.pos < before.length) : (first s.rest).isEof = false := by
  rw [h.rest_eq, List.drop_eq_getElem_cons lt]
  exact Token.isEof_eq_false (none _ (List.getElem_mem lt))

theorem leads (h : Inside before last s) (k : Leads base n s t) : Inside before last t := by
  have tokens := k.tokens.trans h.tokens
  have lt := k.ready.pos_lt
  rw [tokens, List.length_append, List.length_singleton] at lt
  exact ⟨tokens, Nat.le_of_lt_succ lt⟩

end Inside

/-! ## Rounds -/

/-- A round goes forward, past the token where its fault starts. -/
theorem ends_round (ready : s.Ready) (goes : (first s.rest).isEof = false) :
    ∃ r t, Ends (round signed) s r t ∧ Leads s.depth.level 0 s t ∧ s.pos < t.pos ∧
      ∀ fault span name, r = .error (.refused fault span name) → Passed s.pos t span := by
  have grounded : Grounded s.depth s.pos s := ⟨ready, rfl, le_rfl⟩
  obtain ⟨r, t, r', us, ran, leads, further, -, -, agrees⟩ :=
    round_simulates image_signed grounded goes
  refine ⟨r, t, ran, leads, further, fun fault span name eq => ?_⟩
  subst eq
  cases agrees with
  | refused _ passed => exact passed

/-- A rule set comes in rounds from one state to another, with the faults that it has found between,
the last of them first. -/
inductive Rounds (s : State) : State → List (Fault × Span × Option String) → Prop
  | none : Rounds s s []
  | read {t u faults r} : Rounds s t faults → (first t.rest).isEof = false →
      Ends (round signed) t (.ok r) u → Rounds s u faults
  | refused {t u faults fault span name} : Rounds s t faults → (first t.rest).isEof = false →
      Ends (round signed) t (.error (.refused fault span name)) u →
        Rounds s u ((fault, span, name) :: faults)

/-- The faults that a rule set gives are those of its rounds. -/
theorem Rounds.ends (rules : List Rule) {faults : List (Fault × Span × Option String)}
    (ready : t.Ready) (rounds : Rounds s t faults) :
    ∃ r u, Ends (ruleSet signed rules faults) t r u ∧
      ∀ found, r = .error (.broken found) → Rounds s u found.reverse := by
  induction left : t.rest.length using Nat.strong_induction_on generalizing t rules faults with
  | _ m ih =>
    subst left
    have peeked := ends_peek ready
    rw [ruleSet]
    cases goes : (first t.rest).isEof with
    | true =>
      refine ⟨if faults.isEmpty then .ok rules.reverse else .error (.broken faults.reverse), t,
        peeked.bind ?_, fun found eq => ?_⟩
      · rw [goes]
        exact .pure _ t
      · split at eq
        · cases eq
        · cases eq
          rwa [List.reverse_reverse]
    | false =>
      obtain ⟨r, u, ran, leads, further, -⟩ := ends_round ready goes
      have fewer := leads.length_rest_lt ready further
      rcases r with (_ | ⟨fault, span, name⟩) | rule
      · refine ⟨.error .tooDeep, u, peeked.bind ?_, fun found eq => by cases eq⟩
        rw [goes]
        exact ran.bind (.pure _ u)
      · obtain ⟨out, v, ran', found⟩ :=
          ih _ fewer rules leads.ready (rounds.refused goes ran) rfl
        refine ⟨out, v, peeked.bind ?_, found⟩
        rw [goes]
        exact ran.bind ran'
      · obtain ⟨out, v, ran', found⟩ :=
          ih _ fewer (rule :: rules) leads.ready (rounds.read goes ran) rfl
        refine ⟨out, v, peeked.bind ?_, found⟩
        rw [goes]
        exact ran.bind ran'

/-! ## Faults in order -/

/-- A token that is passed starts before those that are not. -/
theorem State.start_lt (increase : s.tokens.Pairwise fun x y => x.span.start < y.span.start)
    {i : Nat} {x y : Token} (found : s.tokens[i]? = some x) (lt : i < s.pos) (mem : y ∈ s.rest) :
    x.span.start < y.span.start := by
  rw [← List.take_append_drop s.pos s.tokens, List.pairwise_append] at increase
  refine increase.2.2 x ?_ y mem
  exact List.mem_of_getElem? (i := i) (by rw [List.getElem?_take_of_lt lt, found])

theorem Leads.rest_subset (h : Leads base n s t) : t.rest ⊆ s.rest := by
  intro x mem
  have later : t.rest = s.rest.drop (t.pos - s.pos) := by
    have le := h.pos
    rw [State.rest, State.rest, h.tokens, List.drop_drop, Nat.add_sub_cancel' le]
  exact List.mem_of_mem_drop (later ▸ mem)

/-- The faults start one behind the other, and before all tokens that are not passed. -/
structure Sorted (t : State) (faults : List (Fault × Span × Option String)) : Prop where
  decrease : faults.Pairwise fun f g => g.2.1.start < f.2.1.start
  passed : (first t.rest).isEof = true ∨ ∀ f ∈ faults, ∀ x ∈ t.rest, f.2.1.start < x.span.start

namespace Sorted

variable {faults : List (Fault × Span × Option String)} {fault : Fault} {span : Span}
  {name : Option String}

theorem all_lt (h : Sorted t faults) (goes : (first t.rest).isEof = false) :
    ∀ f ∈ faults, ∀ x ∈ t.rest, f.2.1.start < x.span.start :=
  h.passed.resolve_left (by rw [goes]; exact Bool.false_ne_true)

theorem read (h : Sorted t faults) (goes : (first t.rest).isEof = false)
    (leads : Leads base 0 t u) : Sorted u faults :=
  ⟨h.decrease, .inr fun f mem x mem' => h.all_lt goes f mem x (leads.rest_subset mem')⟩

theorem refused (increase : t.tokens.Pairwise fun x y => x.span.start < y.span.start)
    (h : Sorted t faults) (goes : (first t.rest).isEof = false) (leads : Leads base 0 t u)
    (passed : Passed t.pos u span) : Sorted u ((fault, span, name) :: faults) := by
  obtain ⟨i, x, le, found, starts, behind⟩ := passed
  have mem : x ∈ t.rest := by
    rw [leads.tokens, ← Nat.add_sub_cancel' le, ← List.getElem?_drop] at found
    exact List.mem_of_getElem? found
  refine ⟨List.pairwise_cons.mpr ⟨fun f mem' => ?_, h.decrease⟩, behind.symm.imp_right fun lt => ?_⟩
  · rw [starts]
    exact h.all_lt goes f mem' x mem
  · rw [List.forall_mem_cons]
    constructor
    · intro y later
      rw [starts]
      exact State.start_lt (leads.tokens ▸ increase) found lt later
    · exact fun f mem' y later => h.all_lt goes f mem' y (leads.rest_subset later)

end Sorted

/-- What holds of the faults after a round holds after all. -/
theorem Rounds.sorted {faults : List (Fault × Span × Option String)}
    (increase : s.tokens.Pairwise fun x y => x.span.start < y.span.start) (ready : s.Ready)
    (rounds : Rounds s t faults) : t.Ready ∧ t.tokens = s.tokens ∧ Sorted t faults := by
  induction rounds with
  | none => exact ⟨ready, rfl, .nil, .inr (by simp)⟩
  | read _ goes ran ih =>
    obtain ⟨ready, tokens, sorted⟩ := ih
    obtain ⟨_, _, ran', leads, -⟩ := ends_round ready goes
    obtain ⟨-, rfl⟩ := ran.unique ran'
    exact ⟨leads.ready, leads.tokens.trans tokens, sorted.read goes leads⟩
  | refused _ goes ran ih =>
    obtain ⟨ready, tokens, sorted⟩ := ih
    obtain ⟨_, _, ran', leads, -, passed⟩ := ends_round ready goes
    obtain ⟨rfl, rfl⟩ := ran.unique ran'
    exact ⟨leads.ready, leads.tokens.trans tokens,
      sorted.refused (tokens ▸ increase) goes leads (passed _ _ _ rfl)⟩

/-- The tokens of a text start one behind the other. -/
theorem starts_increase {text : List Char} (scanned : Token.scan text = .ok tokens) :
    tokens.Pairwise fun x y => x.span.start < y.span.start := by
  obtain ⟨us, laid, rfl⟩ := Token.scan_eq_ok_iff_laid.mp scanned
  have ordered := (RuleSet.ordered_of_laid laid).pairs
  have stands := Token.Laid.standsIn [] laid
  rw [List.pairwise_append] at ordered ⊢
  obtain ⟨among, -, ending⟩ := ordered
  refine ⟨among.imp_of_mem fun mem _ le => ?_, List.pairwise_singleton .., fun x mem y mem' => ?_⟩
  · exact Nat.lt_of_lt_of_le (stands _ mem).nonempty le
  · exact Nat.lt_of_lt_of_le (stands x mem).nonempty (ending x mem y mem')

/-! ## Progress -/

theorem Inside.advances (h : Inside before last s) (none : ∀ t ∈ before, t.kind ≠ .eof)
    (ends : last.kind = .eof) :
    ∃ t, Ends advance s (first s.rest) t ∧ t.pos = min (s.pos + 1) before.length := by
  refine ⟨s.next, ends_advance (h.ready ends), ?_⟩
  rcases h.pos.lt_or_eq with lt | eq
  · rw [State.next, h.isEof_first none lt, if_neg Bool.false_ne_true]
    exact (Nat.min_eq_left lt).symm
  · have rest : s.rest = [last] := by
      rw [h.rest_eq, eq, List.drop_length, List.nil_append]
    rw [State.next, rest, Parser.first_cons, Token.isEof_iff.mpr ends, if_pos rfl, eq]
    exact (Nat.min_eq_right (Nat.le_succ _)).symm

theorem Inside.start (limit : Nat) (before : List Token) (last : Token) :
    Inside before last (start limit (before ++ [last])) := ⟨rfl, Nat.zero_le _⟩

/-- From each place in a token list with one end, the next token is taken up to the end, each reader
ends with a result behind at least one token or is refused, each round passes a token and so does
what is skipped, and a rule set ends. The tokens that are looked up are there. The faults of a text
start one behind the other, however many of its rounds are over. -/
theorem cursor_progresses (none : ∀ t ∈ before, t.kind ≠ .eof) (ends : last.kind = .eof) :
    (∀ s, Inside before last s →
      (∃ t, Ends advance s (first s.rest) t ∧ t.pos = min (s.pos + 1) before.length) ∧
      (∀ {α : Type} {q : Run (Except Stop α)}, IsReader q → ∃ r t, Ends q s r t ∧
        Inside before last t ∧ s.pos ≤ t.pos ∧ ∀ a, r = .ok a → s.pos < t.pos) ∧
      (∃ t, Ends (recover signed) s () t ∧ Inside before last t ∧
        (s.pos < before.length → s.pos < t.pos)) ∧
      (s.pos < before.length → ∃ r t, Ends (round signed) s r t ∧ Inside before last t ∧
        s.pos < t.pos)) ∧
    ∀ limit, (∃ t, Inside before last t ∧ Ends (ruleSet signed [] [])
        (start limit (before ++ [last])) (Grammar.rules limit (before ++ [last])) t) ∧
      ∀ text, Token.scan text = .ok (before ++ [last]) →
        (∀ t faults, Rounds (start limit (before ++ [last])) t faults →
          faults.Pairwise fun f g => g.2.1.start < f.2.1.start) ∧
        ∀ faults, Grammar.rules limit (before ++ [last]) = .error (.broken faults) →
          faults.Pairwise fun f g => f.2.1.start < g.2.1.start := by
  constructor
  · intro s inside
    have ready := inside.ready ends
    refine ⟨inside.advances none ends, fun reader => ?_, ?_, fun lt => ?_⟩
    · obtain ⟨r, t, ran, leads, takes⟩ := reader.runs ready
      exact ⟨r, t, ran, inside.leads leads, leads.pos, takes⟩
    · obtain ⟨t, ran, leads, -, further⟩ :
          ∃ t, Ends (recover signed) s () t ∧ Leads 0 0 s t ∧ _ ∧ _ := ends_recover ready
      exact ⟨t, ran, inside.leads leads, fun lt => further (inside.isEof_first none lt)⟩
    · obtain ⟨r, t, ran, leads, further, -⟩ := ends_round ready (inside.isEof_first none lt)
      exact ⟨r, t, ran, inside.leads leads, further⟩
  · intro limit
    have inside := Inside.start limit before last
    have ready := inside.ready ends
    have ended : ∃ t ∈ before ++ [last], t.kind = .eof := ⟨last, by simp, ends⟩
    obtain ⟨t, ran, leads⟩ := ruleSet_signed limit ended
    refine ⟨⟨t, inside.leads leads, ran⟩, fun text scanned => ?_⟩
    have sorted {t faults} (rounds : Rounds (start limit (before ++ [last])) t faults) :
        faults.Pairwise fun f g => g.2.1.start < f.2.1.start :=
      (rounds.sorted (starts_increase scanned) ready).2.2.decrease
    refine ⟨fun t faults => sorted, fun faults broken => ?_⟩
    obtain ⟨r, u, ran', found⟩ := Rounds.none.ends [] ready
    obtain ⟨rfl, -⟩ := ran.unique ran'
    exact List.pairwise_reverse.mp (sorted (found faults broken))

/-- The faults of rules that are broken. -/
def faults? : Except Failure (List Rule) → Option (List (Fault × Span × Option String))
  | .error (.broken faults) => some faults
  | _ => none

theorem faults?_eq_some_iff {r : Except Failure (List Rule)}
    {faults : List (Fault × Span × Option String)} :
    faults? r = some faults ↔ r = .error (.broken faults) := by
  rcases r with (_ | found) | rules <;> simp [faults?]

/-- A rule without an action, one without a condition, and the start of a third. -/
def halves : List Char := "rule A \x7b when x then \x7d rule B \x7b when then \x7d rule".toList

theorem cursor_progresses_halves : ∃ before last faults,
    Token.scan halves = .ok (before ++ [last]) ∧ (∀ t ∈ before, t.kind ≠ .eof) ∧
      last.kind = .eof ∧ Grammar.rules 5 (before ++ [last]) = .error (.broken faults) ∧
      faults.map (fun f => f.2.1.start) = [21, 37, 48] ∧
      (faults.Pairwise fun f g => f.2.1.start < g.2.1.start) ∧
      ∃ t, Inside before last t ∧
        Ends (ruleSet signed [] []) (start 5 (before ++ [last])) (.error (.broken faults)) t := by
  have read : ((Token.scan halves).toOption.bind fun ts => (faults? (Grammar.rules 5 ts)).map
      (·.map fun f => f.2.1.start)) = some [21, 37, 48] := by decide +kernel
  obtain ⟨ts, scanned, read⟩ := Option.bind_eq_some_iff.mp read
  obtain ⟨faults, found, offsets⟩ := Option.map_eq_some_iff.mp read
  have scanned := ok_iff_toOption.mpr scanned
  obtain ⟨before, last, rfl, reads, ends⟩ := Token.scan_eq_ok scanned
  have none : ∀ t ∈ before, t.kind ≠ .eof := fun t mem => (reads t mem).ne_eof
  have broken := faults?_eq_some_iff.mp found
  obtain ⟨-, rounds⟩ := cursor_progresses none ends
  obtain ⟨⟨t, inside, ran⟩, sorted⟩ := rounds 5
  rw [broken] at ran
  exact ⟨before, last, faults, scanned, none, ends, broken, offsets,
    (sorted halves scanned).2 faults broken, t, inside, ran⟩

end Rulebook.Grammar.Cursor
