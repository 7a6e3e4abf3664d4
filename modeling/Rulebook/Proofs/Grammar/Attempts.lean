import Mathlib
import Rulebook.Proofs.Grammar.Blocks
import Rulebook.Proofs.Grammar.Frame
import Rulebook.Proofs.Grammar.Parse

/-!
# Attempts to read a rule

A rule is attempted at the beginning of every block but some. Recovery skips the token at which an
attempt has failed, even if it begins a block, so a rule whose brace is forgotten hides the block
behind it. The errors are those of the failed attempts.
-/

namespace Rulebook.Grammar

open Rulebook.Grammar.Parser

/-- What an attempt took, what it left, and its rule or fault. -/
structure Attempt where
  taken : List Token
  left : List Token
  result : Except (Fault × Span × Option String) Rule

namespace Attempt

def start (a : Attempt) : List Token := a.taken ++ a.left

def rule? (a : Attempt) : Option Rule :=
  match a.result with
  | .ok r => some r
  | .error _ => none

def fault? (a : Attempt) : Option (Fault × Span × Option String) :=
  match a.result with
  | .ok _ => none
  | .error fault => some fault

def failed (a : Attempt) : Bool := a.fault?.isSome

/-- Whether the attempt failed where another block begins. -/
def hides (a : Attempt) : Bool :=
  a.failed &&
    match a.taken.getLast?, a.left with
    | some last, t :: _ => startsBlock last t
    | _, _ => false

end Attempt

/-- The attempts of `rulesFrom`, as long as the nesting is not too deep. -/
def attemptsFrom (room : Nat) (ts : List Token) : (bound : List Token) → List Attempt
  | [] => []
  | _ :: bound =>
    if (first ts).isEof then []
    else
      match (rule room).on ts with
      | (.ok r, us) => ⟨ts.take (ts.length - us.length), us, .ok r⟩ :: attemptsFrom room us bound
      | (.error .tooDeep, _) => []
      | (.error (.refused fault span name), us) =>
        ⟨ts.take (ts.length - us.length), us, .error (fault, span, name)⟩
          :: attemptsFrom room (recover us) bound

def attempts (room : Nat) (ts : List Token) : List Attempt := attemptsFrom room ts ts

variable {room : Nat} {ts us : List Token} {last : Token}

theorem rulesFrom_eq (bound : List Token) {rules : List Rule}
    {faults : List (Fault × Span × Option String)}
    (shallow : rulesFrom room rules faults ts bound ≠ .error .tooDeep) :
    rulesFrom room rules faults ts bound =
      rulesFrom.finish (((attemptsFrom room ts bound).filterMap Attempt.rule?).reverse ++ rules)
        (((attemptsFrom room ts bound).filterMap Attempt.fault?).reverse ++ faults) := by
  induction bound generalizing ts rules faults with
  | nil => rfl
  | cons _ bound ih =>
    unfold rulesFrom at shallow ⊢
    unfold attemptsFrom
    by_cases ends : (first ts).isEof
    · rw [if_pos ends, if_pos ends]
      rfl
    · rw [if_neg ends] at shallow
      rw [if_neg ends, if_neg ends]
      rcases ran : (rule room).on ts with ⟨(_ | ⟨fault, span, name⟩) | r, us⟩
      all_goals
        have run : (rule room).run.run ts = _ := ran
        rw [run] at shallow ⊢
      · exact absurd rfl shallow
      · refine (ih shallow).trans ?_
        simp [List.filterMap_cons, Attempt.rule?, Attempt.fault?]
      · refine (ih shallow).trans ?_
        simp [List.filterMap_cons, Attempt.rule?, Attempt.fault?]

/-! ## Rules alone -/

/-- All tokens together are one rule. -/
def IsRule (ts : List Token) : Prop := ∃ r, DerivesRule ts r []

theorem isRule_iff : IsRule ts ↔ ∃ r, (rule (ts.length + 1)).on ts = (.ok r, []) := by
  constructor
  · rintro ⟨r, derived⟩
    rcases derived.yields (ts.length + 1) with read | ⟨deep, -⟩
    · exact ⟨r, read⟩
    · omega
  · rintro ⟨r, read⟩
    exact ⟨r, (rule_sound read).derives⟩

instance (ts : List Token) : Decidable (IsRule ts) :=
  decidable_of_iff
    ((match (rule (ts.length + 1)).on ts with
      | (.ok _, []) => true
      | _ => false) = true) <| by
    rw [isRule_iff]
    rcases (rule (ts.length + 1)).on ts with ⟨_ | r, _ | ⟨t, us⟩⟩ <;> simp

theorem IsRule.kind_eq {t : Token} (h : IsRule (t :: ts)) : t.kind = .keyword .rule := by
  obtain ⟨r, derived⟩ := h
  cases derived with
  | mk starts => exact starts

/-- A rule is read from tokens that are one, and the last of them is a brace. -/
theorem rule_on_ok {r : Rule} (h : (rule room).on ts = (.ok r, us)) :
    ∃ used cl, cl.kind = .mark .closeBrace ∧ ts = used ++ [cl] ++ us ∧ IsRule (used ++ [cl]) := by
  obtain ⟨used, cl, closes, rfl, all⟩ := (rule_sound h).derives.framed
  exact ⟨used, cl, closes, by simp, r, all []⟩

/-! ## Attempts at blocks -/

/-- How attempts follow on blocks, the first of which need not be a whole one. -/
inductive Layout (last : Token) : List (List Token) → List Attempt → Prop
  | done : Layout last [] []
  | block {a b bs as} : a.start = (b :: bs).flatten ++ [last] → b ≠ [] → a.hides = false →
      (a.failed ∨ IsRule b) → Layout last bs as → Layout last (b :: bs) (a :: as)
  | part {a b c bs as} : a.start = ((b ++ c) :: bs).flatten ++ [last] → b ≠ [] → a.hides = false →
      ¬ IsRule c → Layout last (c :: bs) as → Layout last ((b ++ c) :: bs) (a :: as)
  | hidden {a b c bs as} : a.start = (b :: c :: bs).flatten ++ [last] → b ≠ [] → c ≠ [] →
      a.hides = true → a.left = (c :: bs).flatten ++ [last] → Layout last bs as →
        Layout last (b :: c :: bs) (a :: as)

variable {before : List Token}

/-- The end is left by an attempt, and what it took is at most one block. -/
theorem rule_takes (room : Nat) (before : List Token) (ends : last.kind = .eof) :
    ((rule room).on (before ++ [last])).2 = before ++ [last] ∨
      ∃ t taken after, before = t :: taken ++ after ∧ Joined (t :: taken) ∧
        ((rule room).on (before ++ [last])).2 = after ++ [last] := by
  rcases rule_passes room (before ++ [last]) with same | ⟨t, us, eq, starts, used, rfl, quiet⟩
  · exact .inl same
  · right
    rw [← List.cons_append] at eq
    rcases List.append_eq_append_iff.mp eq with ⟨after, split, left⟩ | ⟨after, split, left⟩
    · have nil : after = [] := by
        cases after with
        | nil => rfl
        | cons u after =>
          obtain ⟨rfl, -⟩ := List.cons.inj left
          have mem : last ∈ t :: used := split ▸ List.mem_append_right _ List.mem_cons_self
          rcases List.mem_cons.mp mem with rfl | mem
          · rw [starts] at ends
            cases ends
          · exact absurd ends (quiet.ne_eof mem)
      subst nil
      rw [List.append_nil] at split
      refine ⟨t, used, [], by rw [split, List.append_nil], quiet.joined t, ?_⟩
      rw [List.nil_append]
      exact left.symm
    · exact ⟨t, used, after, split, quiet.joined t, left⟩

namespace Layout

variable {t : Token} {taken after : List Token} {as : List Attempt} {r : Rule}
  {fault : Fault × Span × Option String}

/-- Behind the brace of a rule a block begins, or there are tokens that begin no rule. -/
theorem read (joined : Joined (t :: taken)) (isRule : IsRule (t :: taken))
    (closes : ((t :: taken).getLast (List.cons_ne_nil t taken)).kind = .mark .closeBrace)
    (others : Layout last (blocks after) as) :
    Layout last (blocks (t :: taken ++ after)) (⟨t :: taken, after ++ [last], .ok r⟩ :: as) := by
  have start : Attempt.start ⟨t :: taken, after ++ [last], .ok r⟩ =
      (blocks (t :: taken ++ after)).flatten ++ [last] := by
    rw [flatten_blocks, List.append_assoc]
    rfl
  cases after with
  | nil =>
    rw [List.append_nil, blocks_of_joined joined] at start ⊢
    exact .block start (List.cons_ne_nil t taken) rfl (.inr isRule) others
  | cons u after =>
    by_cases starts : startsBlock ((t :: taken).getLast (List.cons_ne_nil t taken)) u
    · rw [blocks_append_of_starts joined starts] at start ⊢
      exact .block start (List.cons_ne_nil t taken) rfl (.inr isRule) others
    · obtain ⟨b, bs, split⟩ := blocks_cons_eq u after
      rw [blocks_append_of_joins joined (by simpa using starts) split] at start ⊢
      rw [split] at others
      refine .part start (List.cons_ne_nil t taken) rfl (fun rule => ?_) others
      have keyword := rule.kind_eq
      simp [startsBlock, Token.isMark, closes, Token.isKeyword_iff.mpr keyword] at starts

theorem stopped (joined : Joined (t :: taken)) (ends : last.kind = .eof)
    (others : Layout last [] as) :
    Layout last (blocks (t :: taken)) (⟨t :: taken, [last], .error fault⟩ :: as) := by
  have other (t : Token) : startsBlock t last = false := startsBlock_of_ne (by simp [ends]) t
  rw [blocks_of_joined joined]
  refine .block (by simp [Attempt.start]) (List.cons_ne_nil t taken) ?_ (.inl rfl) others
  simp [Attempt.hides, List.getLast?_eq_some_getLast, other]

/-- Where the next block begins behind the tokens taken, it is hidden. -/
theorem refused (joined : Joined (t :: taken)) {u : Token} {more skipped : List Token}
    (split : blocks (u :: more) = (u :: skipped) :: blocks after)
    (others : Layout last (blocks after) as) :
    Layout last (blocks (t :: taken ++ u :: more))
      (⟨t :: taken, u :: more ++ [last], .error fault⟩ :: as) := by
  have start : Attempt.start ⟨t :: taken, u :: more ++ [last], .error fault⟩ =
      (blocks (t :: taken ++ u :: more)).flatten ++ [last] := by
    rw [flatten_blocks, List.append_assoc]
    rfl
  have hides : Attempt.hides ⟨t :: taken, u :: more ++ [last], .error fault⟩ =
      startsBlock ((t :: taken).getLast (List.cons_ne_nil t taken)) u := by
    simp [Attempt.hides, Attempt.failed, Attempt.fault?, List.getLast?_eq_some_getLast]
  cases starts : startsBlock ((t :: taken).getLast (List.cons_ne_nil t taken)) u with
  | true =>
    rw [blocks_append_of_starts joined starts, split] at start ⊢
    refine .hidden start (List.cons_ne_nil t taken) (List.cons_ne_nil u skipped) (hides ▸ starts) ?_
      others
    rw [← split, flatten_blocks]
  | false =>
    rw [blocks_append_of_joins joined starts split] at start ⊢
    exact .block start (by simp) (hides ▸ starts) (.inl rfl) others

end Layout

section Steps

variable {taken bound : List Token} {x : Token} {rules : List Rule} {r : Rule} {fault : Fault}
  {faults : List (Fault × Span × Option String)} {span : Span} {name : Option String}

theorem attemptsFrom_ok (split : ts = taken ++ us) (goes : (first ts).isEof = false)
    (ran : (rule room).on ts = (.ok r, us)) :
    attemptsFrom room ts (x :: bound) = ⟨taken, us, .ok r⟩ :: attemptsFrom room us bound := by
  rw [attemptsFrom, if_neg (by simp [goes]), ran, split]
  simp

theorem attemptsFrom_refused (split : ts = taken ++ us) (goes : (first ts).isEof = false)
    (ran : (rule room).on ts = (.error (.refused fault span name), us)) :
    attemptsFrom room ts (x :: bound) =
      ⟨taken, us, .error (fault, span, name)⟩ :: attemptsFrom room (recover us) bound := by
  rw [attemptsFrom, if_neg (by simp [goes]), ran, split]
  simp

theorem rulesFrom_ok (goes : (first ts).isEof = false) (ran : (rule room).on ts = (.ok r, us)) :
    rulesFrom room rules faults ts (x :: bound) = rulesFrom room (r :: rules) faults us bound := by
  have run : (rule room).run.run ts = _ := ran
  rw [rulesFrom, if_neg (by simp [goes]), run]

theorem rulesFrom_refused (goes : (first ts).isEof = false)
    (ran : (rule room).on ts = (.error (.refused fault span name), us)) :
    rulesFrom room rules faults ts (x :: bound) =
      rulesFrom room rules ((fault, span, name) :: faults) (recover us) bound := by
  have run : (rule room).run.run ts = _ := ran
  rw [rulesFrom, if_neg (by simp [goes]), run]

theorem rulesFrom_tooDeep (goes : (first ts).isEof = false)
    (ran : (rule room).on ts = (.error .tooDeep, us)) :
    rulesFrom room rules faults ts (x :: bound) = .error .tooDeep := by
  have run : (rule room).run.run ts = _ := ran
  rw [rulesFrom, if_neg (by simp [goes]), run]

end Steps

section Steps

variable {bound : List Token} {x t : Token} {rules : List Rule}
  {faults : List (Fault × Span × Option String)}

/-- If fewer tokens are left, the attempts at them are laid out on their blocks. -/
def Continues (last : Token) (room : Nat) (ts before bound : List Token) : Prop :=
  ∀ after, after.length < before.length → (∀ t ∈ after, t.kind ≠ .eof) → ts = after ++ [last] →
    Layout last (blocks after) (attemptsFrom room ts bound)

/-- A rule that is read is one block, or the front of one. -/
theorem attemptsFrom_layout_ok (ends : last.kind = .eof)
    (none : ∀ u ∈ t :: before, u.kind ≠ .eof) {r : Rule}
    (ran : (rule room).on (t :: before ++ [last]) = (.ok r, us))
    (goes : (first (t :: before ++ [last])).isEof = false)
    (more : Continues last room us (t :: before) bound) :
    Layout last (blocks (t :: before)) (attemptsFrom room (t :: before ++ [last]) (x :: bound)) := by
  obtain ⟨used, cl, closes, eq, isRule⟩ := rule_on_ok ran
  have takes := rule_takes room (t :: before) ends
  rw [ran] at takes
  rcases takes with rfl | ⟨t', taken, after, split, joined, rfl⟩
  · have lengths := congrArg List.length eq
    simp at lengths
    omega
  · have start : t :: before ++ [last] = t' :: taken ++ (after ++ [last]) := by
      rw [split, List.append_assoc]
    have same := List.append_cancel_right (start.symm.trans eq)
    rw [attemptsFrom_ok start goes ran]
    rw [split] at more none ⊢
    have others := more after (by simp) (fun u mem => none u (List.mem_append_right _ mem)) rfl
    refine .read joined (same ▸ isRule) ?_ others
    simp only [same, List.getLast_append_singleton, closes]

/-- Recovery from an attempt that failed goes to the block behind the one that may be hidden. -/
theorem attemptsFrom_layout_refused (ends : last.kind = .eof)
    (none : ∀ u ∈ t :: before, u.kind ≠ .eof) {fault : Fault} {span : Span} {name : Option String}
    (ran : (rule room).on (t :: before ++ [last]) = (.error (.refused fault span name), us))
    (goes : (first (t :: before ++ [last])).isEof = false)
    (more : Continues last room (recover us) (t :: before) bound) :
    Layout last (blocks (t :: before)) (attemptsFrom room (t :: before ++ [last]) (x :: bound)) := by
  have takes := rule_takes room (t :: before) ends
  rw [ran] at takes
  -- An attempt that took nothing begins no block; recovery goes to the next one.
  rcases takes with rfl | ⟨t', taken, after, split, joined, rfl⟩
  · obtain ⟨nil, -⟩ | ⟨u, skipped, after, split, apart, left⟩ := recover_eq ends none
    · cases nil
    rw [attemptsFrom_refused (List.nil_append _).symm goes ran]
    have others := more after (by simp [split]) (fun u mem => none u (by simp [split, mem])) left
    rw [apart]
    refine .block ?_ (List.cons_ne_nil u skipped) rfl (.inl rfl) others
    rw [← apart, flatten_blocks]
    rfl
  · have start : t :: before ++ [last] = t' :: taken ++ (after ++ [last]) := by
      rw [split, List.append_assoc]
    have none' : ∀ u ∈ after, u.kind ≠ .eof := fun u mem =>
      none u (by rw [split]; exact List.mem_append_right _ mem)
    rw [attemptsFrom_refused start goes ran]
    rw [split] at more ⊢
    obtain ⟨rfl, left⟩ | ⟨u, skipped, next, rfl, apart, left⟩ := recover_eq ends none'
    · have others := more [] (by simp) none' left
      rw [List.append_nil]
      exact .stopped joined ends others
    · have others := more next (by simp; omega)
        (fun u mem => none' u (List.mem_append_right _ mem)) left
      exact .refused joined apart others

/-- As long as the nesting is not too deep, attempts are laid out on all blocks. -/
theorem attemptsFrom_layout (ends : last.kind = .eof) (bound : List Token)
    (none : ∀ t ∈ before, t.kind ≠ .eof) (lt : before.length < bound.length)
    (shallow : rulesFrom room rules faults (before ++ [last]) bound ≠ .error .tooDeep) :
    Layout last (blocks before) (attemptsFrom room (before ++ [last]) bound) := by
  induction bound generalizing before rules faults with
  | nil => exact absurd lt (Nat.not_lt_zero _)
  | cons x bound ih =>
    cases before with
    | nil =>
      have stops : (first ([] ++ [last])).isEof = true := Token.isEof_iff.mpr ends
      rw [attemptsFrom, if_pos stops]
      exact .done
    | cons t before =>
      have goes : (first (t :: before ++ [last])).isEof = false :=
        Token.isEof_eq_false (none t List.mem_cons_self)
      rcases ran : (rule room).on (t :: before ++ [last]) with ⟨(_ | ⟨fault, span, name⟩) | r, us⟩
      · exact absurd (rulesFrom_tooDeep goes ran) shallow
      · rw [rulesFrom_refused goes ran] at shallow
        refine attemptsFrom_layout_refused ends none ran goes fun after shorter none left => ?_
        rw [left] at shallow ⊢
        exact ih none (Nat.lt_of_lt_of_le shorter (Nat.le_of_lt_succ lt)) shallow
      · rw [rulesFrom_ok goes ran] at shallow
        refine attemptsFrom_layout_ok ends none ran goes fun after shorter none left => ?_
        rw [left] at shallow ⊢
        exact ih none (Nat.lt_of_lt_of_le shorter (Nat.le_of_lt_succ lt)) shallow

end Steps

/-! ## Blocks attempted and hidden -/

section Lengths

variable {bs cs : List (List Token)}

theorem length_flatten_le (suffix : cs <:+ bs) : cs.flatten.length ≤ bs.flatten.length := by
  obtain ⟨front, rfl⟩ := suffix
  rw [List.flatten_append, List.length_append]
  omega

theorem length_flatten_lt {b : List Token} (some : b ≠ []) (suffix : cs <:+ bs) :
    cs.flatten.length < (b :: bs).flatten.length := by
  have pos := List.length_pos_iff.mpr some
  have le := length_flatten_le suffix
  rw [List.flatten_cons, List.length_append]
  omega

theorem append_last_ne {us vs : List Token} (lt : vs.length < us.length) :
    us ++ [last] ≠ vs ++ [last] := fun eq =>
  absurd (congrArg List.length (List.append_cancel_right eq)) (Nat.ne_of_gt lt)

end Lengths

namespace Layout

variable {bs cs : List (List Token)} {as : List Attempt}

theorem length_start_le (h : Layout last bs as) {a : Attempt} (mem : a ∈ as) :
    a.start.length ≤ bs.flatten.length + 1 := by
  induction h with
  | done => cases mem
  | block start _ _ _ _ ih | part start _ _ _ _ ih | hidden start _ _ _ _ _ ih =>
    rcases List.mem_cons.mp mem with rfl | mem
    · rw [start, List.length_append, List.length_singleton]
    · have le := ih mem
      simp only [List.flatten_cons, List.length_append] at le ⊢
      omega

/-- Attempts at the blocks neither begin nor end before them. -/
theorem not_before (h : Layout last bs as) {us : List Token} (lt : bs.flatten.length < us.length) :
    (¬ ∃ a ∈ as, a.start = us ++ [last]) ∧ ¬ ∃ a ∈ as, a.hides ∧ a.left = us ++ [last] := by
  constructor
  · rintro ⟨a, mem, start⟩
    have le := h.length_start_le mem
    rw [start, List.length_append, List.length_singleton] at le
    omega
  · rintro ⟨a, mem, -, left⟩
    have le := h.length_start_le mem
    rw [Attempt.start, left, List.length_append, List.length_append, List.length_singleton] at le
    omega

/-- A block is attempted unless it is hidden. -/
theorem attempted_iff (h : Layout last bs as) (suffix : cs <:+ bs) (some : cs ≠ []) :
    (∃ a ∈ as, a.start = cs.flatten ++ [last]) ↔
      ¬ ∃ a ∈ as, a.hides ∧ a.left = cs.flatten ++ [last] := by
  induction h with
  | done => exact absurd (List.suffix_nil.mp suffix) some
  | @block a b bs as start ne shows _ later ih =>
    simp only [List.exists_mem_cons_iff, shows, Bool.false_eq_true, false_and, false_or]
    rcases List.suffix_cons_iff.mp suffix with rfl | suffix
    · simp only [start, true_or, true_iff]
      exact (later.not_before (length_flatten_lt ne List.suffix_rfl)).2
    · rw [or_iff_right (start ▸ append_last_ne (length_flatten_lt ne suffix))]
      exact ih suffix
  | @part a b c bs as start ne shows _ later ih =>
    have within : (c :: bs).flatten.length < ((b ++ c) :: bs).flatten.length := by
      have pos := List.length_pos_iff.mpr ne
      simp only [List.flatten_cons, List.length_append]
      omega
    simp only [List.exists_mem_cons_iff, shows, Bool.false_eq_true, false_and, false_or]
    rcases List.suffix_cons_iff.mp suffix with rfl | suffix
    · simp only [start, true_or, true_iff]
      exact (later.not_before within).2
    · have suffix := suffix.trans (List.suffix_cons c bs)
      rw [or_iff_right (start ▸ append_last_ne ((length_flatten_le suffix).trans_lt within))]
      exact ih suffix
  | @hidden a b c bs as start ne ne' hides left later ih =>
    have second := length_flatten_lt ne' (List.suffix_refl bs)
    simp only [List.exists_mem_cons_iff, hides, true_and]
    rcases List.suffix_cons_iff.mp suffix with rfl | suffix
    · have first := length_flatten_lt ne (List.suffix_refl (c :: bs))
      simp only [start, true_or, true_iff]
      rintro (eq | hidden)
      · exact append_last_ne first (eq.symm.trans left)
      · exact (later.not_before (second.trans first)).2 hidden
    have start_ne : a.start ≠ cs.flatten ++ [last] :=
      start ▸ append_last_ne (length_flatten_lt ne suffix)
    rw [or_iff_right start_ne]
    rcases List.suffix_cons_iff.mp suffix with rfl | suffix
    · simp only [left, true_or, not_true_eq_false, iff_false]
      exact (later.not_before second).1
    · rw [or_iff_right (left ▸ append_last_ne (length_flatten_lt ne' suffix))]
      exact ih suffix

theorem countP_le (h : Layout last bs as) :
    (bs.countP fun b => ¬ IsRule b) ≤ as.countP Attempt.failed + as.countP Attempt.hides := by
  induction h with
  | done => exact le_rfl
  | @block a b bs as _ _ _ fails _ ih =>
    simp only [List.countP_cons]
    rcases fails with failed | rule
    · rw [if_pos failed]
      split <;> omega
    · rw [if_neg (by simpa using rule)]
      omega
  | @part a b c bs as _ _ _ other _ ih =>
    simp only [List.countP_cons] at ih ⊢
    rw [if_pos (by simpa using other)] at ih
    split <;> omega
  | @hidden a b c bs as _ _ _ hides _ _ ih =>
    have failed : a.failed = true := (Bool.and_eq_true_iff.mp hides).1
    simp only [List.countP_cons]
    rw [if_pos hides, if_pos failed]
    split <;> split <;> omega

end Layout

theorem countP_hides_le (as : List Attempt) :
    as.countP Attempt.hides ≤ as.countP Attempt.failed :=
  List.countP_mono_left fun _ _ hides => (Bool.and_eq_true_iff.mp hides).1

theorem length_filterMap_fault? (as : List Attempt) :
    (as.filterMap Attempt.fault?).length = as.countP Attempt.failed := by
  rw [List.length_filterMap_eq_countP]
  rfl

end Rulebook.Grammar

/-! ## Errors of a text -/

namespace Rulebook.RuleSet

open Rulebook.Grammar

variable {source text : String} {limits : Limits} {ts : List Token}

/-- The problems that are reported together. -/
def reported {α : Type} : Except Error α → List Problem
  | .error (.problem p) => [p]
  | .error (.problems ps) => ps
  | _ => []

theorem reported_ofProblems {α : Type} {ps : List Problem} {a : α} :
    reported (match Error.ofProblems ps with
      | some e => .error e
      | none => .ok a) = ps := by
  rcases ps with _ | ⟨p, _ | ⟨q, ps⟩⟩ <;> rfl

theorem reported_parse (scanned : Token.scan text.toList = .ok ts)
    (fits : text.utf8ByteSize ≤ limits.bytes)
    (shallow : Grammar.rules limits.depth ts ≠ .error .tooDeep) :
    reported (parse source limits text) =
      ((attempts limits.depth ts).filterMap Attempt.fault?).map (grammarProblem source) := by
  rw [parse_of_scan scanned fits]
  unfold Grammar.rules at shallow ⊢
  rw [rulesFrom_eq ts shallow]
  unfold rulesFrom.finish attempts
  rw [List.append_nil, List.append_nil, List.isEmpty_reverse]
  by_cases none : (attemptsFrom limits.depth ts ts).filterMap Attempt.fault? = []
  · rw [none]
    rfl
  · rw [if_neg (by simpa using none), List.reverse_reverse]
    exact reported_ofProblems

/-- A block is attempted unless an attempt before it failed where it begins. With those hidden
blocks counted, there are no more blocks that are not a rule than errors, and there is at most one
hidden block for every error. -/
theorem blocks_of_parse (scanned : Token.scan text.toList = .ok ts)
    (fits : text.utf8ByteSize ≤ limits.bytes)
    (shallow : parse source limits text ≠ .error (.tooDeep limits.depth)) :
    ∃ before last, ts = before ++ [last] ∧ last.kind = .eof ∧
      (∀ bs, bs <:+ blocks before → bs ≠ [] →
        ((∃ a ∈ attempts limits.depth ts, a.start = bs.flatten ++ [last]) ↔
          ¬ ∃ a ∈ attempts limits.depth ts, a.hides ∧ a.left = bs.flatten ++ [last])) ∧
      ((blocks before).countP fun b => ¬ IsRule b) ≤
        (reported (parse source limits text)).length +
          (attempts limits.depth ts).countP Attempt.hides ∧
      (attempts limits.depth ts).countP Attempt.hides ≤
        (reported (parse source limits text)).length := by
  obtain ⟨before, last, rfl, reads, ends⟩ := Token.scan_eq_ok scanned
  have shallow : Grammar.rules limits.depth (before ++ [last]) ≠ .error .tooDeep := by
    intro deep
    rw [parse_of_scan scanned fits, deep] at shallow
    exact shallow rfl
  -- The tokens are their own bound: every attempt or recovery takes at least one of them.
  have layout : Layout last (blocks before) (attempts limits.depth (before ++ [last])) :=
    attemptsFrom_layout ends _ (fun t mem => (reads t mem).ne_eof) (by simp) shallow
  rw [reported_parse scanned fits shallow, List.length_map, length_filterMap_fault?]
  exact ⟨before, last, rfl, ends, fun bs => layout.attempted_iff, layout.countP_le,
    countP_hides_le _⟩

/-- The first rule has no closing brace, and the second one no condition. -/
def unclosed : String := "rule A \x7b when true then F(); rule B \x7b when then F(); \x7d"

theorem counts_unclosed :
    ∃ ts, Token.scan unclosed.toList = .ok ts ∧ (attempts 100 ts).length = 1 ∧
      (reported (parse "unclosed" {} unclosed)).length = 1 ∧
      ((blocks ts.dropLast).countP fun b => ¬ IsRule b) = 2 := by
  have counts : (Token.scan unclosed.toList).toOption.map (fun ts =>
      ((attempts 100 ts).length, (reported (parse "unclosed" {} unclosed)).length,
        (blocks ts.dropLast).countP fun b => ¬ IsRule b)) = some (1, 1, 2) := by
    decide +kernel
  rcases scanned : Token.scan unclosed.toList with e | ts
  · rw [scanned] at counts
    cases counts
  · rw [scanned] at counts
    simp only [Except.toOption, Option.map_some, Option.some.injEq, Prod.mk.injEq] at counts
    exact ⟨ts, rfl, counts⟩

/-- The second block is not attempted, and there are fewer errors than blocks that are no rule. -/
theorem reported_unclosed :
    ∃ ts, Token.scan unclosed.toList = .ok ts ∧
      (attempts 100 ts).length < (blocks ts.dropLast).length ∧
      (reported (parse "unclosed" {} unclosed)).length <
        (blocks ts.dropLast).countP fun b => ¬ IsRule b := by
  obtain ⟨ts, scanned, attempted, single, two⟩ := counts_unclosed
  have le := List.countP_le_length (p := fun b => decide (¬ IsRule b)) (l := blocks ts.dropLast)
  exact ⟨ts, scanned, by omega, by omega⟩

theorem blocks_of_parse_unclosed :
    ∃ ts before last, Token.scan unclosed.toList = .ok ts ∧ ts = before ++ [last] ∧
      ((blocks before).countP fun b => ¬ IsRule b) = 2 ∧
      ((blocks before).countP fun b => ¬ IsRule b) ≤
        (reported (parse "unclosed" {} unclosed)).length + (attempts 100 ts).countP Attempt.hides ∧
      (attempts 100 ts).countP Attempt.hides = 1 := by
  obtain ⟨ts, scanned, -, single, two⟩ := counts_unclosed
  have shallow : parse "unclosed" {} unclosed ≠ .error (.tooDeep ({} : Limits).depth) := by
    intro deep
    rw [deep] at single
    cases single
  obtain ⟨before, last, rfl, -, -, le, hides⟩ :=
    blocks_of_parse scanned (by decide +kernel) shallow
  rw [List.dropLast_concat] at two
  refine ⟨_, before, last, scanned, rfl, two, le, ?_⟩
  rw [two, single] at le
  rw [single] at hides
  exact le_antisymm hides (Nat.le_of_add_le_add_left le)

end Rulebook.RuleSet
