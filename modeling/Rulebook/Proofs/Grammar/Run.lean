import Mathlib
import Rulebook.Grammar.Rule

/-!
# Running parsers

What a parser does with a token list is read off `on`: its result, and the tokens that are left.
-/

namespace Rulebook

/-! ## Kinds of tokens -/

namespace Token

variable {t : Token}

theorem isEof_iff : t.isEof = true ↔ t.kind = .eof := by
  unfold isEof
  cases t.kind <;> simp

theorem isKeyword_iff {k : Keyword} : t.isKeyword k = true ↔ t.kind = .keyword k := by
  unfold isKeyword
  cases t.kind <;> simp

theorem isMark_iff {m : Mark} : t.isMark m = true ↔ t.kind = .mark m := by
  unfold isMark
  cases t.kind <;> simp

theorem isOperator_iff {o : Operator} : t.isOperator o = true ↔ t.kind = .operator o := by
  unfold isOperator
  cases t.kind <;> simp

theorem isEof_eq_false (h : t.kind ≠ .eof) : t.isEof = false := by
  rw [← Bool.not_eq_true, isEof_iff]
  exact h

end Token

namespace Grammar.Parser

variable {α β : Type}

/-! ## The front of a token list -/

@[simp] theorem first_cons (t : Token) (ts : List Token) : first (t :: ts) = t := rfl

theorem rest_cons {t : Token} (h : t.kind ≠ .eof) (ts : List Token) : rest (t :: ts) = ts := by
  change (if t.isEof then t :: ts else ts) = ts
  rw [Token.isEof_eq_false h, if_neg Bool.false_ne_true]

theorem eq_first_cons {ts : List Token} (h : (first ts).kind ≠ .eof) : ts = first ts :: rest ts := by
  cases ts with
  | nil => exact absurd rfl h
  | cons t ts =>
    rw [first_cons] at h
    rw [rest_cons h, first_cons]

/-! ## Elementary parsers -/

/-- What a parser makes of a token list. -/
def on (p : Parser α) (ts : List Token) : Except Stop α × List Token := p.run.run ts

theorem on_bind (x : Parser α) (f : α → Parser β) (ts : List Token) :
    (x >>= f).on ts =
      match x.on ts with
      | (.ok a, us) => (f a).on us
      | (.error e, us) => (.error e, us) := by
  unfold on
  simp only [ExceptT.run_bind, StateT.run_bind]
  rcases x.run.run ts with ⟨_ | _, us⟩ <;> rfl

theorem on_bind_ok {x : Parser α} {ts us : List Token} {a : α} (h : x.on ts = (.ok a, us))
    (f : α → Parser β) : (x >>= f).on ts = (f a).on us := by
  rw [on_bind, h]

theorem on_bind_error {x : Parser α} {ts us : List Token} {e : Stop} (h : x.on ts = (.error e, us))
    (f : α → Parser β) : (x >>= f).on ts = (.error e, us) := by
  rw [on_bind, h]

/-- A sequence succeeds if both parts do. -/
theorem on_bind_eq_ok {x : Parser α} {f : α → Parser β} {ts us : List Token} {b : β} :
    (x >>= f).on ts = (.ok b, us) ↔
      ∃ a ms, x.on ts = (.ok a, ms) ∧ (f a).on ms = (.ok b, us) := by
  rcases ran : x.on ts with ⟨e | a, ms⟩
  · rw [on_bind_error ran]
    simp
  · rw [on_bind_ok ran]
    simp

@[simp] theorem on_pure (a : α) (ts : List Token) : (pure a : Parser α).on ts = (.ok a, ts) := rfl

@[simp] theorem on_throw (e : Stop) (ts : List Token) :
    (throw e : Parser α).on ts = (.error e, ts) := rfl

@[simp] theorem on_get (ts : List Token) : (get : Parser (List Token)).on ts = (.ok ts, ts) := rfl

@[simp] theorem on_peek (ts : List Token) : peek.on ts = (.ok (first ts), ts) := rfl

@[simp] theorem on_next (ts : List Token) : next.on ts = (.ok (first ts), rest ts) := rfl

@[simp] theorem on_refuse (fault : Fault) (span : Span) (ts : List Token) :
    (refuse fault span : Parser α).on ts = (.error (.refused fault span none), ts) := rfl

@[simp] theorem on_expected (what : Expected) (ts : List Token) :
    (expected what : Parser α).on ts =
      (.error (.refused (.expected what (first ts)) (first ts).span none), ts) := rfl

theorem on_nextIf (p : Token → Bool) (ts : List Token) :
    (nextIf p).on ts = if p (first ts) then (.ok (some (first ts)), rest ts) else (.ok none, ts) := by
  unfold nextIf
  rw [on_bind_ok (on_peek ts)]
  split <;> rfl

theorem on_nextIf_pos {p : Token → Bool} {t : Token} (h : p t = true) (ne : t.kind ≠ .eof)
    (ts : List Token) : (nextIf p).on (t :: ts) = (.ok (some t), ts) := by
  rw [on_nextIf, first_cons, if_pos h, rest_cons ne]

theorem on_nextIf_neg {p : Token → Bool} {ts : List Token} (h : p (first ts) = false) :
    (nextIf p).on ts = (.ok none, ts) := by
  rw [on_nextIf, if_neg (by simp [h])]

theorem on_mark {t : Token} {m : Mark} (h : t.kind = .mark m) (ts : List Token) :
    (mark m).on (t :: ts) = (.ok t, ts) := by
  unfold mark
  rw [on_bind_ok (on_nextIf_pos (Token.isMark_iff.mpr h) (by simp [h]) ts)]
  rfl

theorem on_keyword {t : Token} {k : Keyword} (h : t.kind = .keyword k) (ts : List Token) :
    (keyword k).on (t :: ts) = (.ok t, ts) := by
  unfold keyword
  rw [on_bind_ok (on_nextIf_pos (Token.isKeyword_iff.mpr h) (by simp [h]) ts)]
  rfl

/-- A token that was taken stood at the front. -/
theorem on_nextIf_eq_some {p : Token → Bool} {ts us : List Token} {t : Token}
    (h : (nextIf p).on ts = (.ok (some t), us)) (ne : p t = true → t.kind ≠ .eof) :
    p t = true ∧ ts = t :: us := by
  rw [on_nextIf] at h
  split at h
  · next pos =>
    cases h
    exact ⟨pos, eq_first_cons (ne pos)⟩
  · cases h

theorem on_nextIf_kind {p : Token → Bool} {kind : Token.Kind} {ts us : List Token} {t : Token}
    (h : (nextIf p).on ts = (.ok (some t), us)) (is : p t = true ↔ t.kind = kind)
    (ne : kind ≠ .eof) : t.kind = kind ∧ ts = t :: us := by
  rw [← is]
  exact on_nextIf_eq_some h fun pos => (is.mp pos).symm ▸ ne

theorem on_nextIf_eq_none {p : Token → Bool} {ts us : List Token}
    (h : (nextIf p).on ts = (.ok none, us)) : p (first ts) = false ∧ us = ts := by
  rw [on_nextIf] at h
  split at h
  · cases h
  · next neg =>
    cases h
    exact ⟨by simpa using neg, rfl⟩

theorem on_mark_eq_ok {m : Mark} {ts us : List Token} {t : Token}
    (h : (mark m).on ts = (.ok t, us)) : t.kind = .mark m ∧ ts = t :: us := by
  unfold mark at h
  rw [on_bind_eq_ok] at h
  obtain ⟨o, ms, took, h⟩ := h
  cases o with
  | none => cases h
  | some t' =>
    cases h
    exact on_nextIf_kind took Token.isMark_iff (by simp)

theorem on_keyword_eq_ok {k : Keyword} {ts us : List Token} {t : Token}
    (h : (keyword k).on ts = (.ok t, us)) : t.kind = .keyword k ∧ ts = t :: us := by
  unfold keyword at h
  rw [on_bind_eq_ok] at h
  obtain ⟨o, ms, took, h⟩ := h
  cases o with
  | none => cases h
  | some t' =>
    cases h
    exact on_nextIf_kind took Token.isKeyword_iff (by simp)

theorem on_tryCatch (p : Parser α) (h : Stop → Parser α) (ts : List Token) :
    (tryCatch p h : Parser α).on ts =
      match p.on ts with
      | (.ok a, us) => (.ok a, us)
      | (.error e, us) => (h e).on us := by
  rcases ran : p.on ts with ⟨r, us⟩
  have ran' : @StateT.run (List Token) Id (Except Stop α) p ts = (r, us) := ran
  unfold on
  simp only [tryCatch, tryCatchThe, MonadExceptOf.tryCatch, ExceptT.tryCatch, ExceptT.run_mk,
    StateT.run_bind]
  rw [ran']
  cases r <;> rfl

/-- Naming the rule of a failure makes no difference to what is read. -/
theorem on_inRule_eq_ok {name : String} {p : Parser α} {ts us : List Token} {a : α} :
    (inRule name p).on ts = (.ok a, us) ↔ p.on ts = (.ok a, us) := by
  unfold inRule
  rw [on_tryCatch]
  rcases p.on ts with ⟨(_ | _) | _, vs⟩ <;> simp

theorem on_inRule_tooDeep {name : String} {p : Parser α} {ts us : List Token}
    (h : p.on ts = (.error .tooDeep, us)) : (inRule name p).on ts = (.error .tooDeep, us) := by
  unfold inRule
  rw [on_tryCatch, h]
  rfl

end Grammar.Parser

end Rulebook
