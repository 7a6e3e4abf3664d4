import Mathlib
import Rulebook.Proofs.Token.Ends
import Rulebook.Proofs.Token.Tiling

/-!
# Tokens elsewhere

Some neighbouring tokens of a text may be cut out of it, with what stands between them, and put in
front of a blank. They are read there as before, if none of them depends on more than the next.
-/

namespace Rulebook

/-! ## What stands first -/

theorem Gap.first {c : Char} {cs : List Char} (h : Gap (c :: cs)) :
    Piece.isBlank c = true ∨ c = '/' := by
  cases h with
  | blank is => exact .inl is
  | line | block => exact .inr rfl

namespace Ink

variable {k : Ink} {kind : Token.Kind} {rest : List Char}

theorem Means.kind_of_mark {m : Mark} (means : k.Means (some kind)) (is : k.piece = .mark m) :
    kind = .mark m := by
  have read := means {}
  rw [is] at read
  cases read
  rfl

theorem Means.kind_of_operator {o : Operator} (means : k.Means (some kind))
    (is : k.piece = .operator o) : kind = .operator o := by
  have read := means {}
  rw [is] at read
  cases read
  rfl

theorem Means.kind_of_integer (means : k.Means (some kind)) (is : k.piece = .integer) :
    ∃ v, kind = .literal v := by
  have read := means {}
  rw [is] at read
  simp only [Token.kindOf?] at read
  split at read <;> cases read
  exact ⟨_, rfl⟩

theorem Stands.kind_of_dot (stands : k.Stands rest) (means : k.Means (some kind))
    (dot : k.text.head? = some '.') : kind = .mark .dot := by
  obtain ⟨c, cs, text, first⟩ := stands
  rw [text] at dot
  cases dot
  exact means.kind_of_mark (congrArg Prod.fst (Option.some.inj first)).symm

theorem Stands.kind_of_star (stands : k.Stands rest) (means : k.Means (some kind))
    (star : k.text.head? = some '*') : kind = .operator .star := by
  obtain ⟨c, cs, text, first⟩ := stands
  rw [text] at star
  cases star
  exact means.kind_of_operator (congrArg Prod.fst (Option.some.inj first)).symm

end Ink

namespace Token

/-- No point stands behind a literal: the two could be the beginning of a float. -/
def NoPoint (ts : List Token) : Prop :=
  ts.IsChain fun t u => ¬ ((∃ v, t.kind = .literal v) ∧ u.kind = .mark .dot)

/-! ## Stretches -/

/-- From a position on the text is that of these tokens and of the gaps between them, and then comes
`rest`. -/
inductive Stretch : Position → List Char → List Token → List Char → Prop
  | single {p k kind rest} : k.Means (some kind) → k.Stands rest →
      Stretch p k.text [writtenAt p k kind] rest
  | cons {p k kind g cs t ts rest} : k.Means (some kind) → k.Stands (g ++ (cs ++ rest)) → Gap g →
      Stretch ((p.after k.text).after g) cs (t :: ts) rest →
        Stretch p (k.text ++ (g ++ cs)) (writtenAt p k kind :: t :: ts) rest

variable {p : Position} {cs rest rest' : List Char} {t u : Token} {ts us : List Token}

theorem Laid.drop (h : Laid p cs (ts ++ us)) : ∃ a b, cs = a ++ b ∧ Laid (p.after a) b us := by
  induction ts generalizing p cs with
  | nil => exact ⟨[], cs, rfl, h⟩
  | cons t ts ih =>
    cases h with
    | @cons _ g k _ _ _ _ _ _ more =>
      obtain ⟨a, b, rfl, laid⟩ := ih more
      refine ⟨g ++ (k.text ++ a), b, by simp only [List.append_assoc], ?_⟩
      rwa [Position.after_append, Position.after_append]

theorem Laid.stretch (h : Laid p cs (t :: ts ++ us)) : ∃ g s rest, cs = g ++ (s ++ rest) ∧ Gap g ∧
    Stretch (p.after g) s (t :: ts) rest ∧ Laid ((p.after g).after s) rest us := by
  induction ts generalizing p cs t with
  | nil =>
    cases h with
    | @cons _ g k _ rest _ gap means stands more =>
      exact ⟨g, k.text, rest, rfl, gap, .single means stands, more⟩
  | cons u ts ih =>
    cases h with
    | @cons _ g k _ _ _ gap means stands more =>
      obtain ⟨g', s, rest, rfl, gap', stretch, laid⟩ := ih more
      refine ⟨g, k.text ++ (g' ++ s), rest, by simp only [List.append_assoc], gap,
        .cons means stands gap' stretch, ?_⟩
      rwa [Position.after_append, Position.after_append]

theorem Stretch.laid (h : Stretch p cs ts rest) (more : Laid (p.after cs) rest us) :
    Laid p (cs ++ rest) (ts ++ us) := by
  induction h with
  | single means stands => exact .cons .nil means stands more
  | @cons p k kind g cs t ts rest means stands gap _ ih =>
    rw [Position.after_append, Position.after_append] at more
    simp only [List.append_assoc]
    exact .cons .nil means stands (.gap gap (ih more))

theorem Stretch.span (h : Stretch p cs ts rest) (first : ts.head? = some t)
    (last : ts.getLast? = some u) :
    ({ t.span with stop := u.span.stop } : Span) = .ofPositions p (p.after cs) := by
  induction h generalizing t with
  | single =>
    cases first
    cases last
    rfl
  | cons _ _ _ _ ih =>
    cases first
    rw [Position.after_append, Position.after_append]
    have stop := congrArg Span.stop (ih rfl (by simpa using last))
    exact congrArg (fun n => { Span.ofPositions _ _ with stop := n }) stop

/-- The first token of a stretch, in the text and what follows. -/
theorem Stretch.exists_first (h : Stretch p cs (t :: ts) rest) :
    ∃ k kind more, k.text ++ more = cs ∧ k.Means (some kind) ∧ k.Stands (more ++ rest) ∧
      t = writtenAt p k kind := by
  cases h with
  | single means stands => exact ⟨_, _, [], List.append_nil _, means, stands, rfl⟩
  | @cons _ k _ g s _ _ _ means stands =>
    exact ⟨k, _, g ++ s, rfl, means, by rwa [List.append_assoc], rfl⟩

/-- Between two tokens of a stretch nothing depends on what is behind the second. -/
theorem Stretch.ends {k : Ink} {kind : Kind} {g : List Char} (h : Stretch p cs (t :: ts) rest)
    (rest' : List Char) (gap : Gap g) (means : k.Means (some kind))
    (stands : k.Stands (g ++ (cs ++ rest)))
    (closed : ¬ (kind = .operator .slash ∧ t.kind = .operator .star))
    (apart : ¬ ((∃ v, kind = .literal v) ∧ t.kind = .mark .dot)) :
    k.piece.Ends (g ++ (cs ++ rest')) := by
  obtain ⟨k', kind', more, rfl, means', stands', rfl⟩ := h.exists_first
  obtain ⟨c, ds, text, -⟩ := stands'.exists_cons means'
  have front : k'.text.head? = some c := congrArg List.head? text
  -- a character that ends no token as such is the first of the next
  have next {d : Char} (first : d ∈ (g ++ (k'.text ++ more ++ rest')).head?)
      (blank : Piece.isBlank d = false) (slash : d ≠ '/') : k'.text.head? = some d := by
    rcases g with _ | ⟨b, g⟩
    · rw [List.nil_append, List.append_assoc, List.head?_append, front] at first
      rwa [front]
    · cases first
      rcases gap.first with is | is
      · rw [is] at blank
        cases blank
      · exact absurd is slash
  intro d first
  have first' : d ∈ (g ++ (k'.text ++ more ++ rest)).head? := by
    rw [text] at first ⊢
    rcases g with _ | ⟨b, g⟩ <;> exact first
  rcases (stands.form means).2 d first' with ends | ⟨piece, rfl⟩ | ⟨piece, rfl⟩
  · exact ends
  · have dot := stands'.kind_of_dot means' (next first rfl (by decide))
    exact absurd ⟨means.kind_of_integer piece, dot⟩ apart
  · have star := stands'.kind_of_star means' (next first rfl (by decide))
    exact absurd ⟨means.kind_of_operator piece, star⟩ closed

/-- The tokens of a stretch are read so wherever a blank follows. -/
theorem Stretch.move (h : Stretch p cs ts rest) (noOpening : NoOpening ts) (noPoint : NoPoint ts)
    (blank : NotFirst (fun c => !Piece.isBlank c) rest') (q : Position) :
    ∃ ts', Stretch q cs ts' rest' ∧ ts'.map bare = ts.map bare := by
  induction h generalizing q with
  | @single p k kind rest means stands =>
    exact ⟨[writtenAt q k kind], .single means (stands.blank means blank), rfl⟩
  | @cons p k kind g cs t ts rest means stands gap stretch ih =>
    obtain ⟨closed, noOpening⟩ := List.isChain_cons_cons.mp noOpening
    obtain ⟨apart, noPoint⟩ := List.isChain_cons_cons.mp noPoint
    have ends := stretch.ends rest' gap means stands closed apart
    have stands' := Ink.stands_of_form (stands.form means).1 ends
    obtain ⟨ts', moved, same⟩ := ih noOpening noPoint ((q.after k.text).after g)
    rcases ts' with _ | ⟨t', ts'⟩
    · cases same
    · refine ⟨writtenAt q k kind :: t' :: ts', .cons means stands' gap moved, ?_⟩
      exact congrArg (_ :: ·) same

end Token

end Rulebook
