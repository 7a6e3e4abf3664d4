import Mathlib
import Rulebook.Proofs.Grammar.Frame
import Rulebook.Proofs.Grammar.Room
import Rulebook.Proofs.Rule.Respan
import Rulebook.Proofs.Token.Joined

/-!
# Derivations elsewhere

The grammar says where a tree stands only by covering spans of its tokens. If the tokens are given
other spans in a way that covering respects, the same derivation leads to the same tree with these
spans, whatever is behind it.
-/

namespace Rulebook.Grammar

open Token (kind_respan)

variable {f : Span → Span} {room : Nat} {l : Level} {ts rest : List Token} {t : Token}

/-! ## Tokens -/

theorem Binary.op?_respan (b : Binary) (t : Token) : b.op? (t.respan f) = b.op? t := by
  cases b <;> rfl

/-- Covering two spans and moving both is the same in either order. -/
def Covers (f : Span → Span) : Prop := ∀ s s', (f s).cover (f s') = f (s.cover s')

theorem covers_id : Covers id := fun _ _ => rfl

theorem Covers.expr (h : Covers f) (e : Expr) (s : Span) :
    (e.respan f).span.cover (f s) = f (e.span.cover s) := by
  rw [Expr.span_respan, h]

theorem Binary.build_respan {b : Binary} {build : Build} (h : b.op? t = some build)
    (covers : Covers f) (left right : Expr) :
    build (left.respan f) (right.respan f) = (build left right).respan f := by
  have span : (left.respan f).span.cover (right.respan f).span =
      f (left.span.cover right.span) := by
    rw [Expr.span_respan f right, covers.expr]
  obtain ⟨op, rfl⟩ | ⟨op, rfl⟩ := Binary.build_cases h <;>
    simp only [covering, Expr.respan, span]

theorem signed_respan (op : UnaryOp) (e : Expr) (s : Span) :
    signed op (e.respan f) (f s) = (signed op e s).respan f := by
  cases op with
  | not => rfl
  | negate =>
    cases e with
    | literal v s' =>
      cases v with
      | int n =>
        simp only [Expr.respan, signed]
        cases Number.toInt64? (-n.toInt) <;> rfl
      | _ => rfl
    | _ => rfl

/-! ## Levels -/

/-- What completes arguments with their new spans. -/
def Carries (f : Span → Span) (build build' : List Expr → Span → Expr) : Prop :=
  ∀ args close, build' (args.map (Expr.respan f)) (f close) = (build args close).respan f

/-- The property of a level, where what was built before has its new spans. -/
def Level.Respanned (f : Span → Span) (P : Level → Prop) : Level → Prop
  | .more b left => P (.more b (left.respan f))
  | .links object => P (.links (object.respan f))
  | .arguments build => ∀ build', Carries f build build' → P (.arguments build')
  | .items build found =>
    ∀ build', Carries f build build' → P (.items build' (found.map (Expr.respan f)))
  | l => P l

theorem Binary.respanned_operand {b : Binary} {P : Level → Prop} :
    b.operand.Respanned f P ↔ P b.operand := by
  cases b <;> exact Iff.rfl

/-- The derivation of the same tree with the new spans. -/
def DerivesRespanned (f : Span → Span) (room : Nat) (l : Level) (e : Expr)
    (ts rest : List Token) : Prop :=
  l.Respanned f fun l' =>
    DerivesIn room l' (ts.map (Token.respan f)) (e.respan f) (rest.map (Token.respan f))

theorem DerivesIn.respan {e : Expr} (h : DerivesIn room l ts e rest) (covers : Covers f) :
    Framed (DerivesRespanned f room l e) ts rest := by
  induction h with
  | binary _ _ ih ih' =>
    exact ih.link [] ih' fun first more => .binary (Binary.respanned_operand.mp first) more
  | done => exact .refl (fun _ => .done) _
  | @further room b left t build ts right us e rest op _ _ ih ih' =>
    refine .cons (ih.link [] ih' fun first more => ?_)
    have more : DerivesIn room (.more b ((build left right).respan f)) _ _ _ := more
    rw [← Binary.build_respan op covers] at more
    exact .further ((b.op?_respan t).trans op) (Binary.respanned_operand.mp first) more
  | single _ ih => exact ih.mono .single
  | @compared _ _ left t _ o right _ _ op _ ih ih' =>
    refine ih.link [t] ih' fun first second => ?_
    have whole := DerivesIn.compared (t := t.respan f) first op second
    rw [Expr.span_respan f right, covers.expr] at whole
    exact whole
  | plain _ ih => exact ih.mono .plain
  | @sign _ t _ _ e _ op _ ih =>
    refine .cons (ih.mono fun operand => ?_)
    have whole := DerivesIn.sign (t := t.respan f) op operand
    change DerivesIn _ _ _ (signed _ _ ((f t.span).cover (e.respan f).span)) _ at whole
    rw [Expr.span_respan, covers, signed_respan] at whole
    exact whole
  | literal is => exact .cons (.refl (fun _ => .literal (kind_respan f is)) _)
  | name _ ih => exact ih.mono .name
  | @paren _ op _ e cl _ opens _ closes ih =>
    refine .cons (ih.close fun inner => ?_)
    have whole := DerivesIn.paren (kind_respan f opens) inner (kind_respan f closes)
    change DerivesIn _ _ _ (Expr.withSpan ((f op.span).cover (f cl.span)) _) _ at whole
    rw [covers, ← Expr.respan_withSpan] at whole
    exact whole
  | ident is _ ih => exact .cons (ih.mono (.ident (kind_respan f is)))
  | call is _ _ ih ih' =>
    refine .cons (ih.link [] ih' fun called linked => ?_)
    refine .call (kind_respan f is) (called _ fun args close => ?_) linked
    rw [Expr.respan, Expr.respanAll_eq, ← covers]
    rfl
  | stop => exact .refl (fun _ => .stop) _
  | @member _ _ _ t _ _ _ _ is named _ ih =>
    refine .cons (.cons (ih.mono fun linked => ?_))
    rw [DerivesRespanned, Level.Respanned, Expr.respan, ← covers.expr] at linked
    exact .member (t := t.respan f) (kind_respan f is) named linked
  | @method _ _ _ t _ _ _ _ _ _ is named _ _ ih ih' =>
    refine .cons (.cons (ih.link [] ih' fun called linked => ?_))
    refine .method (t := t.respan f) (kind_respan f is) named (called _ fun args close => ?_) linked
    rw [Expr.respan, Expr.respanAll_eq, ← covers.expr]
  | @index _ _ _ _ _ cl _ _ _ opens _ closes _ ih ih' =>
    refine .cons (ih.link [cl] ih' fun inner linked => ?_)
    rw [DerivesRespanned, Level.Respanned, Expr.respan, ← covers.expr] at linked
    exact .index (kind_respan f opens) inner (kind_respan f closes) linked
  | noArguments opens closes =>
    refine .cons (.cons (.refl (fun rest build' carries => ?_) _))
    rw [← carries]
    exact .noArguments (kind_respan f opens) (kind_respan f closes)
  | someArguments opens _ ih =>
    refine .cons (ih.mono fun items build' carries => ?_)
    exact .someArguments (kind_respan f opens) (items build' carries)
  | lastItem _ closes ih =>
    refine ih.close fun inner build' carries => ?_
    rw [← carries, List.map_append]
    exact .lastItem inner (kind_respan f closes)
  | @nextItem _ _ _ _ _ comma _ _ _ _ is _ ih ih' =>
    refine ih.link [comma] ih' fun inner more build' carries => ?_
    have more := more build' carries
    rw [List.map_append] at more
    exact .nextItem inner (kind_respan f is) more

/-! ## Left where they are -/

theorem Level.of_respanned_id {P : Level → Prop} {l : Level} (h : l.Respanned id P) : P l := by
  have exprs : Expr.respan id = id := funext Expr.respan_id
  have carries (build : List Expr → Span → Expr) : Carries id build build := fun args close => by
    rw [exprs, List.map_id, id, id]
  cases l with
  | more b left =>
    rw [Respanned, exprs] at h
    exact h
  | links object =>
    rw [Respanned, exprs] at h
    exact h
  | arguments build => exact h build (carries build)
  | items build found =>
    have more := h build (carries build)
    rwa [exprs, List.map_id] at more
  | _ => exact h

/-- A derivation within a room does not look at the tokens that it leaves. -/
theorem DerivesIn.framed {e : Expr} (h : DerivesIn room l ts e rest) :
    Framed (DerivesIn room l · e ·) ts rest := by
  have tokens : Token.respan id = id := rfl
  refine (h.respan covers_id).mono fun derived => ?_
  have same := Level.of_respanned_id derived
  rwa [tokens, List.map_id, List.map_id, Expr.respan_id] at same

/-! ## Statements and rules -/

theorem DerivesStatementIn.respan {s : Statement} (h : DerivesStatementIn room ts s rest)
    (covers : Covers f) :
    Framed (fun us vs => DerivesStatementIn room (us.map (Token.respan f)) (s.respan f)
      (vs.map (Token.respan f))) ts rest := by
  cases h with
  | @assign room _ target eq us value semi _ chain place assigns right ends =>
    have right := (right.respan covers).close
      (S := fun us rest => DerivesRespanned f room .expr value us (semi :: rest)) id
    refine (chain.respan covers).link [eq] right fun chain right => ?_
    have whole := DerivesStatementIn.assign chain ((target.isPlace_respan f).mpr place)
      (kind_respan f assigns) right (kind_respan f ends)
    change DerivesStatementIn _ _ (.assign _ _ ((target.respan f).span.cover (f semi.span))) _
      at whole
    rw [covers.expr] at whole
    exact whole
  | @call _ _ e semi _ chain called ends =>
    refine (chain.respan covers).close fun chain => ?_
    have whole := DerivesStatementIn.call chain ((e.isCall_respan f).mpr called)
      (kind_respan f ends)
    change DerivesStatementIn _ _ (.call _ ((e.respan f).span.cover (f semi.span))) _ at whole
    rw [covers.expr] at whole
    exact whole

theorem DerivesDescription.respan {d : Option String} (h : DerivesDescription ts d rest) :
    Framed (fun us vs => DerivesDescription (us.map (Token.respan f)) d (vs.map (Token.respan f)))
      ts rest := by
  cases h with
  | none => exact .refl (fun _ => .none) _
  | some is => exact .cons (.refl (fun _ => .some (kind_respan f is)) _)

theorem DerivesSalience.respan {n : Int64} (h : DerivesSalience ts n rest) :
    Framed (fun us vs => DerivesSalience (us.map (Token.respan f)) n (vs.map (Token.respan f)))
      ts rest := by
  cases h with
  | none => exact .refl (fun _ => .none) _
  | plain is int =>
    exact .cons (.cons (.refl (fun _ => .plain (kind_respan f is) (kind_respan f int)) _))
  | negative is sign int =>
    refine .cons (.cons (.cons (.refl (fun _ => ?_) _)))
    exact .negative (kind_respan f is) (kind_respan f sign) (kind_respan f int)

theorem Many.map {α : Type} {R : List Token → α → List Token → Prop} {g : Token → Token}
    {k : α → α} {as : List α} (h : Many (fun us a vs => R (us.map g) (k a) (vs.map g)) ts as rest) :
    Many R (ts.map g) (as.map k) (rest.map g) := by
  induction h with
  | nil => exact .nil
  | cons first _ ih => exact .cons first ih

theorem DerivesRuleIn.respan {r : Rule} (h : DerivesRuleIn room ts r rest) (covers : Covers f) :
    Framed (fun us vs => DerivesRuleIn room (us.map (Token.respan f)) (r.respan f)
      (vs.map (Token.respan f))) ts rest := by
  cases h with
  | @mk room start name ts d us n op word vs condition thn ws actions cl _ starts named described
      ranked opens introduces derived separates acts some closes =>
    obtain ⟨ds, rfl, describes⟩ := described.respan (f := f)
    obtain ⟨ns, rfl, ranks⟩ := ranked.respan (f := f)
    obtain ⟨cs, rfl, derives⟩ := derived.respan covers
    obtain ⟨as, rfl, act⟩ := acts.framed fun act => act.respan covers
    refine ⟨start :: name :: (ds ++ (ns ++ op :: word :: (cs ++ thn :: (as ++ [cl])))), by simp,
      fun rest' => ?_⟩
    have acts := (act (cl :: rest')).map
    have condition : DerivesIn room .expr _ _ _ := derives (thn :: (as ++ cl :: rest'))
    have ranked := ranks (op :: word :: (cs ++ thn :: (as ++ cl :: rest')))
    have described := describes (ns ++ op :: word :: (cs ++ thn :: (as ++ cl :: rest')))
    have whole := DerivesRuleIn.mk (kind_respan f starts) (kind_respan f named) described ranked
      (kind_respan f opens) (kind_respan f introduces) condition (kind_respan f separates) acts
      (by simpa using some) (kind_respan f closes)
    change DerivesRuleIn _ _ ⟨_, _, _, _, _, (f start.span).cover (f cl.span)⟩ _ at whole
    rw [covers] at whole
    simp only [List.cons_append, List.append_assoc, List.nil_append]
    exact whole

/-- Rules are derived from their tokens alone, up to where they stand. -/
theorem Many.respan {rules : List Rule} (h : Many (DerivesRuleIn room) ts rules rest)
    (covers : Covers f) :
    Framed (fun us vs => Many (DerivesRuleIn room) (us.map (Token.respan f))
      (rules.map (Rule.respan f)) (vs.map (Token.respan f))) ts rest :=
  (h.framed fun rule => rule.respan covers).mono .map

end Rulebook.Grammar
