import Mathlib
import Rulebook.Proofs.Grammar.Derivation

/-!
# What is behind a derivation

A derivation does not look at the tokens that it leaves, so any others may stand in their place.
-/

namespace Rulebook.Grammar

/-- The tokens that are taken are related to whatever is left behind them. -/
def Framed (R : List Token → List Token → Prop) (ts rest : List Token) : Prop :=
  ∃ used, ts = used ++ rest ∧ ∀ rest', R (used ++ rest') rest'

namespace Framed

variable {R S T : List Token → List Token → Prop} {ts us rest : List Token} {t : Token}

theorem refl (h : ∀ rest, R rest rest) (rest : List Token) : Framed R rest rest := ⟨[], rfl, h⟩

theorem mono (h : Framed R ts rest) (le : ∀ {ts rest}, R ts rest → S ts rest) :
    Framed S ts rest := by
  obtain ⟨used, rfl, all⟩ := h
  exact ⟨used, rfl, fun rest' => le (all rest')⟩

theorem cons (h : Framed (fun us rest => R (t :: us) rest) us rest) : Framed R (t :: us) rest := by
  obtain ⟨used, rfl, all⟩ := h
  exact ⟨t :: used, rfl, all⟩

/-- What stands between two parts belongs to neither of them. -/
theorem link (between : List Token) (h : Framed R ts (between ++ us)) (k : Framed S us rest)
    (join : ∀ {ts us rest}, R ts (between ++ us) → S us rest → T ts rest) : Framed T ts rest := by
  obtain ⟨used, rfl, all⟩ := h
  obtain ⟨used', rfl, all'⟩ := k
  refine ⟨used ++ (between ++ used'), by simp only [List.append_assoc], fun rest' => ?_⟩
  simp only [List.append_assoc]
  exact join (all _) (all' rest')

theorem close (h : Framed R ts (t :: rest)) (join : ∀ {ts rest}, R ts (t :: rest) → S ts rest) :
    Framed S ts rest :=
  link [t] h (refl (R := fun us rest => us = rest) (fun _ => rfl) rest) fun r eq => join (eq ▸ r)

end Framed

theorem Derives.framed {l : Level} {ts rest : List Token} {e : Expr} (h : Derives l ts e rest) :
    Framed (Derives l · e ·) ts rest := by
  induction h with
  | binary _ _ ih ih' => exact ih.link [] ih' .binary
  | done => exact .refl (fun _ => .done) _
  | further op _ _ ih ih' => exact .cons (ih.link [] ih' (.further op))
  | single _ ih => exact ih.mono .single
  | @compared _ _ t _ _ _ _ _ op _ ih ih' => exact ih.link [t] ih' fun l r => .compared l op r
  | plain _ ih => exact ih.mono .plain
  | sign op _ ih => exact .cons (ih.mono (.sign op))
  | literal is => exact .cons (.refl (fun _ => .literal is) _)
  | name _ ih => exact ih.mono .name
  | paren opens _ closes ih => exact .cons (ih.close fun e => .paren opens e closes)
  | ident is _ ih => exact .cons (ih.mono (.ident is))
  | call is _ _ ih ih' => exact .cons (ih.link [] ih' (.call is))
  | stop => exact .refl (fun _ => .stop) _
  | member is named _ ih => exact .cons (.cons (ih.mono (.member is named)))
  | method is named _ _ ih ih' => exact .cons (.cons (ih.link [] ih' (.method is named)))
  | @index _ _ _ _ cl _ _ _ opens _ closes _ ih ih' =>
    exact .cons (ih.link [cl] ih' fun key more => .index opens key closes more)
  | noArguments opens closes => exact .cons (.cons (.refl (fun _ => .noArguments opens closes) _))
  | someArguments opens _ ih => exact .cons (ih.mono (.someArguments opens))
  | lastItem _ closes ih => exact ih.close fun e => .lastItem e closes
  | @nextItem _ _ _ _ comma _ _ _ _ is _ ih ih' =>
    exact ih.link [comma] ih' fun item more => .nextItem item is more

theorem DerivesStatement.framed {ts rest : List Token} {s : Statement}
    (h : DerivesStatement ts s rest) : Framed (DerivesStatement · s ·) ts rest := by
  cases h with
  | @assign _ eq _ _ semi _ target place assigns value ends =>
    have value := value.framed.close (S := fun us rest => Derives .expr us _ (semi :: rest)) id
    exact target.framed.link [eq] value fun t v => .assign t place assigns v ends
  | call e called ends => exact e.framed.close fun e => .call e called ends

theorem Many.framed {α : Type} {R S : List Token → α → List Token → Prop} {ts rest : List Token}
    {as : List α} (h : Many R ts as rest)
    (one : ∀ {ts a rest}, R ts a rest → Framed (S · a ·) ts rest) :
    Framed (Many S · as ·) ts rest := by
  induction h with
  | nil => exact .refl (fun _ => .nil) _
  | cons first _ ih => exact (one first).link [] ih .cons

theorem DerivesDescription.framed {ts rest : List Token} {d : Option String}
    (h : DerivesDescription ts d rest) : Framed (DerivesDescription · d ·) ts rest := by
  cases h with
  | none => exact .refl (fun _ => .none) _
  | some is => exact .cons (.refl (fun _ => .some is) _)

theorem DerivesSalience.framed {ts rest : List Token} {n : Int64} (h : DerivesSalience ts n rest) :
    Framed (DerivesSalience · n ·) ts rest := by
  cases h with
  | none => exact .refl (fun _ => .none) _
  | plain is int => exact .cons (.cons (.refl (fun _ => .plain is int) _))
  | negative is sign int => exact .cons (.cons (.cons (.refl (fun _ => .negative is sign int) _)))

/-- A rule ends in a brace. -/
theorem DerivesRule.framed {ts rest : List Token} {r : Rule} (h : DerivesRule ts r rest) :
    ∃ used cl, cl.kind = .mark .closeBrace ∧ ts = used ++ cl :: rest ∧
      ∀ rest', DerivesRule (used ++ cl :: rest') r rest' := by
  cases h with
  | @mk start name ts d us n op word vs condition thn ws actions cl _ starts named described ranked
      opens introduces derived separates acts some closes =>
    obtain ⟨ds, rfl, describes⟩ := described.framed
    obtain ⟨ns, rfl, ranks⟩ := ranked.framed
    obtain ⟨cs, rfl, derives⟩ := derived.framed
    obtain ⟨as, rfl, act⟩ := acts.framed DerivesStatement.framed
    refine ⟨start :: name :: (ds ++ (ns ++ op :: word :: (cs ++ thn :: as))), cl, closes, by simp,
      fun rest' => ?_⟩
    simp only [List.cons_append, List.append_assoc]
    exact .mk starts named (describes _) (ranks _) opens introduces (derives _) separates
      (act (cl :: rest')) some closes

end Rulebook.Grammar
