import Mathlib
import Rulebook.Proofs.Grammar.Segments
import Rulebook.Proofs.RuleSet.Joined

/-!
# Expressions alone

The text of an expression may be the condition of a rule of its own, which has one level of room
more. The expression is read from it again, up to spans.
-/

namespace Rulebook

/-! ## Texts with given tokens -/

namespace Token

/-- Wherever it begins, the text has these tokens but for their spans. -/
def Spells (cs : List Char) (us : List Token) : Prop :=
  ∀ p, ∃ ts, Laid p cs ts ∧ ts.map bare = us.map bare

namespace Spells

variable {g cs rest : List Char} {us : List Token}

theorem nil : Spells [] [] := fun _ => ⟨[], .nil (.gap .nil), rfl⟩

theorem ink {k : Ink} {kind : Kind} (h : Spells cs us) (gap : Gap g) (means : k.Means (some kind))
    (stands : k.Stands cs) :
    Spells (g ++ (k.text ++ cs)) (⟨kind, String.ofList k.text, {}⟩ :: us) := by
  intro p
  obtain ⟨ts, laid, same⟩ := h ((p.after g).after k.text)
  exact ⟨_, .cons gap means stands laid, congrArg (_ :: ·) same⟩

theorem word {w : String} {kind : Kind} (h : Spells cs us) (gap : Gap g) (is : Ink.IsWord w)
    (means : wordKind w = kind) (stop : NotFirst Piece.isWordChar cs) :
    Spells (g ++ (w.toList ++ cs)) (⟨kind, w, {}⟩ :: us) := by
  have whole := h.ink gap (Ink.means_word means) (Ink.stands_word is stop)
  rwa [Ink.word, String.ofList_toList] at whole

theorem mark (h : Spells cs us) (gap : Gap g) (m : Mark) :
    Spells (g ++ (m.char :: cs)) (⟨.mark m, String.ofList [m.char], {}⟩ :: us) :=
  h.ink gap (Ink.means_mark m) (Ink.stands_mark m)

theorem stretch {p : Position} {behind : List Char} {seg : List Token} (h : Spells rest us)
    (blank : NotFirst (fun c => !Piece.isBlank c) rest) (stretch : Stretch p cs seg behind)
    (noOpening : NoOpening seg) (noPoint : NoPoint seg) : Spells (cs ++ rest) (seg ++ us) := by
  intro q
  obtain ⟨seg', moved, same⟩ := stretch.move noOpening noPoint blank q
  obtain ⟨ts, laid, same'⟩ := h (q.after cs)
  exact ⟨_, moved.laid laid, by rw [List.map_append, List.map_append, same, same']⟩

theorem gap (h : Spells cs us) (gap : Gap g) : Spells (g ++ cs) us := by
  intro p
  obtain ⟨ts, laid, same⟩ := h (p.after g)
  exact ⟨ts, laid.gap gap, same⟩

theorem scan (h : Spells cs us) :
    ∃ ts, scan cs = .ok ts ∧ ts.map bare = (us ++ [eof {}]).map bare := by
  obtain ⟨ts, laid, same⟩ := h {}
  refine ⟨_, scan_eq_ok_iff_laid.mpr ⟨ts, laid, rfl⟩, ?_⟩
  rw [List.map_append, List.map_append, same]
  rfl

end Spells

end Token

/-! ## The condition of a rule -/

namespace RuleSet

open Grammar
open Token (Spells NoOpening NoPoint Stretch)

/-- A rule that does nothing but ask for the condition. -/
def asCondition (cs : List Char) : String :=
  "rule R \x7b when " ++ String.ofList cs ++ " then F();\x7d"

def openers : List Token :=
  [⟨.keyword .rule, "rule", {}⟩, ⟨.identifier, "R", {}⟩, ⟨.mark .openBrace, "\x7b", {}⟩,
    ⟨.keyword .when, "when", {}⟩]

def closers : List Token :=
  [⟨.keyword .«then», "then", {}⟩, ⟨.identifier, "F", {}⟩, ⟨.mark .openParen, "(", {}⟩,
    ⟨.mark .closeParen, ")", {}⟩, ⟨.mark .semicolon, ";", {}⟩, ⟨.mark .closeBrace, "\x7d", {}⟩]

variable {cs behind : List Char} {seg : List Token} {p : Position} {D : Nat} {e : Expr}

theorem spells_closers : Spells " then F();\x7d".toList closers := by
  have space : Gap [' '] := .blank rfl .nil
  have ends := (Spells.nil.mark .nil .closeBrace).mark .nil .semicolon
  have marks := (ends.mark .nil .closeParen).mark .nil .openParen
  have name := marks.word space (w := "F") (by decide) rfl (notFirst_cons (by decide) _)
  exact name.word space (w := "then") (by decide) rfl (notFirst_cons (by decide) _)

theorem spells_asCondition (stretch : Stretch p cs seg behind) (noOpening : NoOpening seg)
    (noPoint : NoPoint seg) : Spells (asCondition cs).toList (openers ++ (seg ++ closers)) := by
  have space : Gap [' '] := .blank rfl .nil
  have condition := spells_closers.stretch (notFirst_cons (by decide) _) stretch noOpening noPoint
  have inner := (condition.gap space).word space (w := "when") (by decide) rfl
    (notFirst_cons (by decide) _)
  have name := (inner.mark space .openBrace).word space (w := "R") (by decide) rfl
    (notFirst_cons (by decide) _)
  have whole := name.word .nil (w := "rule") (by decide) rfl (notFirst_cons (by decide) _)
  have text : (asCondition cs).toList =
      "rule R \x7b when ".toList ++ (cs ++ " then F();\x7d".toList) := by
    rw [asCondition, String.toList_append, String.toList_append, String.toList_ofList (l := cs),
      List.append_assoc]
  rw [text]
  exact whole

/-- What an expression has for tokens makes a rule of it. -/
theorem derivesRule_alone (derives : ∀ rest, DerivesIn D .expr (seg ++ rest) e rest)
    (rest : List Token) :
    ∃ r, DerivesRuleIn (D + 1) (openers ++ (seg ++ (closers ++ rest))) r rest ∧
      r.condition = e := by
  have call : DerivesStatementIn (D + 1) (closers ++ rest).tail _ (closers ++ rest |>.drop 5) :=
    .call (.call rfl (.noArguments rfl rfl) .stop) trivial rfl
  exact ⟨_, .mk rfl rfl .none .none rfl rfl (derives _) rfl (.cons call .nil) (by simp) rfl, rfl⟩

/-- A text is read as the rule that its tokens are, up to spans. -/
theorem parse_of_spells {text : String} {limits : Limits} {us : List Token} {r : Rule}
    (spells : Spells text.toList us)
    (derived : DerivesRuleIn limits.depth (us ++ [Token.eof {}]) r [Token.eof {}]) (source : String)
    (fits : text.utf8ByteSize ≤ limits.bytes) :
    ∃ r', parse source limits text = .ok [r'] ∧ r'.bare = r.bare := by
  obtain ⟨ts, scanned, same⟩ := spells.scan
  have again := rules_blind limits.depth same
  rw [rules_of_derivesIn (.cons derived .nil) rfl] at again
  generalize read : Grammar.rules limits.depth ts = result at again
  cases again with
  | @ok rules _ alike =>
    obtain ⟨r', rfl, bare⟩ := List.map_eq_singleton_iff.mp alike
    exact ⟨r', (parse_eq_ok_iff scanned fits).mpr read, bare⟩

/-- The text of an expression is read as the condition of a rule of its own. -/
theorem parse_alone {limits : Limits} (stretch : Stretch p cs seg behind)
    (derives : ∀ rest, DerivesIn D .expr (seg ++ rest) e rest) (source : String)
    (depth : limits.depth = D + 1) (fits : (asCondition cs).utf8ByteSize ≤ limits.bytes) :
    ∃ r, parse source limits (asCondition cs) = .ok [r] ∧ r.condition.bare = e.bare := by
  have whole := (derives []).derives
  rw [List.append_nil] at whole
  have noPoint := whole.noPoint (fun _ => nofun) .nil
  have spells := spells_asCondition stretch (whole.noOpening .nil) noPoint
  obtain ⟨r, derived, rfl⟩ := derivesRule_alone derives [Token.eof {}]
  rw [← depth] at derived
  obtain ⟨r', parsed, bare⟩ := parse_of_spells spells (by simpa using derived) source fits
  exact ⟨r', parsed, congrArg Rule.condition bare⟩

end RuleSet

end Rulebook
