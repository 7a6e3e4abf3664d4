import Mathlib
import Rulebook.Proofs.Eval.Composed
import Rulebook.Proofs.Expr.Folded
import Rulebook.Proofs.Grammar.Balanced

/-!
# Folding keeps the meaning

Evaluating a tree in which signs are part of literals gives what evaluating the tree as it was
written gives, and does the same to the session. Where the one fails so does the other, at the same
place and for the same reason.
-/

namespace Rulebook

/-! ## Trees in errors -/

/-- Two faults show a tree. -/
def EvalFault.map (f : Expr → Expr) : EvalFault → EvalFault
  | notTruthValue op type operand => notTruthValue op type (f operand)
  | assignElsewhere target => assignElsewhere (f target)
  | other => other

def Cause.map (f : Expr → Expr) : Cause → Cause
  | grammar fault => grammar (fault.map f)
  | eval fault => eval (fault.map f)
  | other => other

def Problem.map (f : Expr → Expr) (p : Problem) : Problem := { p with cause := p.cause.map f }

def Error.map (f : Expr → Expr) : Error → Error
  | problem p => problem (p.map f)
  | problems ps => problems (ps.map (Problem.map f))
  | other => other

/-! ## Trees in rule sets -/

def RuleSet.map (f : Expr → Expr) (set : RuleSet) : RuleSet :=
  { set with rules := set.rules.map (Rule.map f) }

theorem RuleSet.position?_map (f : Expr → Expr) (set : RuleSet) (name : String) :
    (set.map f).position? name = set.position? name := by
  unfold position? map
  rw [List.findIdx?_map]
  rfl

def Frame.map (f : Expr → Expr) (fr : Frame) : Frame := { fr with ruleSet := fr.ruleSet.map f }

namespace Eval

open Grammar (signed)
open Grammar.Cursor

variable {φ ω α β : Type}

/-- The result and the session, where the trees in an error have their signs folded. -/
def folded (r : Except Error α × Session φ ω) : Except Error α × Session φ ω :=
  (r.1.mapError (Error.map Expr.folded), r.2)

/-- The second evaluation gives and does the same as the first, but for signs in the trees of its
errors. What the rules of the frame look like does not matter. -/
def Folds (x y : Eval φ ω α) : Prop :=
  ∀ (g : Expr → Expr) (fr : Frame) (s : Session φ ω),
    y.runIn (fr.map g) s = folded (x.runIn fr s)

namespace Folds

theorem pure (a : α) : Folds (pure a : Eval φ ω α) (pure a) := fun _ _ _ => rfl

theorem fail (fault : EvalFault) (span : Span) :
    Folds (fail fault span : Eval φ ω α) (fail (fault.map Expr.folded) span) := fun _ _ _ => rfl

theorem bind {x y : Eval φ ω α} {f g : α → Eval φ ω β} (first : Folds x y)
    (rest : ∀ a, Folds (f a) (g a)) : Folds (x >>= f) (y >>= g) := by
  intro h fr s
  have same := first h fr s
  rcases ran : x.runIn fr s with ⟨e | a, t⟩ <;> rw [ran] at same
  · rw [runIn_bind_error same, runIn_bind_error ran]
    rfl
  · rw [runIn_bind_ok same, runIn_bind_ok ran]
    exact rest a h fr t

theorem get_bind {f g : Session φ ω → Eval φ ω α} (rest : ∀ s, Folds (f s) (g s)) :
    Folds (get >>= f) (get >>= g) :=
  .bind (fun _ _ _ => rfl) rest

theorem modify_bind {h : Session φ ω → Session φ ω} {f g : PUnit → Eval φ ω α}
    (rest : Folds (f ⟨⟩) (g ⟨⟩)) : Folds (modify h >>= f) (modify h >>= g) :=
  .bind (fun _ _ _ => rfl) fun _ => rest

theorem ofExcept {ε : Type} {fault : ε → EvalFault} (span : Span) (r : Except ε α)
    (same : ∀ e, (fault e).map Expr.folded = fault e) :
    Folds (ofExcept fault span r : Eval φ ω α) (ofExcept fault span r) := by
  cases r with
  | ok a => exact .pure a
  | error e =>
    have fails := fail (φ := φ) (ω := ω) (α := α) (fault e) span
    rwa [same] at fails

theorem truth (op : LogicOp) (operand : Expr) (v : Value) :
    Folds (truth op operand v : Eval φ ω Bool) (truth op operand.folded v) := by
  cases v
  case bool b => exact .pure b
  all_goals
    unfold Eval.truth
    rw [Expr.span_folded]
    exact fail (.notTruthValue op _ operand) operand.span

theorem retract (target : Value) (span : Span) :
    Folds (retract target span : Eval φ ω Unit) (retract target span) := by
  intro g fr s
  cases target
  case text name =>
    have position : (fr.map g).ruleSet.position? name = fr.ruleSet.position? name :=
      fr.ruleSet.position?_map g name
    unfold Eval.retract
    rw [runIn_bind_ok (runIn_read (fr.map g) s), runIn_bind_ok (runIn_read fr s)]
    dsimp only
    rw [position]
    cases fr.ruleSet.position? name <;> rfl
  all_goals rfl

theorem callIntrinsic (i : Intrinsic) (args : List Value) (span : Span) :
    Folds (callIntrinsic i args span : Eval φ ω Unit) (callIntrinsic i args span) :=
  match i, args with
  | .retract, [target] => retract target span
  | .log, _ | .complete, [] => fun _ _ _ => rfl
  | .retract, [] | .retract, _ :: _ :: _ | .complete, _ :: _ => fail (.argumentCount ..) span

theorem callHost (name : String) (args : List Value) (span : Span) :
    Folds (callHost name args span : Eval φ ω Value) (callHost name args span) := by
  refine get_bind fun s => ?_
  cases Entries.get? s.context.functions name with
  | none => exact fail (.unknownFunction name) span
  | some f =>
    exact modify_bind (get_bind fun _ => modify_bind (ofExcept span _ fun _ => rfl))

theorem call (name : String) (args : List Value) (span : Span) :
    Folds (call name args span : Eval φ ω Value) (call name args span) := by
  unfold Eval.call
  cases Intrinsic.ofName? name with
  | none => exact callHost name args span
  | some i => exact bind (callIntrinsic i args span) fun _ => pure Value.nil

theorem accessFact (name : String) (span : Span) (access : φ → Except StepFault α × φ) :
    Folds (accessFact name span access : Eval φ ω α) (accessFact name span access) := by
  refine get_bind fun s => ?_
  cases Entries.get? s.context.facts name with
  | none => exact get_bind fun s => fail (.unknownFact name s.context.names) span
  | some f =>
    refine modify_bind ?_
    cases (access f).1 with
    | ok a => exact pure a
    | error e => exact fail (.access e.error) e.span

variable [FactOps φ]

theorem readPlace (p : Place) :
    Folds (readPlace p : Eval φ ω Value) (readPlace p) := by
  unfold Eval.readPlace
  cases p.base with
  | fact name span => exact accessFact name span _
  | value v =>
    dsimp only
    cases Chain.readValue p.steps.reverse v with
    | ok v => exact pure v
    | error e => exact fail (.access e.error) e.span

/-- Reading what an expression leads to and going on. -/
theorem read {e e' : Expr} {f g : Value → Eval φ ω α}
    (places : Folds (place e : Eval φ ω Place) (place e'))
    (rest : ∀ v, Folds (f v) (g v)) :
    Folds (do let v ← Eval.readPlace (← place e); f v)
      (do let v ← Eval.readPlace (← place e'); g v) :=
  places.bind fun p => (readPlace p).bind rest

end Folds

variable [FactOps φ]

/-- A literal that a sign is part of leads where the sign before the literal does. -/
theorem place_signed (op : UnaryOp) (e : Expr) (span : Span) :
    (place (signed op e span) : Eval φ ω Place) = place (.unary op e span) := by
  unfold signed
  split
  · next n s =>
    split
    · next m fits =>
      have value : Value.unary .negate (.int n) = .ok (.int m) := by
        rw [Value.unary, Value.negate, fits]
      change _ = ofExcept .operator span (Value.unary .negate (.int n)) >>= fun v =>
        Pure.pure (Place.ofValue v)
      rw [value]
      rfl
    · rfl
  · rfl
  · rfl

mutual

theorem folds_place : ∀ e : Expr, Folds (place e : Eval φ ω Place) (place e.folded)
  | .literal .. | .ident .. => by
    rw [Expr.folded]
    exact .pure _
  | .unary op operand span => by
    rw [Expr.folded, place_signed]
    exact .read (folds_place operand) fun _ =>
      .bind (.ofExcept span _ fun _ => rfl) fun _ => .pure _
  | .arith op l r span | .compare op l r span => by
    rw [Expr.folded]
    exact .read (folds_place l) fun _ => .read (folds_place r) fun _ =>
      .bind (.ofExcept span _ fun _ => rfl) fun _ => .pure _
  | .logic op l r _ => by
    rw [Expr.folded]
    refine .read (folds_place l) fun v => .bind (.truth op l v) fun b => ?_
    split
    · exact .pure _
    · exact .read (folds_place r) fun v => .bind (.truth op r v) fun _ => .pure _
  | .member object _ _ => by
    rw [Expr.folded]
    exact .bind (folds_place object) fun _ => .pure _
  | .index object key _ => by
    rw [Expr.folded]
    exact .bind (folds_place object) fun _ => .read (folds_place key) fun _ => .pure _
  | .call name args span => by
    rw [Expr.folded]
    exact .bind (folds_values args) fun vs => .bind (.call name vs span) fun _ => .pure _
  | .method receiver _ args _ => by
    rw [Expr.folded]
    exact .bind (folds_place receiver) fun _ => .bind (folds_values args) fun _ => .pure _

theorem folds_values : ∀ es : List Expr,
    Folds (values es : Eval φ ω (List Value)) (values (Expr.foldedAll es))
  | [] => .pure []
  | e :: es => by
    rw [Expr.foldedAll]
    exact .read (folds_place e) fun _ => .bind (folds_values es) fun _ => .pure _

end

theorem folds_eval (e : Expr) : Folds (eval e : Eval φ ω Value) (eval e.folded) :=
  .bind (folds_place e) .readPlace

theorem folds_assign (target : Expr) (v : Value) :
    Folds (assign target v : Eval φ ω Unit) (assign target.folded v) := by
  unfold assign
  rw [Expr.root?_folded, Expr.span_folded]
  split
  · exact .fail (.assignElsewhere target) target.span
  refine .bind (folds_place target) fun p => ?_
  match p with
  | ⟨.fact name _, []⟩ => exact .fail (.assignToFact name) target.span
  | ⟨.fact name span, step :: steps⟩ => exact .accessFact name span _
  | ⟨.value _, _⟩ => exact .fail (.assignElsewhere target) target.span

theorem folds_execute (a : Statement) :
    Folds (execute a : Eval φ ω Unit) (execute (a.map Expr.folded)) := by
  cases a with
  | assign target value _ => exact .bind (folds_eval value) fun v => folds_assign target v
  | call e _ => exact .bind (folds_eval e) fun _ => .pure ()

/-- A parser that keeps every sign as a node reads a token list that ends as the grammar does, but
that the grammar folds the signs of the trees: so both accept it or refuse it alike. Evaluating a
tree with its signs folded gives the same value as evaluating the tree, or fails in the same place
for the same reason, after the same changes to the session. -/
theorem folding_keeps_meaning :
    (∀ limit tokens, (∃ t ∈ tokens, t.kind = .eof) →
      ∃ r t u, Ends (ruleSet Expr.unary [] []) (start limit tokens) r t ∧
        Ends (ruleSet signed [] []) (start limit tokens) (outcome Expr.folded r) u ∧
        Grammar.rules limit tokens = outcome Expr.folded r) ∧
    ∀ {φ ω : Type} [FactOps φ] (g : Expr → Expr) (fr : Frame) (s : Session φ ω),
      (∀ e : Expr, (eval e.folded).runIn (fr.map g) s = folded ((eval e).runIn fr s)) ∧
      ∀ a : Statement,
        (execute (a.map Expr.folded)).runIn (fr.map g) s = folded ((execute a).runIn fr s) := by
  refine ⟨fun limit tokens ended => ?_, fun g fr s => ⟨fun e => ?_, fun a => ?_⟩⟩
  · obtain ⟨last, mem, ends⟩ := ended
    obtain ⟨r, t, ran, -, read⟩ := ruleSet_reads image_folded limit mem ends
    obtain ⟨u, ran', -⟩ := ruleSet_signed limit ⟨last, mem, ends⟩
    exact ⟨r, t, u, ran, read ▸ ran', read⟩
  · exact folds_eval e g fr s
  · exact folds_execute a g fr s

/-- Signs before a key in parentheses, before a sign, and before what is no literal. -/
def signs : List Char := "rule A \x7b when F[-(1)] == --2 then F.x = -F.x; \x7d".toList

theorem folding_keeps_meaning_signs :
    let key := Expr.unary .negate (.unary .negate (.literal (.int 1) {}) {}) {}
    let e := Expr.member (.index (.ident "F" {}) key {}) "x" {}
    (∃ tokens rs t u, Token.scan signs = .ok tokens ∧ (∃ t ∈ tokens, t.kind = .eof) ∧
      Ends (ruleSet Expr.unary [] []) (start 5 tokens) (.ok rs) t ∧
      Ends (ruleSet signed [] []) (start 5 tokens) (.ok (rs.map (Rule.map Expr.folded))) u ∧
      (rs.map (Rule.map Expr.folded)).map (fun r => r.condition.shown) = ["(F[-1] == 2)"]) ∧
    e.folded = .member (.index (.ident "F" {}) (.literal (.int 1) {}) {}) "x" {} ∧
      (eval e.folded).runIn (pairFrame.map id) pairSession = (.ok (.int 5), pairSession) := by
  intro key e
  obtain ⟨reads, evaluates⟩ := folding_keeps_meaning
  refine ⟨?_, rfl, ?_⟩
  · have read : ((Token.scan signs).toOption.bind fun ts => (Grammar.rules 5 ts).toOption.map
        (·.map fun r => r.condition.shown)) = some ["(F[-1] == 2)"] := by decide +kernel
    obtain ⟨tokens, scanned, read⟩ := Option.bind_eq_some_iff.mp read
    have scanned := ok_iff_toOption.mpr scanned
    obtain ⟨before, last, rfl, -, ends⟩ := Token.scan_eq_ok scanned
    have ended : ∃ t ∈ before ++ [last], t.kind = .eof := ⟨last, by simp, ends⟩
    obtain ⟨r, t, u, ran, ran', eq⟩ := reads 5 _ ended
    rw [eq] at read
    rcases r with (_ | faults) | rs
    · cases read
    · cases read
    · exact ⟨_, rs, t, u, scanned, ended, ran, ran', Option.some.inj read⟩
  · have plain : (eval e).runIn pairFrame pairSession = (.ok (.int 5), pairSession) := by rfl
    rw [(evaluates id pairFrame pairSession).1 e, plain]
    rfl

end Eval

end Rulebook
