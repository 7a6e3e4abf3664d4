import Mathlib
import Rulebook.Proofs.Expr.Branch
import Rulebook.Proofs.Rule.Display

/-!
# Trees apart from where they were read

Two readings of one tree differ in their spans only.
-/

namespace Rulebook

/-! ## Without spans -/

namespace Expr

mutual

/-- The tree with every span left out. -/
def bare : Expr → Expr
  | literal v _ => literal v {}
  | ident name _ => ident name {}
  | unary op operand _ => unary op operand.bare {}
  | arith op l r _ => arith op l.bare r.bare {}
  | compare op l r _ => compare op l.bare r.bare {}
  | logic op l r _ => logic op l.bare r.bare {}
  | member object name _ => member object.bare name {}
  | index object key _ => index object.bare key.bare {}
  | call name args _ => call name (bareAll args) {}
  | method receiver name args _ => method receiver.bare name (bareAll args) {}

def bareAll : List Expr → List Expr
  | [] => []
  | e :: es => e.bare :: bareAll es

end

theorem bareAll_eq (es : List Expr) : bareAll es = es.map bare := by
  induction es with
  | nil => rfl
  | cons e es ih => rw [bareAll, ih, List.map_cons]

@[simp] theorem bare_withSpan (e : Expr) (s : Span) : (e.withSpan s).bare = e.bare := by
  cases e <;> simp [withSpan, bare]

mutual

theorem shown_bare : ∀ e : Expr, e.bare.shown = e.shown
  | literal .. | ident .. => rfl
  | unary _ operand _ | member operand _ _ => by rw [bare, shown, shown, shown_bare operand]
  | arith _ l r _ | compare _ l r _ | logic _ l r _ | index l r _ => by
    rw [bare, shown, shown, shown_bare l, shown_bare r]
  | call _ args _ => by rw [bare, shown, shown, shownAll_bareAll args]
  | method receiver _ args _ => by
    rw [bare, shown, shown, shown_bare receiver, shownAll_bareAll args]

theorem shownAll_bareAll : ∀ es : List Expr, shownAll (bareAll es) = shownAll es
  | [] => rfl
  | e :: es => by rw [bareAll, shownAll, shownAll, shown_bare e, shownAll_bareAll es]

end

theorem isNumber_bare (e : Expr) : e.bare.isNumber ↔ e.isNumber := by
  cases e with
  | literal v => cases v <;> exact Iff.rfl
  | _ => exact Iff.rfl

theorem isPlace_bare (e : Expr) : Grammar.isPlace e.bare ↔ Grammar.isPlace e := by
  cases e <;> exact Iff.rfl

theorem isCall_bare (e : Expr) : Grammar.isCall e.bare ↔ Grammar.isCall e := by
  cases e <;> exact Iff.rfl

end Expr

namespace Statement

def bare : Statement → Statement
  | assign target value _ => assign target.bare value.bare {}
  | call e _ => call e.bare {}

end Statement

def Rule.bare (r : Rule) : Rule :=
  { r with condition := r.condition.bare, actions := r.actions.map Statement.bare, span := {} }

/-! ## Literals -/

namespace Expr

def literal? : Expr → Option Literal
  | literal v _ => some v
  | _ => none

def literals (e : Expr) : List Literal := e.nodes.filterMap literal?

variable (e l r o k : Expr) (name : String) (args : List Expr) (s : Span)

@[simp] theorem literals_literal (v : Literal) : (literal v s).literals = [v] := rfl

@[simp] theorem literals_ident : (ident name s).literals = [] := rfl

@[simp] theorem literals_unary (op : UnaryOp) : (unary op e s).literals = e.literals := rfl

@[simp] theorem literals_arith (op : ArithOp) :
    (arith op l r s).literals = l.literals ++ r.literals :=
  List.filterMap_append

@[simp] theorem literals_compare (op : CompareOp) :
    (compare op l r s).literals = l.literals ++ r.literals :=
  List.filterMap_append

@[simp] theorem literals_logic (op : LogicOp) :
    (logic op l r s).literals = l.literals ++ r.literals :=
  List.filterMap_append

@[simp] theorem literals_member : (member o name s).literals = o.literals := rfl

@[simp] theorem literals_index : (index o k s).literals = o.literals ++ k.literals :=
  List.filterMap_append

theorem filterMap_nodesOfAll : (nodesOfAll args).filterMap literal? = args.flatMap literals := by
  rw [nodesOfAll_eq, List.filterMap_flatMap]
  rfl

@[simp] theorem literals_call : (call name args s).literals = args.flatMap literals :=
  filterMap_nodesOfAll args

@[simp] theorem literals_method :
    (method o name args s).literals = o.literals ++ args.flatMap literals := by
  rw [← filterMap_nodesOfAll]
  exact List.filterMap_append

end Expr

def Statement.literals (s : Statement) : List Literal := s.exprs.flatMap Expr.literals

def Rule.literals (r : Rule) : List Literal :=
  r.condition.literals ++ r.actions.flatMap Statement.literals

namespace Rule

def floats (r : Rule) : List Float :=
  r.literals.filterMap fun
    | .float x => some x
    | _ => none

/-- The description and all string literals. -/
def texts (r : Rule) : List String :=
  r.description.toList ++ r.literals.filterMap fun
    | .text s => some s
    | _ => none

/-- Its texts are displayed without the forms that a rule text does not know. -/
def Plain (r : Rule) : Prop := ∀ s ∈ r.texts, Text.Quoted.PlainText s

instance (r : Rule) : Decidable r.Plain :=
  inferInstanceAs (Decidable (∀ s ∈ r.texts, Text.Quoted.PlainText s))

variable {r : Rule}

theorem mem_floats {x : Float} : x ∈ r.floats ↔ .float x ∈ r.literals := by
  unfold floats
  rw [List.mem_filterMap]
  refine ⟨?_, fun mem => ⟨_, mem, rfl⟩⟩
  rintro ⟨v, mem, eq⟩
  cases v <;> cases eq
  exact mem

theorem mem_texts {s : String} : s ∈ r.texts ↔ r.description = some s ∨ .text s ∈ r.literals := by
  unfold texts
  rw [List.mem_append, Option.mem_toList, List.mem_filterMap]
  refine or_congr Iff.rfl ⟨?_, fun mem => ⟨_, mem, rfl⟩⟩
  rintro ⟨v, mem, eq⟩
  cases v <;> cases eq
  exact mem

end Rule

end Rulebook
