import Mathlib
import Rulebook.Proofs.Eval.Reading

/-!
# Facts that no expression names

A chain reaches the fact that it starts with and no other. Sessions that are apart in one fact only
are therefore the same to all expressions in which no chain starts with its name.
-/

namespace Rulebook

theorem Entries.keys_insert_congr {α β : Type} {es : Entries α} {ds : Entries β}
    (same : keys es = keys ds) (key : String) (a : α) (b : β) :
    keys (insert es key a) = keys (insert ds key b) := by
  induction es generalizing ds with
  | nil =>
    obtain rfl := List.map_eq_nil_iff.mp same.symm
    rfl
  | cons e es ih =>
    obtain ⟨k, v⟩ := e
    cases ds with
    | nil => cases same
    | cons d ds =>
      obtain ⟨k', w⟩ := d
      obtain ⟨first, rest⟩ := List.cons.inj same
      obtain rfl : k = k' := first
      unfold insert
      split
      · exact congrArg (k :: ·) rest
      · split
        · exact congrArg (key :: k :: ·) rest
        · exact congrArg (k :: ·) (ih rest)

variable {φ ω : Type} {set : RuleSet} {name : String} {f g : φ}

/-- The contexts have the same names, the same host functions in the same state, and the same facts
apart from one, which is `f` in the first context and `g` in the second. -/
structure Context.Apart (name : String) (f g : φ) (c d : Context φ ω) : Prop where
  names : c.names = d.names
  others : ∀ other, other ≠ name → Entries.get? c.facts other = Entries.get? d.facts other
  left : Entries.get? c.facts name = some f
  right : Entries.get? d.facts name = some g
  functions : c.functions = d.functions
  world : c.world = d.world

/-- The sessions differ in one fact only. -/
structure Session.Apart (name : String) (f g : φ) (s t : Session φ ω) : Prop where
  context : s.context.Apart name f g t.context
  active : s.active = t.active
  retracted : s.retracted = t.retracted
  complete : s.complete = t.complete
  cycle : s.cycle = t.cycle
  events : s.events = t.events

namespace Session.Apart

variable {s t : Session φ ω}

theorem setFact {other : String} (h : other ≠ name) (new : φ) (apart : s.Apart name f g t) :
    (s.setFact other new).Apart name f g (t.setFact other new) where
  context :=
    { names := Entries.keys_insert_congr apart.context.names other new new
      others := fun key ne => by
        simp only [Session.setFact, Entries.get?_insert, apart.context.others key ne]
      left := by simp only [Session.setFact, Entries.get?_insert, h.symm, if_false, apart.context.left]
      right := by
        simp only [Session.setFact, Entries.get?_insert, h.symm, if_false, apart.context.right]
      functions := apart.context.functions
      world := apart.context.world }
  active := apart.active
  retracted := apart.retracted
  complete := apart.complete
  cycle := apart.cycle
  events := apart.events

theorem record (e : Event) (apart : s.Apart name f g t) :
    (s.record e).Apart name f g (t.record e) :=
  { apart with events := congrArg (·.push e) apart.events }

theorem setWorld (w : ω) (apart : s.Apart name f g t) :
    (s.setWorld w).Apart name f g (t.setWorld w) :=
  { apart with context := { apart.context with world := rfl } }

theorem retract (i : Nat) (rule : String) (apart : s.Apart name f g t) :
    (s.retract i rule).Apart name f g (t.retract i rule) := by
  unfold Session.retract
  rw [apart.active]
  split
  · exact { apart with
      active := rfl
      retracted := congrArg (· ++ [rule]) apart.retracted }
  · exact apart

end Session.Apart

namespace Eval

theorem apart_callsAlike : CallsAlike (Session.Apart (φ := φ) (ω := ω) name f g) where
  functions apart := apart.context.functions
  world apart := apart.context.world
  record e _ _ apart := apart.record e
  setWorld w _ _ apart := apart.setWorld w
  retract i rule _ _ apart := apart.retract i rule
  complete apart := { apart with complete := rfl }

theorem apart_accessFact {α : Type} {other : String} (h : other ≠ name) (span : Span)
    (access : φ → Except StepFault α × φ) :
    Respects set (Session.Apart name f g) (accessFact other span access : Eval φ ω α) :=
  .accessFact (fun apart => apart.context.others other h) (fun apart => apart.context.names)
    (fun new _ _ => Session.Apart.setFact h new) span access

/-- The name starts no chain among the expressions. -/
def Unnamed (name : String) (es : List Expr) : Prop := ∀ e ∈ es, e.root? ≠ some name

instance (name : String) (es : List Expr) : Decidable (Unnamed name es) :=
  inferInstanceAs (Decidable (∀ e ∈ es, e.root? ≠ some name))

variable [FactOps φ]

theorem apart_readPlace {p : Place} (h : p.base.fact? ≠ some name) :
    Respects set (Session.Apart name f g) (readPlace p : Eval φ ω Value) := by
  rcases p with ⟨base, steps⟩
  cases base with
  | fact other span => exact apart_accessFact (fun same => h (congrArg some same)) span _
  | value v =>
    unfold readPlace
    dsimp only
    split
    · exact .pure _
    · exact .fail _ _

/-- A place in a fact that another name starts with. -/
theorem fact?_ne {e : Expr} (h : e.root? ≠ some name) {p : Place}
    (given : Given set (place e : Eval φ ω Place) p) : p.base.fact? ≠ some name := by
  rw [(places_root e).of_given given]
  exact h

theorem apart_covers {es : List Expr} (h : Unnamed name es) :
    Covers (φ := φ) (ω := ω) (Given set) (Respects set (Session.Apart name f g)) es where
  read e mem _ given := apart_readPlace (fact?_ne (h e mem) given)
  call called _ span _ vs _ := apart_callsAlike.call called vs span

theorem apart_condition {r : Rule} (h : Unnamed name r.condition.nodes) :
    Respects set (Session.Apart name f g) (condition r : Eval φ ω Bool) :=
  (Respects.composes set _).condition (apart_covers h)

theorem apart_executeAll {as : List Statement}
    (h : ∀ a ∈ as, ∀ e ∈ a.exprs, Unnamed name e.nodes) :
    Respects set (Session.Apart name f g) (executeAll as : Eval φ ω Unit) := by
  refine (Respects.composes set _).executeAll fun a ha =>
    ⟨fun e he => apart_covers (h a ha e he), ?_⟩
  rintro target value span rfl v - p given other origin base
  have ne := fact?_ne (h _ ha target (.head _) target target.self_mem_nodes) given
  rw [base] at ne
  exact apart_accessFact (fun same => ne (congrArg some same)) origin _

end Eval

end Rulebook
