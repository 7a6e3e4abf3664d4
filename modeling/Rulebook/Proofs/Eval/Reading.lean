import Mathlib
import Rulebook.Proofs.Eval.Given

/-!
# What an evaluation depends on

An expression never reads which rules are active, what was reported or how many cycles there were:
sessions with the same facts and host functions are interchangeable for it. Without calls by a bare
name the facts alone decide.
-/

namespace Rulebook.Eval

variable {φ ω α β : Type}

/-- From sessions that are the same to it, an evaluation over the rule set leads to the same result
and to sessions that are the same again. -/
def Respects (set : RuleSet) (same : Session φ ω → Session φ ω → Prop) (x : Eval φ ω α) : Prop :=
  ∀ rule s t, same s t → (x.runIn ⟨set, rule⟩ s).1 = (x.runIn ⟨set, rule⟩ t).1 ∧
    same (x.runIn ⟨set, rule⟩ s).2 (x.runIn ⟨set, rule⟩ t).2

namespace Respects

variable {set : RuleSet} {same : Session φ ω → Session φ ω → Prop}

theorem pure (a : α) : Respects set same (pure a : Eval φ ω α) := by
  intro rule s t eq
  exact ⟨rfl, eq⟩

theorem fail (fault : EvalFault) (span : Span) :
    Respects set same (fail fault span : Eval φ ω α) := by
  intro rule s t eq
  exact ⟨rfl, eq⟩

theorem throw (e : Error) : Respects set same (throw e : Eval φ ω α) := by
  intro rule s t eq
  exact ⟨rfl, eq⟩

theorem bind {x : Eval φ ω α} {f : α → Eval φ ω β} (hx : Respects set same x)
    (hf : ∀ a, Given set x a → Respects set same (f a)) : Respects set same (x >>= f) := by
  intro rule s t eq
  obtain ⟨result, after⟩ := hx rule s t eq
  rcases ran : x.runIn ⟨set, rule⟩ s with ⟨r, s'⟩
  rcases ran' : x.runIn ⟨set, rule⟩ t with ⟨r', t'⟩
  rw [ran, ran'] at result after
  dsimp only at result after
  subst result
  cases r with
  | ok a =>
    rw [runIn_bind_ok ran, runIn_bind_ok ran']
    exact hf a ⟨rule, s, s', ran⟩ rule s' t' after
  | error e =>
    rw [runIn_bind_error ran, runIn_bind_error ran']
    exact ⟨rfl, after⟩

theorem composes (set : RuleSet) (same : Session φ ω → Session φ ω → Prop) :
    Composes (Given set) (Respects set same) where
  pure := .pure
  fail fault span _ := .fail fault span
  bind := .bind

/-- What goes on in the same way from sessions that are the same. -/
theorem get_bind {f : Session φ ω → Eval φ ω β} (alike : ∀ {s t}, same s t → f s = f t)
    (hf : ∀ s, Respects set same (f s)) : Respects set same (get >>= f) := by
  intro rule s t eq
  rw [runIn_bind_ok (runIn_get _ s), runIn_bind_ok (runIn_get _ t), alike eq]
  exact hf t rule s t eq

theorem update {g : Session φ ω → Session φ ω} (kept : ∀ {s t}, same s t → same (g s) (g t)) :
    Respects set same (modify g : Eval φ ω PUnit) := by
  intro rule s t eq
  exact ⟨rfl, kept eq⟩

theorem update_bind {g : Session φ ω → Session φ ω} {f : PUnit → Eval φ ω β}
    (kept : ∀ {s t}, same s t → same (g s) (g t)) (hf : Respects set same (f ⟨⟩)) :
    Respects set same (modify g >>= f) :=
  (update kept).bind fun _ _ => hf

theorem read_bind {f : Frame → Eval φ ω β} (hf : ∀ rule, Respects set same (f ⟨set, rule⟩)) :
    Respects set same (read >>= f) := by
  intro rule s t eq
  rw [runIn_bind_ok (runIn_read _ s), runIn_bind_ok (runIn_read _ t)]
  exact hf rule rule s t eq

theorem inRule {name : String} {x : Eval φ ω α} (hx : Respects set same x) :
    Respects set same (inRule name x) :=
  fun _ s t eq => hx (some name) s t eq

/-- An access reads one fact and the names of all, and keeps the next state of the fact. -/
theorem accessFact {name : String}
    (found : ∀ {s t}, same s t →
      Entries.get? s.context.facts name = Entries.get? t.context.facts name)
    (names : ∀ {s t}, same s t → s.context.names = t.context.names)
    (keep : ∀ f {s t}, same s t → same (s.setFact name f) (t.setFact name f)) (span : Span)
    (access : φ → Except StepFault α × φ) :
    Respects set same (accessFact name span access : Eval φ ω α) := by
  refine get_bind (fun eq => by rw [found eq]) fun s => ?_
  split
  · exact get_bind (fun eq => by rw [names eq]) fun _ => .fail _ _
  · refine update_bind (keep _) ?_
    split
    · exact .pure _
    · exact .fail _ _

end Respects

/-! ## Calls -/

/-- Sessions that are the same have the same host functions in the same state, and remain the same
by what calls do to both. -/
structure CallsAlike (same : Session φ ω → Session φ ω → Prop) : Prop where
  functions : ∀ {s t}, same s t → s.context.functions = t.context.functions
  world : ∀ {s t}, same s t → s.context.world = t.context.world
  record : ∀ e {s t}, same s t → same (s.record e) (t.record e)
  setWorld : ∀ w {s t}, same s t → same (s.setWorld w) (t.setWorld w)
  retract : ∀ i name {s t}, same s t → same (s.retract i name) (t.retract i name)
  complete : ∀ {s t}, same s t → same { s with complete := true } { t with complete := true }

namespace CallsAlike

variable {set : RuleSet} {same : Session φ ω → Session φ ω → Prop}

theorem callIntrinsic (h : CallsAlike same) (i : Intrinsic) (args : List Value) (span : Span) :
    Respects set same (callIntrinsic i args span : Eval φ ω Unit) := by
  match i, args with
  | .log, _ => exact .read_bind fun _ => .update (h.record _)
  | .complete, [] => exact .update h.complete
  | .retract, [target] =>
    refine .read_bind fun fr => ?_
    split
    · split
      · exact .update (h.retract _ _)
      · exact .fail _ _
    · exact .fail _ _
  | .retract, [] | .retract, _ :: _ :: _ | .complete, _ :: _ => exact .fail _ _

theorem callHost (h : CallsAlike same) (name : String) (args : List Value) (span : Span) :
    Respects set same (callHost name args span : Eval φ ω Value) := by
  refine .get_bind (fun eq => by rw [h.functions eq]) fun s => ?_
  split
  · exact .fail _ _
  · refine .update_bind (h.record _) ?_
    refine .get_bind (fun eq => by rw [h.world eq]) fun t => ?_
    refine .update_bind (h.setWorld _) ?_
    exact (Respects.composes set same).ofExcept span _ fun _ => rfl

theorem call (h : CallsAlike same) (name : String) (args : List Value) (span : Span) :
    Respects set same (call name args span : Eval φ ω Value) := by
  unfold Eval.call
  cases Intrinsic.ofName? name with
  | none => exact h.callHost name args span
  | some i => exact (h.callIntrinsic i args span).bind fun _ _ => .pure _

end CallsAlike

/-! ## Facts and contexts -/

/-- Same facts before, same result and same facts after. -/
abbrev ReadsFacts (x : Eval φ ω α) : Prop :=
  ∀ set, Respects set (fun s t => s.context.facts = t.context.facts) x

theorem ReadsFacts.closed [FactOps φ] : Closed (φ := φ) (ω := ω) ReadsFacts where
  pure a _ := .pure a
  fail fault span _ := .fail fault span
  bind hx hf set := (hx set).bind fun a _ => hf a set
  access name span _ _ := .accessFact (congrArg (Entries.get? · name)) (congrArg Entries.keys)
    (fun f _ _ => congrArg (Entries.insert · name f)) span _

/-- Same context before, same result and same context after. -/
abbrev ReadsContext (x : Eval φ ω α) : Prop :=
  ∀ set, Respects set (fun s t => s.context = t.context) x

namespace ReadsContext

theorem callsAlike : CallsAlike fun s t : Session φ ω => s.context = t.context where
  functions := congrArg Context.functions
  world := congrArg Context.world
  record _ _ _ eq := eq
  setWorld w _ _ := congrArg fun c : Context φ ω => { c with world := w }
  retract i name _ _ eq := by simpa using eq
  complete eq := eq

theorem closed [FactOps φ] : Closed (φ := φ) (ω := ω) ReadsContext where
  pure a _ := .pure a
  fail fault span _ := .fail fault span
  bind hx hf set := (hx set).bind fun a _ => hf a set
  access name span _ _ := .accessFact (congrArg fun c : Context φ ω => Entries.get? c.facts name)
    (congrArg Context.names) (fun f _ _ => congrArg fun c : Context φ ω =>
      { c with facts := Entries.insert c.facts name f }) span _

theorem condition [FactOps φ] (r : Rule) : ReadsContext (condition r : Eval φ ω Bool) :=
  closed.condition r fun name _ span _ vs _ => callsAlike.call name vs span

theorem execute [FactOps φ] (a : Statement) : ReadsContext (execute a : Eval φ ω Unit) :=
  closed.composes.execute
    { exprs := fun _ _ => closed.covers fun name _ span _ vs _ => callsAlike.call name vs span
      write := fun _ _ _ _ _ _ _ _ name origin _ _ =>
        .accessFact (congrArg fun c : Context φ ω => Entries.get? c.facts name)
          (congrArg Context.names) (fun f _ _ => congrArg fun c : Context φ ω =>
            { c with facts := Entries.insert c.facts name f }) origin _ }

end ReadsContext

end Rulebook.Eval
