import Mathlib
import Rulebook.Proofs.Eval.Given
import Rulebook.Proofs.Eval.Reading
import Rulebook.Proofs.Fact.Plain
import Rulebook.Proofs.Result

/-!
# Chains are read link by link

Evaluating leaves plain facts as they are. Over documents, a chain therefore has the value that its
last link has in the value of what stands before it, unless that ends in an index by a whole float:
such an index can be navigated through, but not be read.
-/

namespace Rulebook.Eval

variable {φ ω α β : Type} {fr : Frame}

/-! ## Facts that stay -/

theorem context_callIntrinsic (i : Intrinsic) (args : List Value) (span : Span) (fr : Frame)
    (s : Session φ ω) :
    ((callIntrinsic i args span : Eval φ ω Unit).runIn fr s).2.context = s.context := by
  match i, args with
  | .retract, [.text name] =>
    change ((retract (.text name) span : Eval φ ω Unit).runIn fr s).2.context = s.context
    unfold retract
    rw [runIn_bind_ok (runIn_read fr s)]
    dsimp only
    cases fr.ruleSet.position? name with
    | none => rfl
    | some i => exact s.context_retract i name
  | .retract, [.nil] | .retract, [.bool _] | .retract, [.int _] | .retract, [.float _]
  | .retract, [.list _] | .retract, [.map _] => rfl
  | .log, _ | .complete, [] | .retract, [] | .retract, _ :: _ :: _ | .complete, _ :: _ => rfl

theorem facts_call (name : String) (args : List Value) (span : Span) (fr : Frame)
    (s : Session φ ω) :
    ((call name args span : Eval φ ω Value).runIn fr s).2.context.facts = s.context.facts := by
  unfold call
  cases Intrinsic.ofName? name with
  | some i =>
    have kept := congrArg Context.facts (context_callIntrinsic i args span fr s)
    exact after_bind (P := fun t => t.context.facts = s.context.facts) kept fun _ _ _ same => same
  | none =>
    dsimp only
    unfold callHost
    rw [runIn_bind_ok (runIn_get fr s)]
    cases Entries.get? s.context.functions name with
    | none => rfl
    | some f =>
      simp only [runIn_bind, runIn_modify, runIn_get, runIn_ofExcept]
      rfl

/-- The evaluation leaves these facts as they are. -/
def Keeps (facts : Entries φ) (x : Eval φ ω α) : Prop :=
  ∀ (fr : Frame) (s : Session φ ω), s.context.facts = facts → (x.runIn fr s).2.context.facts = facts

/-- A read puts a plain fact back as it was, and under the name that it had. -/
theorem still_readFact {s : Session Fact ω} (sorted : Entries.Sorted s.context.facts)
    (plain : ∀ e ∈ s.context.facts, e.2.Plain) (name : String) (span : Span) (steps : List Step) :
    ((accessFact name span (Chain.readFact steps) : Eval Fact ω Value).runIn fr s).2 = s := by
  unfold accessFact
  rw [runIn_bind_ok (runIn_get fr s)]
  cases found : Entries.get? s.context.facts name with
  | none => rfl
  | some f =>
    have put : s.setFact name (Chain.readFact steps f).2 = s := by
      unfold Session.setFact
      rw [Chain.readFact_plain (plain _ (Entries.mem_of_get? found)),
        Entries.insert_of_get? sorted found]
    dsimp only
    rw [runIn_bind_ok (runIn_modify _ fr s)]
    cases (Chain.readFact steps f).1 <;> exact put

variable {facts : Entries Fact}

theorem Keeps.closed (sorted : Entries.Sorted facts) (plain : ∀ e ∈ facts, e.2.Plain) :
    Closed (φ := Fact) (ω := ω) (Keeps facts) where
  pure _ _ _ same := same
  fail _ _ _ _ same := same
  bind hx hf fr s same :=
    after_bind (P := fun t => t.context.facts = facts) (hx fr s same) fun a t _ => hf a fr t
  access name span steps fr s same := by
    subst same
    rw [still_readFact sorted plain]

theorem Keeps.call (name : String) (args : List Value) (span : Span) :
    Keeps facts (call name args span : Eval Fact ω Value) := by
  intro fr s same
  rw [facts_call, same]

/-! ## What an evaluation gives -/

/-- The evaluation succeeds with this result. -/
def Gives (x : Eval φ ω α) (fr : Frame) (s : Session φ ω) (a : α) : Prop :=
  (x.runIn fr s).1 = .ok a

variable {s t : Session φ ω} {x : Eval φ ω α} {a : α}

theorem gives_iff : Gives x fr s a ↔ ∃ t, x.runIn fr s = (.ok a, t) := by
  rcases ran : x.runIn fr s with ⟨r, t⟩
  simp [Gives, ran]

theorem gives_bind {f : α → Eval φ ω β} {b : β} :
    Gives (x >>= f) fr s b ↔ ∃ a t, x.runIn fr s = (.ok a, t) ∧ Gives (f a) fr t b := by
  constructor
  · intro given
    obtain ⟨u, ran⟩ := gives_iff.mp given
    obtain ⟨a, t, first, rest⟩ := runIn_bind_eq_ok.mp ran
    exact ⟨a, t, first, gives_iff.mpr ⟨u, rest⟩⟩
  · rintro ⟨a, t, first, rest⟩
    obtain ⟨u, ran⟩ := gives_iff.mp rest
    exact gives_iff.mpr ⟨u, runIn_bind_eq_ok.mpr ⟨a, t, first, ran⟩⟩

theorem ReadsFacts.gives (reads : ReadsFacts x) (same : s.context.facts = t.context.facts) :
    Gives x fr s a ↔ Gives x fr t a := by
  rw [Gives, Gives, (reads fr.ruleSet fr.rule s t same).1]

variable [FactOps φ]

/-- A chain that starts with a name leads to a place in the fact of that name. -/
theorem base_of_place {name : String} {o : Expr} {p : Place} (root : o.root? = some name)
    (ran : (place o).runIn fr s = (.ok p, t)) : ∃ span, p.base = .fact name span := by
  have same := places_root o fr s p t ran
  rw [root] at same
  rcases p with ⟨base, steps⟩
  cases base with
  | fact other span =>
    cases same
    exact ⟨span, rfl⟩
  | value v => cases same

theorem gives_readPlace {p : Place} {name : String} {span : Span} {w : Value}
    (base : p.base = .fact name span) :
    Gives (readPlace p) fr s w ↔
      ∃ f, Entries.get? s.context.facts name = some f ∧
        (Chain.readFact p.steps.reverse f).1 = .ok w := by
  unfold readPlace
  rw [base]
  dsimp only
  unfold accessFact Gives
  rw [runIn_bind_ok (runIn_get fr s)]
  cases Entries.get? s.context.facts name with
  | none => simp [unknownFact, runIn_bind]
  | some f =>
    dsimp only
    rw [runIn_bind_ok (runIn_modify _ fr s)]
    cases result : (Chain.readFact p.steps.reverse f).1 <;> simp [result]

/-! ## Chains over documents -/

/-- Every fact is a document. -/
structure Documents (facts : Entries Fact) : Prop where
  sorted : Entries.Sorted facts
  document : ∀ e ∈ facts, ∃ j, e.2 = .document j ∧ j.Sorted

theorem Documents.plain (docs : Documents facts) : ∀ e ∈ facts, e.2.Plain := by
  intro e mem
  obtain ⟨j, is, sorted⟩ := docs.document e mem
  rw [is]
  exact .document sorted

theorem Documents.place (docs : Documents facts) (e : Expr) :
    Keeps facts (place e : Eval Fact ω Place) :=
  (Keeps.closed docs.sorted docs.plain).place e fun name _ span _ vs => .call name vs span

/-- The place that is reached by an integer where this one ends in an index by a whole float. -/
def Place.whole (p : Place) : Place :=
  match p.steps with
  | [] => p
  | m :: ms => { p with steps := { m with link := m.link.whole } :: ms }

variable {s : Session Fact ω} {p : Place} {name : String} {origin span : Span} {l : Link} {w : Value}

theorem readFact_step (p : Place) (l : Link) (span : Span) (j : Json) :
    (Chain.readFact (p.step l span).steps.reverse (Fact.document j)).1.toOption =
      (Chain.readFact p.whole.steps.reverse (Fact.document j)).1.toOption.bind
        fun v => (Chain.follow v l).toOption := by
  -- Without a link before it, the last one is read from the fact itself and not from a part.
  rcases p with ⟨base, _ | ⟨m, ms⟩⟩
  · change (Chain.readFact [⟨l, span⟩] (Fact.document j)).1.toOption =
      (Chain.follow j.toValue l).toOption
    rw [Chain.follow_document]
    exact Chain.readFact_document_last [] ⟨l, span⟩ j
  · simpa [Place.step, Place.whole] using Chain.readFact_document_append ms.reverse m ⟨l, span⟩ j

theorem gives_step (docs : Documents s.context.facts) (base : p.base = .fact name origin) :
    Gives (readPlace (p.step l span)) fr s w ↔
      ∃ v, Gives (readPlace p.whole) fr s v ∧ Chain.follow v l = .ok w := by
  have base' : p.whole.base = .fact name origin := by
    rcases p with ⟨_, _ | _⟩ <;> exact base
  rw [gives_readPlace (p := p.step l span) base]
  simp only [gives_readPlace base']
  constructor
  · rintro ⟨f, found, read⟩
    obtain ⟨j, is, -⟩ := docs.document _ (Entries.mem_of_get? found)
    cases is
    rw [ok_iff_toOption, readFact_step] at read
    obtain ⟨v, read, followed⟩ := Option.bind_eq_some_iff.mp read
    exact ⟨v, ⟨_, found, ok_iff_toOption.mpr read⟩, ok_iff_toOption.mpr followed⟩
  · rintro ⟨v, ⟨f, found, read⟩, followed⟩
    obtain ⟨j, is, -⟩ := docs.document _ (Entries.mem_of_get? found)
    cases is
    refine ⟨_, found, ?_⟩
    rw [ok_iff_toOption, readFact_step]
    exact Option.bind_eq_some_iff.mpr ⟨v, ok_iff_toOption.mp read, ok_iff_toOption.mp followed⟩

/-- The place that an index by a whole float leads to has no value. -/
theorem not_gives_of_whole_ne (docs : Documents s.context.facts) (base : p.base = .fact name origin)
    (ne : p.whole ≠ p) : ¬ Gives (readPlace p) fr s w := by
  rcases p with ⟨_, _ | ⟨m, ms⟩⟩
  · exact absurd rfl ne
  have nowhere : m.link.final? = none := by
    cases final : m.link.final? with
    | none => rfl
    | some t =>
      have same := Link.whole_of_final? final
      exact absurd (by simp [Place.whole, same]) ne
  rw [gives_readPlace base]
  rintro ⟨f, found, read⟩
  obtain ⟨j, is, -⟩ := docs.document _ (Entries.mem_of_get? found)
  cases is
  rw [List.reverse_cons, ok_iff_toOption, Chain.readFact_document_last, nowhere] at read
  simp at read

theorem place_member {o : Expr} {n : String} {q : Place} {u : Session Fact ω} :
    (place (.member o n span)).runIn fr s = (.ok q, u) ↔
      ∃ p, (place o).runIn fr s = (.ok p, u) ∧ q = p.step (.member n) span := by
  constructor
  · intro ran
    obtain ⟨p, t, first, rest⟩ := runIn_bind_eq_ok.mp ran
    cases rest
    exact ⟨p, first, rfl⟩
  · rintro ⟨p, first, rfl⟩
    exact runIn_bind_eq_ok.mpr ⟨p, u, first, rfl⟩

theorem place_index {o k : Expr} {q : Place} {u : Session Fact ω} :
    (place (.index o k span)).runIn fr s = (.ok q, u) ↔
      ∃ p t key, (place o).runIn fr s = (.ok p, t) ∧ (eval k).runIn fr t = (.ok key, u) ∧
        q = p.step (.index key) span := by
  constructor
  · intro ran
    obtain ⟨p, t, first, rest⟩ := runIn_bind_eq_ok.mp ran
    obtain ⟨at_key, _, second, rest⟩ := runIn_bind_eq_ok.mp rest
    obtain ⟨key, _, read, rest⟩ := runIn_bind_eq_ok.mp rest
    cases rest
    exact ⟨p, t, key, first, runIn_bind_eq_ok.mpr ⟨at_key, _, second, read⟩, rfl⟩
  · rintro ⟨p, t, key, first, ran, rfl⟩
    obtain ⟨at_key, _, second, read⟩ := runIn_bind_eq_ok.mp ran
    exact runIn_bind_eq_ok.mpr ⟨p, t, first, runIn_bind_eq_ok.mpr ⟨at_key, _, second,
      runIn_bind_eq_ok.mpr ⟨key, u, read, rfl⟩⟩⟩

/-- Once a chain has led to a place, the facts are those at the start. -/
theorem gives_link (docs : Documents s.context.facts) {o : Expr} (rooted : o.root? = some name)
    {t u : Session Fact ω} (placed : (place o).runIn fr s = (.ok p, t)) (whole : p.whole = p)
    (same : u.context.facts = s.context.facts) :
    Gives (readPlace (p.step l span)) fr u w ↔
      ∃ v, Gives (eval o) fr s v ∧ Chain.follow v l = .ok w := by
  obtain ⟨origin, base⟩ := base_of_place rooted placed
  have kept := docs.place o fr s rfl
  rw [placed] at kept
  have eval_o (v : Value) : Gives (eval o) fr s v ↔ Gives (readPlace p) fr u v := by
    have read : (eval o).runIn fr s = (readPlace p).runIn fr t := runIn_bind_ok placed readPlace
    rw [Gives, read]
    exact (ReadsFacts.closed.readPlace p).gives (kept.trans same.symm)
  simp only [eval_o, gives_step (same ▸ docs) base, whole]

/-- A longer chain gives what its last link has in what the chain before it gives, unless that one
ends in an index by a whole float. -/
theorem eval_link_iff (docs : Documents s.context.facts) {o : Expr} (rooted : o.root? = some name)
    (whole : ∀ p t, (place o).runIn fr s = (.ok p, t) → p.whole = p) (w : Value) :
    (∀ n span, Gives (eval (.member o n span)) fr s w ↔
      ∃ v, Gives (eval o) fr s v ∧ Chain.follow v (.member n) = .ok w) ∧
    (∀ k span, (∀ f args span, .call f args span ∉ k.nodes) →
      (Gives (eval (.index o k span)) fr s w ↔
        ∃ v key, Gives (eval o) fr s v ∧ Gives (eval k) fr s key ∧
          Chain.follow v (.index key) = .ok w)) := by
  -- The chain, the key and the longer chain are evaluated in three sessions with the same facts.
  have facts_at {e : Expr} {r : Except Error Place} {t : Session Fact ω}
      (ran : (place e).runIn fr s = (r, t)) : t.context.facts = s.context.facts := by
    simpa [ran] using docs.place e fr s rfl
  constructor
  · intro n span
    constructor
    · intro given
      obtain ⟨q, t, placed, read⟩ := gives_bind.mp given
      obtain ⟨p, first, rfl⟩ := place_member.mp placed
      exact (gives_link docs rooted first (whole p t first) (facts_at first)).mp read
    · rintro ⟨v, given, followed⟩
      obtain ⟨p, t, first, -⟩ := gives_bind.mp given
      refine gives_bind.mpr ⟨_, t, place_member.mpr ⟨p, first, rfl⟩, ?_⟩
      exact (gives_link docs rooted first (whole p t first) (facts_at first)).mpr
        ⟨v, given, followed⟩
  · intro k span calls
    have reads : ReadsFacts (eval k : Eval Fact ω Value) :=
      ReadsFacts.closed.eval k fun f args span mem => absurd mem (calls f args span)
    constructor
    · intro given
      obtain ⟨q, u, placed, read⟩ := gives_bind.mp given
      obtain ⟨p, t, key, first, second, rfl⟩ := place_index.mp placed
      obtain ⟨v, given, followed⟩ :=
        (gives_link docs rooted first (whole p t first) (facts_at placed)).mp read
      exact ⟨v, key, given, (reads.gives (facts_at first)).mp (gives_iff.mpr ⟨u, second⟩), followed⟩
    · rintro ⟨v, key, given, given_key, followed⟩
      obtain ⟨p, t, first, -⟩ := gives_bind.mp given
      obtain ⟨u, second⟩ := gives_iff.mp ((reads.gives (facts_at first)).mpr given_key)
      have placed : (place (.index o k span)).runIn fr s = (.ok (p.step (.index key) span), u) :=
        place_index.mpr ⟨p, t, key, first, second, rfl⟩
      refine gives_bind.mpr ⟨_, u, placed, ?_⟩
      exact (gives_link docs rooted first (whole p t first) (facts_at placed)).mpr
        ⟨v, given, followed⟩

/-- One fact, a document of two items. -/
def pairSession : Session Fact Unit :=
  .start { facts := [("F", .document (.array [.null, .object [("x", .ofInt64 5)]]))], world := () }
    #[]

/-- An evaluation that is part of no rule. -/
def pairFrame : Frame := { ruleSet := { name := "", version := "", text := "", rules := [] } }

theorem pairSession_documents : Documents pairSession.context.facts where
  sorted := List.pairwise_singleton ..
  document e mem := by
    obtain rfl := List.mem_singleton.mp mem
    refine ⟨_, rfl, .array ?_⟩
    simp only [List.forall_mem_cons]
    exact ⟨.null, .object (List.pairwise_singleton ..) (by simpa using .number), by simp⟩

theorem eval_link_iff_second_item :
    Gives (eval (.member (.index (.ident "F" {}) (.literal (.int 1) {}) {}) "x" {}))
      pairFrame pairSession (.int 5) := by
  have whole : ∀ p t, (place (.index (.ident "F" {}) (.literal (.int 1) {}) {})).runIn
      pairFrame pairSession = (.ok p, t) → p.whole = p := by
    rintro p t ⟨⟩
    rfl
  exact ((eval_link_iff pairSession_documents rfl whole (.int 5)).1 "x" {}).mpr
    ⟨.map [("x", .int 5)], rfl, rfl⟩

/-- The second item is reached by a whole float as long as a link follows, and not read by it. -/
theorem second_item_by_whole_float :
    ¬ (Gives (eval (.member (.index (.ident "F" {}) (.literal (.float 1.0) {}) {}) "x" {}))
        pairFrame pairSession (.int 5) ↔
      ∃ v, Gives (eval (.index (.ident "F" {}) (.literal (.float 1.0) {}) {}))
        pairFrame pairSession v ∧ Chain.follow v (.member "x") = .ok (.int 5)) := by
  intro composed
  obtain ⟨v, given, -⟩ := composed.mp rfl
  cases given

end Rulebook.Eval
