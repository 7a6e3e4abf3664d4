import Mathlib
import Rulebook.Fact.Provided
import Rulebook.Eval.Chain

/-!
# Places in documents

A link names a field, a key or a position. In a document, where fields are keys, it makes no
difference by which link a part is reached.
-/

namespace Rulebook

/-- What a link names in a fact. -/
inductive Target where
  | key (k : String)
  | position (n : Int)
deriving DecidableEq

/-- The target of an element that can be navigated into. A whole float is a position here. -/
def Value.target? : Value → Option Target
  | .text k => some (.key k)
  | .int n => some (.position n.toInt)
  | .float x => (Value.float x).int?.map fun n => .position n.toInt
  | _ => none

/-- A position is the integer that it is equal to. -/
def Value.whole : Value → Value
  | .float x => ((Value.float x).int?.map .int).getD (.float x)
  | v => v

namespace Link

def target? : Link → Option Target
  | member name => some (.key name)
  | index key => key.target?
  | call .. => none

/-- The target of a link that is the last one, where a position must be an integer. -/
def final? : Link → Option Target
  | member name => some (.key name)
  | index (.text k) => some (.key k)
  | index (.int n) => some (.position n.toInt)
  | _ => none

def whole : Link → Link
  | index key => index key.whole
  | l => l

theorem whole_of_final? {l : Link} {t : Target} (h : l.final? = some t) : l.whole = l := by
  rcases l with _ | key | _
  · rfl
  · cases key <;> first | rfl | cases h
  · rfl

end Link

namespace Json

/-- The entries of all objects in the document are sorted, as they are in any that was read. -/
inductive Sorted : Json → Prop
  | null : Sorted null
  | bool {b} : Sorted (bool b)
  | number {n} : Sorted (number n)
  | string {s} : Sorted (string s)
  | array {items} : (∀ j ∈ items, Sorted j) → Sorted (array items)
  | object {entries} : Entries.Sorted entries → (∀ e ∈ entries, Sorted e.2) → Sorted (object entries)

def at? : Json → Target → Option Json
  | object entries, .key k => Entries.get? entries k
  | array items, .position n => if 0 ≤ n then items[n.toNat]? else none
  | _, _ => none

/-- A part can be put at the target: any key of an object, or a position within an array. -/
inductive Takes : Json → Target → Prop
  | key {entries : List (String × Json)} {k : String} : Takes (object entries) (.key k)
  | position {items : List Json} {i : Nat} : i < items.length → Takes (array items) (.position i)

/-- Replaces what is there, or adds it. -/
def put (new : Json) : Json → Target → Json
  | object entries, .key k => object (Entries.insert entries k new)
  | array items, .position n => array (items.set n.toNat new)
  | j, _ => j

theorem field?_eq (j : Json) (name : String) : j.field? name = j.at? (.key name) := by
  cases j <;> rfl

theorem element?_object (entries : List (String × Json)) (key : Value) :
    (object entries).element? key = key.text?.bind (Entries.get? entries) := by
  unfold element? place?
  cases text : key.text? with
  | none => rfl
  | some k =>
    cases found : Entries.get? entries k <;> simp [Entries.contains, found]

theorem element?_array (items : List Json) (key : Value) :
    (array items).element? key =
      key.int?.bind fun n => if 0 ≤ n.toInt then items[n.toInt.toNat]? else none := by
  unfold element? place?
  cases int : key.int? with
  | none => rfl
  | some n =>
    by_cases low : 0 ≤ n.toInt
    · by_cases high : n.toInt < items.length
      · simp [low, high]
      · have none : items[n.toInt.toNat]? = none := List.getElem?_eq_none (by omega)
        rw [Option.bind_some, if_pos low, none]
        simp [high]
    · simp [low]

/-- However a part is reached, it is at the target of its key. -/
theorem element?_eq (j : Json) (key : Value) : j.element? key = key.target?.bind j.at? := by
  cases j with
  | object entries =>
    rw [element?_object]
    cases key with
    | float x => cases int : (Value.float x).int? <;> simp [Value.target?, int, Value.text?, at?]
    | _ => rfl
  | array items =>
    rw [element?_array]
    cases key with
    | float x => cases int : (Value.float x).int? <;> simp [Value.target?, int, at?]
    | _ => rfl
  | _ => cases key.target? <;> rfl

/-! ## Putting back -/

variable {j inner : Json} {t u : Target} {key : Value}

theorem at?_eq_some (there : j.at? t = some inner) :
    (∃ entries k, j = object entries ∧ t = .key k ∧ Entries.get? entries k = some inner) ∨
      ∃ items, ∃ i : Nat, ∃ h : i < items.length,
        j = array items ∧ t = .position i ∧ items[i] = inner := by
  cases j <;> cases t <;> simp only [at?] at there <;> try cases there
  case object.key entries k => exact .inl ⟨entries, k, rfl, rfl, there⟩
  case array.position items n =>
    split at there
    · next low =>
      obtain ⟨lt, is⟩ := List.getElem?_eq_some_iff.mp there
      exact .inr ⟨items, n.toNat, lt, rfl, by rw [Int.toNat_of_nonneg low], is⟩
    · cases there

@[simp] theorem at?_position (items : List Json) (i : Nat) :
    (array items).at? (.position i) = items[i]? := by
  simp [at?]

@[simp] theorem put_position (items : List Json) (i : Nat) (new : Json) :
    put new (array items) (.position i) = array (items.set i new) := by
  simp [put]

theorem putElement_eq (target : key.target? = some t) (there : j.at? t = some inner) (new : Json) :
    j.putElement key new = put new j t := by
  rcases at?_eq_some there with ⟨entries, k, rfl, rfl, found⟩ | ⟨items, i, lt, rfl, rfl, -⟩
  · cases key <;> simp [Value.target?] at target
    subst target
    simp [putElement, place?, Value.text?, Entries.contains, found, put]
  · have int : ∃ n, key.int? = some n ∧ n.toInt = i := by
      cases key <;> simp [Value.target?] at target
      case int n => exact ⟨n, rfl, target⟩
      case float x => simpa using target
    obtain ⟨n, int, eq⟩ := int
    have nat : n.toNatClampNeg = i := by rw [← Int64.toNat_toInt, eq, Int.toNat_natCast]
    simp [putElement, place?, int, eq, lt, nat]

theorem takes_of_at? (there : j.at? t = some inner) : j.Takes t := by
  rcases at?_eq_some there with ⟨entries, k, rfl, rfl, -⟩ | ⟨items, i, lt, rfl, rfl, -⟩
  · exact .key
  · exact .position lt

theorem at?_put_self (takes : j.Takes t) (new : Json) : (put new j t).at? t = some new := by
  cases takes with
  | key => simp [put, at?, Entries.get?_insert]
  | position lt => simp [lt]

theorem at?_put_ne (takes : j.Takes t) (ne : u ≠ t) (new : Json) :
    (put new j t).at? u = j.at? u := by
  cases takes with
  | @key _ k =>
    cases u with
    | key k' =>
      have apart : k' ≠ k := fun eq => ne (congrArg Target.key eq)
      simp [put, at?, Entries.get?_insert, apart]
    | position => rfl
  | @position items i =>
    cases u with
    | key => rfl
    | position n =>
      rw [put_position, at?, at?]
      split
      · next low =>
        have apart : i ≠ n.toNat := fun eq => ne (by rw [eq, Int.toNat_of_nonneg low])
        exact List.getElem?_set_ne apart
      · rfl

theorem put_self (sorted : j.Sorted) (there : j.at? t = some inner) : put inner j t = j := by
  rcases at?_eq_some there with ⟨entries, k, rfl, rfl, found⟩ | ⟨items, i, lt, rfl, rfl, rfl⟩
  · cases sorted with
    | object sorted _ => rw [put, Entries.insert_of_get? sorted found]
  · rw [put_position, List.set_getElem_self]

theorem Sorted.part (sorted : j.Sorted) (there : j.at? t = some inner) : inner.Sorted := by
  rcases at?_eq_some there with ⟨entries, k, rfl, rfl, found⟩ | ⟨items, i, lt, rfl, rfl, rfl⟩
  · cases sorted with
    | object _ all => exact all (k, inner) (Entries.mem_of_get? found)
  · cases sorted with
    | array all => exact all _ (List.getElem_mem lt)

end Json

/-! ## Links -/

namespace Chain

open Json

theorem part?_document (j : Json) (l : Link) :
    (part? (Fact.document j) l).map Prod.fst = (l.target?.bind j.at?).map Fact.document := by
  cases l with
  | member name =>
    rw [Link.target?, Option.bind_some, ← field?_eq]
    cases field : j.field? name <;> simp [part?, FactOps.member?, Fact.member?, field]
  | index key =>
    rw [Link.target?, ← element?_eq]
    cases element : j.element? key <;> simp [part?, FactOps.element?, Fact.element?, element]
  | call => rfl

theorem put_of_part? {l : Link} {p : Fact} {putBack : Fact → Fact}
    (h : part? (Fact.document j) l = some (p, putBack)) :
    ∃ t inner, l.target? = some t ∧ j.at? t = some inner ∧ p = .document inner ∧
      ∀ new, putBack (.document new) = .document (put new j t) := by
  have fst := part?_document j l
  rw [h, Option.map_some] at fst
  obtain ⟨inner, at_target, eq⟩ := Option.map_eq_some_iff.mp fst.symm
  obtain ⟨t, target, there⟩ := Option.bind_eq_some_iff.mp at_target
  refine ⟨t, inner, target, there, eq.symm, fun new => ?_⟩
  cases l with
  | member name =>
    cases target
    cases j with
    | object entries =>
      obtain ⟨q, -, eq⟩ := Option.map_eq_some_iff.mp h
      cases eq
      rfl
    | _ => cases there
  | index key =>
    obtain ⟨q, -, eq⟩ := Option.map_eq_some_iff.mp h
    cases eq
    exact congrArg Fact.document (putElement_eq target there new)
  | call => cases target

theorem index_object (entries : List (String × Json)) (k : String) :
    (object entries).index (.text k) =
      match Entries.get? entries k with
      | some item => .ok item
      | none => .error (missingKey k) := rfl

theorem position_int (n : Int64) (length : Nat) :
    position (.int n) length =
      if 0 ≤ n.toInt ∧ n.toInt < length then .ok n.toInt.toNat
      else .error (.outOfBounds n.toInt length) := rfl

/-- A position that is in bounds gives the item there. -/
theorem toOption_position {α : Type} (items : List α) (default : α) (n : Int64) :
    (do let i ← position (.int n) items.length
        return items[i]?.getD default : Except AccessError α).toOption =
      if 0 ≤ n.toInt then items[n.toInt.toNat]? else none := by
  rw [position_int]
  by_cases low : 0 ≤ n.toInt
  · by_cases high : n.toInt < items.length
    · have lt : n.toInt.toNat < items.length := by omega
      rw [if_pos low, if_pos ⟨low, high⟩]
      change some (items[n.toInt.toNat]?.getD default) = _
      rw [List.getElem?_eq_getElem lt]
      rfl
    · rw [if_pos low, if_neg (fun h => high h.2), List.getElem?_eq_none (by omega)]
      rfl
  · rw [if_neg low, if_neg (fun h => low h.1)]
    rfl

theorem toOption_map {α β : Type} (f : α → β) (r : Except AccessError α) :
    (r.map f).toOption = r.toOption.map f := by
  cases r <;> rfl

theorem leave_document (j : Json) (l : Link) :
    (leave l (Fact.document j)).1.toOption = (l.final?.bind j.at?).map toValue := by
  cases l with
  | member name =>
    rw [Link.final?, Option.bind_some, ← field?_eq]
    cases field : j.field? name <;>
      simp [leave, FactOps.get?, Fact.get?, field, accessor, FactOps.call, Fact.call, Except.toOption]
  | index key =>
    change ((j.index key).map toValue).toOption = _
    rw [toOption_map]
    refine congrArg (Option.map toValue) ?_
    cases j with
    | object entries =>
      cases key with
      | text k =>
        rw [index_object, Link.final?, Option.bind_some, at?]
        cases Entries.get? entries k <;> rfl
      | _ => rfl
    | array items =>
      cases key with
      | int n =>
        exact toOption_position items .null n
      | _ => rfl
    | _ => cases key <;> rfl
  | call => rfl

theorem get?_toEntries (entries : List (String × Json)) (k : String) :
    Entries.get? (toEntries entries) k = (Entries.get? entries k).map toValue := by
  induction entries with
  | nil => rfl
  | cons e es ih =>
    obtain ⟨k', j⟩ := e
    rw [toEntries, Entries.get?_cons, Entries.get?_cons, ih]
    split <;> rfl

theorem toValues_eq (items : List Json) : toValues items = items.map toValue := by
  induction items with
  | nil => rfl
  | cons j js ih => rw [toValues, ih, List.map_cons]

theorem follow_number (n : JsonNumber) (l : Link) : (follow (numberValue n) l).toOption = none := by
  unfold numberValue
  split
  · split <;> cases l <;> rfl
  · cases l <;> rfl

theorem follow_text (entries : List (String × Value)) (k : String) :
    follow (.map entries) (.index (.text k)) =
      match Entries.get? entries k with
      | some v => .ok v
      | none => .error (missingKey k) := rfl

theorem follow_document (j : Json) (l : Link) :
    (follow j.toValue l).toOption = (l.final?.bind j.at?).map toValue := by
  cases j with
  | object entries =>
    have found (k : String) := get?_toEntries entries k
    cases l with
    | member name =>
      simp only [toValue, follow, Link.final?, Option.bind_some, at?, ← found]
      cases Entries.get? (toEntries entries) name <;> rfl
    | index key =>
      cases key with
      | text k =>
        rw [toValue, follow_text, Link.final?, Option.bind_some, at?, ← found]
        cases Entries.get? (toEntries entries) k <;> rfl
      | _ => rfl
    | call => rfl
  | array items =>
    cases l with
    | index key =>
      cases key with
      | int n =>
        refine (toOption_position (toValues items) .nil n).trans ?_
        rw [toValues_eq, Link.final?, Option.bind_some, at?]
        split
        · exact List.getElem?_map ..
        · rfl
      | _ => rfl
    | _ => rfl
  | number n =>
    rw [toValue, follow_number]
    cases l.final? <;> rfl
  | _ =>
    cases l with
    | index key => cases key <;> rfl
    | _ => rfl

/-! ## Chains -/

theorem final?_whole (l : Link) : l.whole.final? = l.target? := by
  rcases l with name | key | _
  · rfl
  · cases key with
    | float x => cases int : (Value.float x).int? <;> simp [Link.whole, Value.whole, Link.target?,
        Value.target?, int, Link.final?]
    | _ => rfl
  · rfl

theorem target?_of_final? {l : Link} {t : Target} (h : l.final? = some t) : l.target? = some t := by
  rcases l with name | key | _
  · exact h
  · cases key <;> first | exact h | cases h
  · cases h

/-- Where links lead in a document as long as others follow. -/
def navigate? : List Step → Json → Option Json
  | [], j => some j
  | m :: ms, j => (m.link.target?.bind j.at?).bind (navigate? ms)

theorem readFact_document_cons {m : Step} {ms : List Step} (more : ms ≠ []) (j : Json) :
    (readFact (m :: ms) (Fact.document j)).1.toOption =
      (m.link.target?.bind j.at?).bind fun part => (readFact ms (Fact.document part)).1.toOption := by
  have fst := part?_document j m.link
  rw [readFact, if_neg (by simpa using more)]
  cases part : part? (Fact.document j) m.link with
  | some p =>
    obtain ⟨p, putBack⟩ := p
    rw [part] at fst
    obtain ⟨inner, there, rfl⟩ := Option.map_eq_some_iff.mp fst.symm
    rw [there]
    rfl
  | none =>
    rw [part] at fst
    have nowhere := Option.map_eq_none_iff.mp fst.symm
    have left := leave_document j m.link
    -- Where nothing can be navigated into, nothing can be read either.
    have none : m.link.final?.bind j.at? = none := by
      cases final : m.link.final? with
      | none => rfl
      | some t => rw [← target?_of_final? final, nowhere]
    rw [none] at left
    rw [nowhere]
    rcases left_by : leave m.link (Fact.document j) with ⟨e | v, f⟩
    · rfl
    · rw [left_by] at left
      cases left

theorem readFact_document_last (ms : List Step) (m : Step) (j : Json) :
    (readFact (ms ++ [m]) (Fact.document j)).1.toOption =
      ((navigate? ms j).bind fun part => m.link.final?.bind part.at?).map toValue := by
  induction ms generalizing j with
  | nil =>
    rw [navigate?, Option.bind_some, ← leave_document]
    rw [List.nil_append, readFact, if_pos (by rfl)]
    rcases leave m.link (Fact.document j) with ⟨e | v, f⟩ <;> rfl
  | cons m' ms ih =>
    rw [List.cons_append, readFact_document_cons (by simp), navigate?]
    cases m'.link.target?.bind j.at? with
    | none => rfl
    | some part => exact ih part

theorem navigate?_append (ms : List Step) (m : Step) (j : Json) :
    navigate? (ms ++ [m]) j = (navigate? ms j).bind fun part => m.link.target?.bind part.at? := by
  induction ms generalizing j with
  | nil =>
    cases target : m.link.target?.bind j.at? <;> simp [navigate?, target]
  | cons m' ms ih =>
    rw [List.cons_append, navigate?, navigate?]
    cases m'.link.target?.bind j.at? with
    | none => rfl
    | some part => exact ih part

/-- The last link is followed from the value of the chain before it, read with an integer where a
whole float was navigated by. -/
theorem readFact_document_append (ms : List Step) (m l : Step) (j : Json) :
    (readFact (ms ++ [m, l]) (Fact.document j)).1.toOption =
      (readFact (ms ++ [{ m with link := m.link.whole }]) (Fact.document j)).1.toOption.bind
        fun v => (follow v l.link).toOption := by
  have split : ms ++ [m, l] = ms ++ [m] ++ [l] := by simp
  rw [split, readFact_document_last, readFact_document_last, navigate?_append, final?_whole]
  cases (navigate? ms j).bind fun part => m.link.target?.bind part.at? with
  | none => rfl
  | some part => exact (follow_document part l.link).symm

end Chain

end Rulebook
