import Mathlib
import Rulebook.Proofs.Fact.Tidy
import Rulebook.Proofs.Json.Converted
import Rulebook.Proofs.Number.Single

/-!
# Reading an element again

Reading a value into a type may change it: an integer becomes a float, a whole float an integer, a
float is rounded. Writing the element and reading it once more changes nothing further, whatever the
type is built of.

A map may hold its entries in any order, as a hash table does. Its value has them sorted, so the
order does not show.
-/

namespace Rulebook

namespace Entries

variable {α β : Type} {es order : Entries α}

theorem get?_eq_some_iff (sorted : Sorted es) (key : String) (value : α) :
    get? es key = some value ↔ (key, value) ∈ es := by
  refine ⟨mem_of_get?, fun mem => ?_⟩
  induction es with
  | nil => cases mem
  | cons e es ih =>
    obtain ⟨above, rest⟩ := List.pairwise_cons.mp sorted
    rw [get?_cons]
    rcases List.mem_cons.mp mem with rfl | mem
    · rw [if_pos rfl]
    · have lt := above key (List.mem_map_of_mem mem)
      rw [if_neg (String.ne_of_lt lt).symm, ih rest mem]

/-- Collecting sorted entries again sorts them, whatever order they come in. -/
theorem ofList_of_perm (sorted : Sorted es) (perm : order.Perm es) : ofList order = es := by
  have nodup : (order.map Prod.fst).Nodup :=
    (perm.map Prod.fst).nodup_iff.mpr (sorted.imp String.ne_of_lt)
  -- Sorted entries are the same if they are the same as a set.
  have same (key : String) (value : α) : (key, value) ∈ ofList order ↔ (key, value) ∈ es := by
    rw [← get?_eq_some_iff (sorted_ofList order), get?_ofList_iff nodup, perm.mem_iff]
  have ascending {fs : Entries α} (sorted : Sorted fs) : fs.Pairwise fun a b => a.1 < b.1 :=
    List.pairwise_map.mp sorted
  have : Std.Irrefl fun a b : String × α => a.1 < b.1 := ⟨fun a => String.lt_irrefl a.1⟩
  have : Std.Antisymm fun a b : String × α => a.1 < b.1 :=
    ⟨fun a b lt gt => absurd (String.lt_trans lt gt) (String.lt_irrefl a.1)⟩
  exact (ascending (sorted_ofList order)).eq_of_mem_iff (ascending sorted) fun e => same e.1 e.2

end Entries

namespace HostType

/-! ## Settling -/

section
variable {α : Type} {read : Value → Except AccessError α} {write : α → Value}

/-- The element that is read from what was written is written the same. -/
def Settles (read : Value → Except AccessError α) (write : α → Value) (v : Value) : Prop :=
  ∀ x, read v = .ok x → ∃ y, read (write x) = .ok y ∧ write y = write x

theorem readItems_again (settles : ∀ v, Settles read write v) {vs : List Value} {xs : List α}
    (h : readItems read vs = .ok xs) :
    ∃ ys, readItems read (xs.map write) = .ok ys ∧ ys.map write = xs.map write := by
  induction vs generalizing xs with
  | nil =>
    cases h
    exact ⟨[], rfl, rfl⟩
  | cons v vs ih =>
    obtain ⟨x, first, h⟩ := bind_eq_ok_iff.mp h
    obtain ⟨xs, rest, h⟩ := bind_eq_ok_iff.mp h
    cases h
    obtain ⟨y, first', same⟩ := settles v x first
    obtain ⟨ys, rest', same'⟩ := ih rest
    refine ⟨y :: ys, bind_eq_ok_iff.mpr ⟨y, first', bind_eq_ok_iff.mpr ⟨ys, rest', rfl⟩⟩, ?_⟩
    rw [List.map_cons, List.map_cons, same, same']

theorem readEntries_again (settles : ∀ v, Settles read write v) {vs : List (String × Value)}
    {es : List (String × α)} (h : readEntries read vs = .ok es) :
    ∃ fs, readEntries read (es.map fun e => (e.1, write e.2)) = .ok fs ∧
      (fs.map fun e => (e.1, write e.2)) = es.map fun e => (e.1, write e.2) := by
  induction vs generalizing es with
  | nil =>
    cases h
    exact ⟨[], rfl, rfl⟩
  | cons v vs ih =>
    obtain ⟨k, v⟩ := v
    obtain ⟨x, first, h⟩ := bind_eq_ok_iff.mp h
    obtain ⟨es, rest, h⟩ := bind_eq_ok_iff.mp h
    cases h
    obtain ⟨y, first', same⟩ := settles v x first
    obtain ⟨fs, rest', same'⟩ := ih rest
    refine ⟨(k, y) :: fs, bind_eq_ok_iff.mpr ⟨y, first', bind_eq_ok_iff.mpr ⟨fs, rest', rfl⟩⟩, ?_⟩
    rw [List.map_cons, List.map_cons, same, same']

end

theorem writeInt_toInt (n : Int64) : writeInt n.toInt = .int n := by
  rw [writeInt, Number.toInt64?_toInt]

theorem readInt_eq_ok {t : IntType} {v : Value} {x : Int} (h : readInt t v = .ok x) :
    ∃ n : Int64, x = n.toInt ∧ t.low ≤ n.toInt ∧ n.toInt < t.high := by
  unfold readInt at h
  split at h
  · cases h
  · next n _ =>
    split at h
    · next range =>
      cases h
      exact ⟨n, rfl, range⟩
    · cases h

theorem settles_int (t : IntType) (v : Value) : Settles (readInt t) writeInt v := by
  intro x h
  obtain ⟨n, rfl, range⟩ := readInt_eq_ok h
  refine ⟨n.toInt, ?_, rfl⟩
  rw [writeInt_toInt]
  exact if_pos range

theorem settles_option {item : HostType} (settles : ∀ v, Settles item.read item.write v)
    (v : Value) : Settles (option item).read (option item).write v := by
  intro x h
  cases x with
  | none => exact ⟨none, rfl, rfl⟩
  | some x =>
    have inner : item.read v = .ok x := by
      cases v with
      | nil => cases h
      | _ =>
        obtain ⟨x', inner, same⟩ := map_eq_ok_iff.mp h
        cases same
        exact inner
    obtain ⟨y, again, same⟩ := settles v x inner
    change ∃ z, (option item).read (item.write x) = _ ∧ _ = item.write x
    generalize item.write x = w at again same
    -- A present element may be written as nil, and is absent from then on.
    cases w with
    | nil => exact ⟨none, rfl, rfl⟩
    | _ => exact ⟨some y, map_eq_ok_iff.mpr ⟨y, again, rfl⟩, same⟩

theorem settles (t : HostType) (v : Value) : Settles t.read t.write v := by
  induction t generalizing v with
  | bool =>
    intro b _
    exact ⟨b, rfl, rfl⟩
  | int t => exact settles_int t v
  | double =>
    intro x _
    exact ⟨x, rfl, rfl⟩
  | single =>
    intro x h
    obtain ⟨x', -, rounded⟩ := map_eq_ok_iff.mp h
    have again : Number.toSingle x = x := by rw [← rounded, Number.toSingle_toSingle]
    exact ⟨x, congrArg Except.ok again, rfl⟩
  | text =>
    intro s _
    exact ⟨s, rfl, rfl⟩
  | value =>
    intro w _
    exact ⟨w, rfl, rfl⟩
  | json =>
    intro j h
    cases h
    exact ⟨v.toJson.toValue.toJson, rfl, v.toValue_toJson_twice⟩
  | option item ih => exact settles_option ih v
  | list item ih =>
    intro xs h
    cases v with
    | list vs =>
      obtain ⟨ys, again, same⟩ := readItems_again ih h
      exact ⟨ys, again, congrArg Value.list same⟩
    | _ => cases h
  | map item ih =>
    intro es h
    cases v with
    | map vs =>
      obtain ⟨fs, again, same⟩ := readEntries_again ih h
      exact ⟨fs, again, congrArg Value.map same⟩
    | _ => cases h

/-! ## Failures inside -/

/-- Reading the value into the type reads the other value into the other type. -/
inductive Reads (u : HostType) (w : Value) : HostType → Value → Prop
  | self : Reads u w u w
  | present {item v} : v ≠ .nil → Reads u w item v → Reads u w (option item) v
  | item {item vs v} : v ∈ vs → Reads u w item v → Reads u w (list item) (.list vs)
  | entry {item es e} : e ∈ es → Reads u w item e.2 → Reads u w (map item) (.map es)

theorem read_of_readItems {α : Type} {read : Value → Except AccessError α} {vs : List Value}
    {xs : List α} (h : readItems read vs = .ok xs) : ∀ v ∈ vs, ∃ x, read v = .ok x := by
  induction vs generalizing xs with
  | nil =>
    intro v mem
    cases mem
  | cons v vs ih =>
    obtain ⟨x, first, h⟩ := bind_eq_ok_iff.mp h
    obtain ⟨xs, rest, -⟩ := bind_eq_ok_iff.mp h
    exact List.forall_mem_cons.mpr ⟨⟨x, first⟩, ih rest⟩

theorem read_of_readEntries {α : Type} {read : Value → Except AccessError α}
    {vs : List (String × Value)} {es : List (String × α)} (h : readEntries read vs = .ok es) :
    ∀ v ∈ vs, ∃ x, read v.2 = .ok x := by
  induction vs generalizing es with
  | nil =>
    intro v mem
    cases mem
  | cons v vs ih =>
    obtain ⟨x, first, h⟩ := bind_eq_ok_iff.mp h
    obtain ⟨es, rest, -⟩ := bind_eq_ok_iff.mp h
    exact List.forall_mem_cons.mpr ⟨⟨x, first⟩, ih rest⟩

/-- Nothing that is read on the way is refused. -/
theorem Reads.succeeds {t u : HostType} {v w : Value} (reads : Reads u w t v) {x : t.Carrier}
    (h : t.read v = .ok x) : ∃ y, u.read w = .ok y := by
  induction reads with
  | self => exact ⟨x, h⟩
  | @present item v present _ ih =>
    have inner : ∃ x, item.read v = .ok x := by
      cases v with
      | nil => exact absurd rfl present
      | _ =>
        obtain ⟨y, inner, -⟩ := map_eq_ok_iff.mp h
        exact ⟨y, inner⟩
    exact ih inner.choose_spec
  | item mem _ ih => exact ih (read_of_readItems h _ mem).choose_spec
  | entry mem _ ih => exact ih (read_of_readEntries h _ mem).choose_spec

theorem Reads.fails {t u : HostType} {v w : Value} (reads : Reads u w t v) {e : AccessError}
    (refused : u.read w = .error e) : ∃ e', t.read v = .error e' := by
  cases h : t.read v with
  | error e' => exact ⟨e', rfl⟩
  | ok x =>
    obtain ⟨y, accepted⟩ := reads.succeeds h
    rw [refused] at accepted
    cases accepted

/-! ## Maps in any order -/

/-- The same element, but for the order in which its maps have their entries. -/
def Shuffled : (t : HostType) → t.Carrier → t.Carrier → Prop
  | option item, x, y => Option.Rel item.Shuffled x y
  | list item, xs, ys => List.Forall₂ item.Shuffled xs ys
  | map item, es, fs =>
    ∃ order : List (String × item.Carrier), order.Perm es ∧
      List.Forall₂ (fun e f => e.1 = f.1 ∧ item.Shuffled e.2 f.2) order fs
  | _, x, y => x = y

/-- The value of an element whose maps hand out their entries in any order. -/
def collect : (t : HostType) → t.Carrier → Value
  | option _, none => .nil
  | option item, some x => item.collect x
  | list item, xs => .list (xs.map item.collect)
  | map item, es => .map (Entries.ofList (es.map fun e => (e.1, item.collect e.2)))
  | t, x => t.write x

theorem map_eq_of_forall₂ {α β γ : Type} {r : α → β → Prop} {f : α → γ} {g : β → γ} {xs : List α}
    {ys : List β} (related : List.Forall₂ r xs ys) (same : ∀ x ∈ xs, ∀ y, r x y → g y = f x) :
    ys.map g = xs.map f := by
  induction related with
  | nil => rfl
  | cons first _ ih =>
    obtain ⟨head, tail⟩ := List.forall_mem_cons.mp same
    exact congrArg₂ List.cons (head _ first) (ih tail)

theorem collect_of_shuffled {t : HostType} {x y : t.Carrier} (sorted : t.Sorted x)
    (shuffled : t.Shuffled x y) : t.collect y = t.write x := by
  induction t with
  | option item ih =>
    cases shuffled with
    | none => rfl
    | some inner => exact ih (sorted _ rfl) inner
  | list item ih =>
    exact congrArg Value.list
      (map_eq_of_forall₂ shuffled fun x mem y shuffled => ih (sorted x mem) shuffled)
  | map item ih =>
    obtain ⟨order, perm, shuffled⟩ := shuffled
    obtain ⟨ascending, all⟩ := sorted
    have same : y.map (fun e => (e.1, item.collect e.2)) =
        order.map fun e => (e.1, item.write e.2) := by
      refine map_eq_of_forall₂ shuffled fun e mem f ⟨key, shuffled⟩ => ?_
      exact congrArg₂ Prod.mk key.symm (ih (all e (perm.mem_iff.mp mem)) shuffled)
    refine congrArg Value.map ?_
    rw [same]
    exact Entries.ofList_of_perm (Entries.sorted_map ascending _) (perm.map _)
  | bool | int | double | single | text | value | json => exact congrArg _ shuffled.symm

/-- What was read and written is read and written the same from then on, and whatever is read inside
of the value must succeed. If maps are read into tables, which have their entries in any order, the
values that are written stay the same ones. -/
theorem write_read_idempotent (t : HostType) (v : Value) :
    (∀ x, t.read v = .ok x → ∃ y, t.read (t.write x) = .ok y ∧ t.write y = t.write x) ∧
      (∀ u w e, Reads u w t v → u.read w = .error e → ∃ e', t.read v = .error e') ∧
      (v.Sorted → ∀ x x', t.read v = .ok x → t.Shuffled x x' → t.collect x' = t.write x ∧
        ∃ y, t.read (t.collect x') = .ok y ∧
          ∀ y', t.Shuffled y y' → t.collect y' = t.collect x') := by
  refine ⟨t.settles v, fun u w e reads refused => reads.fails refused, ?_⟩
  intro sorted x x' read shuffled
  have sorted_x : t.Sorted x := sorted_read sorted read
  have written : t.collect x' = t.write x := collect_of_shuffled sorted_x shuffled
  obtain ⟨y, again, same⟩ := t.settles v x read
  have sorted_y : t.Sorted y := sorted_read (sorted_write sorted_x) again
  refine ⟨written, y, written ▸ again, fun y' shuffled' => ?_⟩
  rw [collect_of_shuffled sorted_y shuffled', same, written]

/-- A table of floats, with one missing: an integer is written as the float of the same value. -/
theorem write_read_idempotent_table :
    let t := map (option double)
    let v := Value.map [("a", .int 1), ("b", .nil)]
    let x := [("a", some (Float.ofInt 1)), ("b", none)]
    let written := Value.map [("a", .float (Float.ofInt 1)), ("b", .nil)]
    t.read v = .ok x ∧ (∃ y, t.read written = .ok y ∧ t.write y = written) ∧
      (∃ e, t.read (.map [("a", .int 1), ("b", .text "c")]) = .error e) ∧
      t.collect x.reverse = written := by
  intro t v x written
  have sorted : v.Sorted := by
    refine .map (show List.Pairwise (· < ·) ["a", "b"] by decide) fun e mem => ?_
    rcases List.mem_cons.mp mem with rfl | mem
    · exact .int
    · cases List.mem_singleton.mp mem
      exact .nil
  have reversed : t.Shuffled x x.reverse := by
    refine ⟨x.reverse, List.reverse_perm x, ?_⟩
    exact .cons ⟨rfl, .none⟩ (.cons ⟨rfl, .some rfl⟩ .nil)
  refine ⟨rfl, (write_read_idempotent t v).1 x rfl, ?_,
    ((write_read_idempotent t v).2.2 sorted x x.reverse rfl reversed).1⟩
  refine (write_read_idempotent t (.map [("a", .int 1), ("b", .text "c")])).2.1 double (.text "c")
    (.typeMismatch "float" "string") ?_ rfl
  exact .entry (.tail _ (.head _)) (.present (by nofun) .self)

end HostType

end Rulebook
