import Mathlib
import Rulebook.Library
import Rulebook.Proofs.RuleSet.Compiled

/-!
# What a library holds

Whatever a library is asked, in whatever order: it holds under each name and version the rule set of
the last text that compiled there, unless that was removed since. Each request changes one place at
most, and a text that does not compile changes none.
-/

namespace Rulebook.RuleSet

variable {limits : Limits} {name version : String} {bytes : ByteArray} {set : RuleSet}

/-- What a library files a rule set under. -/
def key (s : RuleSet) : String × String := (s.name, s.version)

theorem key_of_compile (h : compile limits name version bytes = .ok set) :
    set.key = (name, version) := by
  obtain ⟨rfl, rfl, -⟩ := steps_of_compile h
  rfl

/-- The positions of the rules by their names, entered one after the other. -/
def index (s : RuleSet) : Entries Nat := Entries.ofList (s.rules.zipIdx.map fun e => (e.1.name, e.2))

theorem get?_index (h : set.Compiled) (name : String) : set.index.get? name = set.position? name := by
  have keys : (set.rules.zipIdx.map fun e => (e.1.name, e.2)).map Prod.fst =
      set.rules.map Rule.name := by
    rw [List.map_map]
    conv_rhs => rw [← List.zipIdx_map_fst 0 set.rules, List.map_map]
    rfl
  ext i
  rw [index, Entries.get?_ofList_iff (keys ▸ names_nodup h), position?_eq_some_iff h]
  simp [List.mem_zipIdx_iff_getElem?]

end Rulebook.RuleSet

namespace Rulebook.Library

/-! ## Requests -/

inductive Request where
  | compile (name version : String) (bytes : ByteArray)
  | remove (name version : String)
  | get (name version : String)
  | list
  | knowledgeBase (name version : String)

inductive Answer where
  | compiled (result : Except Error RuleSet)
  | removed (old : Option RuleSet)
  | found (s : Option RuleSet)
  | listed (keys : List (String × String))
  | created (result : Except Error KnowledgeBase)

/-- What a library answers, and what becomes of it. -/
def serve (l : Library) : Request → Answer × Library
  | .compile name version bytes =>
    match l.compile name version bytes with
    | .ok (s, l') => (.compiled (.ok s), l')
    | .error e => (.compiled (.error e), l)
  | .remove name version => (.removed (l.get? name version), l.remove name version)
  | .get name version => (.found (l.get? name version), l)
  | .list => (.listed l.keys, l)
  | .knowledgeBase name version => (.created (l.knowledgeBase name version), l)

/-- A library that was empty at first, after all requests. -/
def after (limits : Limits) (requests : List Request) : Library :=
  requests.foldl (fun l r => (l.serve r).2) { limits }

/-- The request leaves what is held under a name and version. -/
def Request.Spares (limits : Limits) (name version : String) (r : Request) : Prop :=
  r ≠ .remove name version ∧ ∀ bytes s, r = .compile name version bytes →
    RuleSet.compile limits name version bytes ≠ .ok s

/-- The rule set is of the last text that compiled under the name and version, and was not removed
after that. -/
def Installed (limits : Limits) (requests : List Request) (name version : String)
    (s : RuleSet) : Prop :=
  ∃ before bytes since, requests = before ++ .compile name version bytes :: since ∧
    RuleSet.compile limits name version bytes = .ok s ∧
    ∀ r ∈ since, r.Spares limits name version

variable {limits : Limits} {l l' : Library} {name version : String} {bytes : ByteArray}
  {s new : RuleSet} {sets : List RuleSet} {k : String × String} {e : Error}

/-! ## Places -/

theorem hasKey_iff : hasKey name version s = true ↔ s.key = (name, version) := by
  simp [hasKey, RuleSet.key]

theorem keyBefore_iff {t : RuleSet} : keyBefore s t = true ↔ toLex s.key < toLex t.key := by
  simp [keyBefore, RuleSet.key, Prod.Lex.toLex_lt_toLex]

theorem find?_cons (s : RuleSet) (sets : List RuleSet) (name version : String) :
    (s :: sets).find? (hasKey name version) =
      if s.key = (name, version) then some s else sets.find? (hasKey name version) := by
  split
  · next is => exact List.find?_cons_of_pos (hasKey_iff.mpr is)
  · next other => exact List.find?_cons_of_neg (mt hasKey_iff.mp other)

theorem find?_insertSorted (new : RuleSet) (sets : List RuleSet) (name version : String) :
    (insertSorted new sets).find? (hasKey name version) =
      if new.key = (name, version) then some new else sets.find? (hasKey name version) := by
  induction sets with
  | nil => exact find?_cons new [] name version
  | cons s rest ih =>
    unfold insertSorted
    split
    · next same =>
      have key : new.key = s.key := hasKey_iff.mp same
      rw [find?_cons, find?_cons, key]
      split <;> rfl
    · next other =>
      have keys : new.key ≠ s.key := mt hasKey_iff.mpr other
      split
      · exact find?_cons new (s :: rest) name version
      · rw [find?_cons, find?_cons, ih]
        split
        · next is => rw [if_neg (is ▸ keys)]
        · rfl

theorem find?_remove (sets : List RuleSet) (name version name' version' : String) :
    (sets.filter fun s => !hasKey name version s).find? (hasKey name' version') =
      if (name, version) = (name', version') then none
      else sets.find? (hasKey name' version') := by
  induction sets with
  | nil => split <;> rfl
  | cons s rest ih =>
    by_cases gone : s.key = (name, version)
    · rw [List.filter_cons_of_neg (by simp [hasKey_iff.mpr gone]), ih, find?_cons, gone]
      split <;> rfl
    · rw [List.filter_cons_of_pos (by simp [mt hasKey_iff.mp gone]), find?_cons, find?_cons, ih]
      split
      · next is => rw [if_neg (fun same => gone (is.trans same.symm))]
      · rfl

/-- Sorted by the names first, each pair at most once. -/
def Sorted (sets : List RuleSet) : Prop := sets.Pairwise fun s t => toLex s.key < toLex t.key

theorem mem_insertSorted {t : RuleSet} (h : t ∈ insertSorted new sets) : t = new ∨ t ∈ sets := by
  induction sets with
  | nil => exact .inl (List.mem_singleton.mp h)
  | cons s rest ih =>
    unfold insertSorted at h
    split at h
    · exact (List.mem_cons.mp h).imp_right (.tail s)
    split at h
    · exact List.mem_cons.mp h
    · rcases List.mem_cons.mp h with rfl | h
      · exact .inr (.head _)
      · exact (ih h).imp_right (.tail s)

theorem sorted_insertSorted (sorted : Sorted sets) (new : RuleSet) :
    Sorted (insertSorted new sets) := by
  induction sets with
  | nil => exact List.pairwise_singleton _ _
  | cons s rest ih =>
    obtain ⟨above, others⟩ := List.pairwise_cons.mp sorted
    unfold insertSorted
    split
    · next same =>
      have key : new.key = s.key := hasKey_iff.mp same
      exact List.pairwise_cons.mpr ⟨fun t mem => key ▸ above t mem, others⟩
    split
    · next before =>
      have first := keyBefore_iff.mp before
      refine List.pairwise_cons.mpr ⟨fun t mem => ?_, sorted⟩
      rcases List.mem_cons.mp mem with rfl | mem
      · exact first
      · exact first.trans (above t mem)
    · next other later =>
      rw [hasKey_iff] at other
      rw [keyBefore_iff] at later
      refine List.pairwise_cons.mpr ⟨fun t mem => ?_, ih others⟩
      rcases mem_insertSorted mem with rfl | mem
      · exact lt_of_le_of_ne (le_of_not_gt later) fun same => other (toLex.injective same).symm
      · exact above t mem

/-! ## One request -/

theorem serve_compile_error (h : RuleSet.compile l.limits name version bytes = .error e) :
    l.serve (.compile name version bytes) = (.compiled (.error e), l) := by
  rw [serve, compile, h]
  rfl

theorem serve_compile_ok (h : RuleSet.compile l.limits name version bytes = .ok s) :
    l.serve (.compile name version bytes) = (.compiled (.ok s), l.insert s) := by
  rw [serve, compile, h]
  rfl

theorem get?_insert (l : Library) (new : RuleSet) (name version : String) :
    (l.insert new).get? name version =
      if new.key = (name, version) then some new else l.get? name version :=
  find?_insertSorted new l.ruleSets name version

theorem get?_remove (l : Library) (name version name' version' : String) :
    (l.remove name version).get? name' version' =
      if (name, version) = (name', version') then none else l.get? name' version' :=
  find?_remove l.ruleSets name version name' version'

/-- A text that does not compile changes nothing, and one that does changes one place. -/
theorem serve_compile_cases (l : Library) (name version : String) (bytes : ByteArray) :
    match RuleSet.compile l.limits name version bytes with
    | .error e => l.serve (.compile name version bytes) = (.compiled (.error e), l)
    | .ok s => ∃ l', l.serve (.compile name version bytes) = (.compiled (.ok s), l') ∧
        l'.get? name version = some s ∧
        ∀ name' version', (name', version') ≠ (name, version) →
          l'.get? name' version' = l.get? name' version' := by
  split
  · next failed => exact serve_compile_error failed
  · next s compiled =>
    refine ⟨_, serve_compile_ok compiled, ?_, fun name' version' other => ?_⟩
    · rw [get?_insert, if_pos (RuleSet.key_of_compile compiled)]
    · rw [get?_insert, RuleSet.key_of_compile compiled, if_neg other.symm]

theorem limits_serve (l : Library) (r : Request) : (l.serve r).2.limits = l.limits := by
  cases r with
  | compile name version bytes =>
    rcases compiled : RuleSet.compile l.limits name version bytes with e | s
    · rw [serve_compile_error compiled]
    · rw [serve_compile_ok compiled]
      rfl
  | remove | get | list | knowledgeBase => rfl

theorem sorted_serve (sorted : Sorted l.ruleSets) (r : Request) :
    Sorted (l.serve r).2.ruleSets := by
  cases r with
  | compile name version bytes =>
    rcases compiled : RuleSet.compile l.limits name version bytes with e | s
    · rw [serve_compile_error compiled]
      exact sorted
    · rw [serve_compile_ok compiled]
      exact sorted_insertSorted sorted s
  | remove => exact sorted.sublist List.filter_sublist
  | get | list | knowledgeBase => exact sorted

theorem Request.spares_of_error (h : RuleSet.compile limits name version bytes = .error e)
    (name' version' : String) :
    (Request.compile name version bytes).Spares limits name' version' := by
  refine ⟨nofun, fun bytes' s same ok => ?_⟩
  cases same
  rw [h] at ok
  cases ok

theorem Request.spares_of_ne {name' version' : String} (h : (name, version) ≠ (name', version')) :
    (Request.compile name version bytes).Spares limits name' version' := by
  refine ⟨nofun, fun bytes' s same => ?_⟩
  cases same
  exact absurd rfl h

theorem Request.spares_remove_iff {name' version' : String} :
    (Request.remove name version).Spares limits name' version' ↔
      (name, version) ≠ (name', version') := by
  simp [Spares]

/-- What is held after a request was compiled by it, or was held before and spared. -/
theorem get?_serve_iff (l : Library) (r : Request) (name version : String) (s : RuleSet) :
    (l.serve r).2.get? name version = some s ↔
      (∃ bytes, r = .compile name version bytes ∧
        RuleSet.compile l.limits name version bytes = .ok s) ∨
      (l.get? name version = some s ∧ r.Spares l.limits name version) := by
  cases r with
  | compile name' version' bytes =>
    rcases compiled : RuleSet.compile l.limits name' version' bytes with e | new
    · rw [serve_compile_error compiled]
      constructor
      · exact fun held => .inr ⟨held, Request.spares_of_error compiled name version⟩
      · rintro (⟨bytes', same, ok⟩ | ⟨held, -⟩)
        · cases same
          rw [compiled] at ok
          cases ok
        · exact held
    · rw [serve_compile_ok compiled, get?_insert, RuleSet.key_of_compile compiled]
      split
      · next same =>
        cases same
        constructor
        · rintro ⟨⟩
          exact .inl ⟨bytes, rfl, compiled⟩
        · rintro (⟨bytes', same, ok⟩ | ⟨-, -, spares⟩)
          · cases same
            rw [compiled] at ok
            exact congrArg some (Except.ok.inj ok)
          · exact absurd compiled (spares bytes new rfl)
      · next other =>
        constructor
        · exact fun held => .inr ⟨held, Request.spares_of_ne other⟩
        · rintro (⟨bytes', same, -⟩ | ⟨held, -⟩)
          · cases same
            exact absurd rfl other
          · exact held
  | remove name' version' =>
    change (l.remove name' version').get? name version = some s ↔ _
    rw [get?_remove, Request.spares_remove_iff]
    split <;> simp_all
  | get | list | knowledgeBase => simp [Request.Spares, serve]

/-! ## All requests -/

variable {requests : List Request}

theorem after_concat (limits : Limits) (requests : List Request) (r : Request) :
    after limits (requests ++ [r]) = ((after limits requests).serve r).2 := by
  rw [after, List.foldl_concat]
  rfl

theorem limits_after (limits : Limits) (requests : List Request) :
    (after limits requests).limits = limits := by
  induction requests using List.reverseRecOn with
  | nil => rfl
  | append_singleton requests r ih => rw [after_concat, limits_serve, ih]

theorem sorted_after (limits : Limits) (requests : List Request) :
    Sorted (after limits requests).ruleSets := by
  induction requests using List.reverseRecOn with
  | nil => exact .nil
  | append_singleton requests r ih =>
    rw [after_concat]
    exact sorted_serve ih r

theorem installed_concat_iff {r : Request} :
    Installed limits (requests ++ [r]) name version s ↔
      (∃ bytes, r = .compile name version bytes ∧
        RuleSet.compile limits name version bytes = .ok s) ∨
      (Installed limits requests name version s ∧ r.Spares limits name version) := by
  constructor
  · rintro ⟨before, bytes, since, split, compiled, spared⟩
    rcases List.eq_nil_or_concat since with rfl | ⟨since, q, rfl⟩
    · obtain ⟨-, last⟩ := List.append_inj' split rfl
      exact .inl ⟨bytes, (List.cons.inj last).1, compiled⟩
    · rw [List.concat_eq_append, ← List.cons_append, ← List.append_assoc] at split
      obtain ⟨rfl, last⟩ := List.append_inj' split rfl
      rw [List.concat_eq_append] at spared
      refine .inr ⟨⟨before, bytes, since, rfl, compiled, fun t mem => ?_⟩, ?_⟩
      · exact spared t (List.mem_append_left _ mem)
      · exact (List.cons.inj last).1 ▸ spared q (List.mem_append_right _ (.head _))
  · rintro (⟨bytes, rfl, compiled⟩ | ⟨⟨before, bytes, since, rfl, compiled, spared⟩, spares⟩)
    · exact ⟨requests, bytes, [], rfl, compiled, nofun⟩
    · refine ⟨before, bytes, since ++ [r], by simp, compiled, fun t mem => ?_⟩
      rcases List.mem_append.mp mem with mem | mem
      · exact spared t mem
      · exact List.mem_singleton.mp mem ▸ spares

theorem get?_after_iff (limits : Limits) (requests : List Request) (name version : String)
    (s : RuleSet) :
    (after limits requests).get? name version = some s ↔
      Installed limits requests name version s := by
  induction requests using List.reverseRecOn with
  | nil =>
    constructor
    · nofun
    · rintro ⟨before, bytes, since, split, -⟩
      simp at split
  | append_singleton requests r ih =>
    rw [after_concat, get?_serve_iff, limits_after, ih, installed_concat_iff]

/-! ## What is listed -/

theorem mem_keys_iff (l : Library) (name version : String) :
    (name, version) ∈ l.keys ↔ ∃ s, l.get? name version = some s := by
  rw [← Option.isSome_iff_exists, get?, List.find?_isSome]
  simp only [hasKey_iff]
  exact List.mem_map

theorem keys_nodup (sorted : Sorted l.ruleSets) : l.keys.Nodup :=
  List.pairwise_map.mpr (sorted.imp fun lt same => lt.ne (congrArg toLex same))

theorem get?_of_mem (sorted : Sorted l.ruleSets) (mem : s ∈ l.ruleSets) :
    l.get? s.name s.version = some s := by
  obtain ⟨t, held⟩ := (mem_keys_iff l s.name s.version).mp (List.mem_map_of_mem mem)
  have same := hasKey_iff.mp (List.find?_some held)
  rw [held, List.inj_on_of_nodup_map (keys_nodup sorted) (List.mem_of_find?_eq_some held) mem same]

theorem knowledgeBase_eq_ok_iff (l : Library) (name version : String) (kb : KnowledgeBase) :
    l.knowledgeBase name version = .ok kb ↔
      ∃ s, l.get? name version = some s ∧ kb = .ofRuleSet s := by
  rw [knowledgeBase]
  rcases l.get? name version with _ | s
  · simp
  · simp [eq_comm]

theorem compiled_of_mem_after (mem : s ∈ (after limits requests).ruleSets) : s.Compiled := by
  have held := get?_of_mem (sorted_after limits requests) mem
  obtain ⟨before, bytes, since, -, compiled, -⟩ := (get?_after_iff ..).mp held
  exact RuleSet.compiled_of_compile compiled

/-- After any requests, whatever they were. -/
theorem holds_last_compiled (limits : Limits) (requests : List Request) :
    let l := after limits requests
    (∀ name version bytes,
      match RuleSet.compile limits name version bytes with
      | .error e => l.serve (.compile name version bytes) = (.compiled (.error e), l)
      | .ok s => ∃ l', l.serve (.compile name version bytes) = (.compiled (.ok s), l') ∧
          l'.get? name version = some s ∧
          ∀ name' version', (name', version') ≠ (name, version) →
            l'.get? name' version' = l.get? name' version') ∧
      (∀ name version s,
        l.get? name version = some s ↔ Installed limits requests name version s) ∧
      (∀ name version kb, l.knowledgeBase name version = .ok kb ↔
        ∃ s, Installed limits requests name version s ∧ kb = .ofRuleSet s) ∧
      (l.keys.Pairwise (fun k k' => toLex k < toLex k') ∧ l.keys.Nodup ∧
        ∀ name version, (name, version) ∈ l.keys ↔
          ∃ s, Installed limits requests name version s) ∧
      ∀ s ∈ l.ruleSets, (s.rules.map Rule.name).Nodup ∧ RuleSet.check s.source s.rules = .ok () ∧
        ∀ name i, (s.index.get? name = some i ↔ s.position? name = some i) ∧
          (s.position? name = some i ↔ ∃ r, s.rules[i]? = some r ∧ r.name = name) := by
  intro l
  have sorted : Sorted l.ruleSets := sorted_after limits requests
  have held := get?_after_iff limits requests
  refine ⟨fun name version bytes => ?_, held, fun name version kb => ?_,
    ⟨List.pairwise_map.mpr sorted, keys_nodup sorted, fun name version => ?_⟩, fun s mem => ?_⟩
  · rw [← limits_after limits requests]
    exact serve_compile_cases l name version bytes
  · simp only [← held]
    exact knowledgeBase_eq_ok_iff l name version kb
  · simp only [← held]
    exact mem_keys_iff l name version
  · have compiled := compiled_of_mem_after mem
    refine ⟨RuleSet.names_nodup compiled, ?_, fun name i => ⟨?_, ?_⟩⟩
    · exact (RuleSet.check_eq_ok_iff _ _).mpr (RuleSet.offences_eq_nil compiled)
    · rw [RuleSet.get?_index compiled]
    · exact RuleSet.position?_eq_some_iff compiled name i

/-- A text that does not compile after one that does, and a removal. -/
def replacing : List Request :=
  [.compile "a" "1" "rule A \x7b when true then F(); \x7d".toUTF8,
    .compile "b" "1" "rule B \x7b when true then F(); \x7d".toUTF8,
    .compile "a" "1" "rule A \x7b when true then \x7d".toUTF8,
    .remove "b" "1",
    .compile "a" "0" "rule C \x7b when true then F(); \x7d".toUTF8]

theorem keys_replacing : (after {} replacing).keys = [("a", "0"), ("a", "1")] := by
  decide +kernel

theorem holds_last_compiled_replacing :
    (∃ s, Installed {} replacing "a" "1" s ∧ (after {} replacing).get? "a" "1" = some s) ∧
      ∀ s, ¬ Installed {} replacing "b" "1" s := by
  obtain ⟨-, held, -, ⟨-, -, listed⟩, -⟩ := holds_last_compiled {} replacing
  constructor
  · obtain ⟨s, installed⟩ := (listed "a" "1").mp (by rw [keys_replacing]; decide)
    exact ⟨s, installed, (held "a" "1" s).mpr installed⟩
  · intro s installed
    have mem := (listed "b" "1").mpr ⟨s, installed⟩
    rw [keys_replacing] at mem
    revert mem
    decide

end Rulebook.Library
