import Mathlib
import Rulebook.Command.Output
import Rulebook.Proofs.Library.Served

/-!
# Which rule set an argument names

A rule file is filed under the name and version that its own name spells, and of several files under
one pair the last one counts. An argument with an at sign names one pair; an argument without one
names a rule set that has a single version.
-/

namespace Rulebook

/-! ## Texts split at a character -/

namespace Text

variable {c : Char}

/-- The characters before the first of one kind, and those from it on. -/
theorem cut_iff {d : Char} {s a b : List Char} :
    (s.takeWhile (· ≠ c) = a ∧ s.dropWhile (· ≠ c) = d :: b) ↔
      c ∉ a ∧ d = c ∧ s = a ++ c :: b := by
  constructor
  · rintro ⟨rfl, rest⟩
    have head : d = c := by
      have first := List.head?_dropWhile_not (· ≠ c) s
      rw [rest] at first
      simpa using first
    have whole := List.takeWhile_append_dropWhile (p := (· ≠ c)) (l := s)
    rw [rest, head] at whole
    refine ⟨fun mem => ?_, head, whole.symm⟩
    simpa using List.mem_takeWhile_imp mem
  · rintro ⟨free, rfl, rfl⟩
    have all : ∀ e ∈ a, decide (e ≠ d) = true := fun e mem =>
      decide_eq_true fun same => free (same ▸ mem)
    rw [List.takeWhile_append_of_pos all, List.dropWhile_append_of_pos all]
    simp

theorem splitAt?_eq_some_iff {s a b : String} :
    splitAt? c s = some (a, b) ↔ c ∉ a.toList ∧ s.toList = a.toList ++ c :: b.toList := by
  refine ⟨fun split => (splitAt?_eq_some split).symm, fun ⟨free, whole⟩ => ?_⟩
  obtain ⟨before, rest⟩ := cut_iff.mpr ⟨free, rfl, whole⟩
  unfold splitAt?
  rw [before, rest]
  simp

theorem splitAt?_eq_none_iff {s : String} : splitAt? c s = none ↔ c ∉ s.toList := by
  constructor
  · intro split mem
    obtain ⟨a, b, whole, free⟩ := List.eq_append_cons_of_mem mem
    have parts : splitAt? c s = some (String.ofList a, String.ofList b) :=
      splitAt?_eq_some_iff.mpr ⟨by simpa using free, by simpa using whole⟩
    rw [split] at parts
    cases parts
  · intro free
    rcases split : splitAt? c s with _ | ⟨a, b⟩
    · rfl
    · obtain ⟨whole, -⟩ := splitAt?_eq_some split
      exact absurd (whole ▸ List.mem_append_right _ List.mem_cons_self) free

end Text

namespace Command

/-! ## Names of rule files -/

variable {text name version : String}

/-- The text is a name with a version behind its first at sign. -/
theorem splitVersion_eq_some_iff :
    splitVersion text = (name, some version) ↔
      '@' ∉ name.toList ∧ text = name ++ "@" ++ version := by
  have parts : Text.splitAt? '@' text = some (name, version) ↔
      '@' ∉ name.toList ∧ text = name ++ "@" ++ version := by
    rw [Text.splitAt?_eq_some_iff, ← String.toList_inj]
    simp
  rw [← parts]
  unfold splitVersion
  rcases Text.splitAt? '@' text with _ | ⟨a, b⟩ <;> simp

theorem splitVersion_eq_none_iff :
    splitVersion text = (name, none) ↔ '@' ∉ name.toList ∧ text = name := by
  unfold splitVersion
  rcases split : Text.splitAt? '@' text with _ | ⟨a, b⟩
  · have free := Text.splitAt?_eq_none_iff.mp split
    constructor
    · rintro ⟨⟩
      exact ⟨free, rfl⟩
    · rintro ⟨-, rfl⟩
      rfl
  · constructor
    · nofun
    · rintro ⟨free, rfl⟩
      rw [Text.splitAt?_eq_none_iff.mpr free] at split
      cases split

/-- The extension is behind the last dot, which must not be at the beginning. -/
theorem splitExtension_eq_some_iff {stem extension : String} :
    Path.splitExtension name = (stem, some extension) ↔
      stem ≠ "" ∧ '.' ∉ extension.toList ∧ name = stem ++ "." ++ extension := by
  unfold Path.splitExtension
  dsimp only
  constructor
  · intro split
    split at split
    · cases split
    · cases split
    · next d us none rest =>
      cases split
      obtain ⟨free, rfl, whole⟩ := Text.cut_iff.mp ⟨rfl, rest⟩
      have joined : name.toList = us.reverse ++ '.' ::
          (name.toList.reverse.takeWhile (· ≠ '.')).reverse := by
        rw [← List.reverse_inj]
        simpa using whole
      refine ⟨by simpa [← String.toList_inj] using none, by simpa using free, ?_⟩
      rw [← String.toList_inj, String.toList_append, String.toList_append, String.toList_ofList,
        String.toList_ofList]
      simpa using joined
  · rintro ⟨some, free, rfl⟩
    have cut := Text.cut_iff (c := '.') (d := '.') (s := (stem ++ "." ++ extension).toList.reverse)
      (a := extension.toList.reverse) (b := stem.toList.reverse)
    obtain ⟨before, rest⟩ := cut.mpr ⟨by simpa using free, rfl, by simp⟩
    rw [before, rest]
    rcases back : stem.toList.reverse with _ | ⟨u, us⟩
    · exact absurd (by simpa using back) some
    · dsimp only
      rw [← back]
      simp

/-- The name and version that the last name on a path spells. -/
inductive FiledUnder (path : String) : String → String → Prop
  | versioned {name version : String} : '@' ∉ name.toList →
      Path.fileName? path = some (name ++ "@" ++ version ++ ".grl") → FiledUnder path name version
  | plain {name : String} : '@' ∉ name.toList → name ≠ "" →
      Path.fileName? path = some (name ++ ".grl") → FiledUnder path name defaultVersion

theorem ruleFile?_eq_some_iff {path : String} :
    ruleFile? path = some (name, version) ↔ FiledUnder path name version := by
  have grl (file stem : String) : Path.splitExtension file = (stem, some "grl") ↔
      stem ≠ "" ∧ file = stem ++ ".grl" := by
    rw [splitExtension_eq_some_iff, String.append_assoc]
    simp
  constructor
  · intro h
    unfold ruleFile? at h
    obtain ⟨file, called, h⟩ := Option.bind_eq_some_iff.mp h
    rcases split : Path.splitExtension file with ⟨stem, extension⟩
    rw [split] at h
    dsimp only at h
    split at h
    · next is =>
      subst is
      obtain ⟨some, rfl⟩ := (grl file stem).mp split
      rcases parts : splitVersion stem with ⟨first, _ | behind⟩ <;> rw [parts] at h <;> cases h
      · obtain ⟨free, rfl⟩ := splitVersion_eq_none_iff.mp parts
        exact .plain free some called
      · obtain ⟨free, rfl⟩ := splitVersion_eq_some_iff.mp parts
        exact .versioned free called
    · cases h
  · intro filed
    unfold ruleFile?
    cases filed with
    | versioned free called =>
      have some : name ++ "@" ++ version ≠ "" := fun empty => by
        simpa using congrArg String.toList empty
      rw [called, Option.bind_eq_bind, Option.bind_some, (grl _ _).mpr ⟨some, rfl⟩]
      dsimp only
      rw [if_pos rfl, splitVersion_eq_some_iff.mpr ⟨free, rfl⟩]
      rfl
    | plain free some called =>
      rw [called, Option.bind_eq_bind, Option.bind_some, (grl _ _).mpr ⟨some, rfl⟩]
      dsimp only
      rw [if_pos rfl, splitVersion_eq_none_iff.mpr ⟨free, rfl⟩]
      rfl

/-! ## Files in order -/

/-- A rule file is a text of rules that compiles. -/
def Compiles (limits : Limits) (e : String × Tree) : Prop :=
  ∀ name version, FiledUnder e.1 name version →
    ∃ bytes s, e.2 = .file bytes ∧ RuleSet.compile limits name version bytes = .ok s

instance (path name version : String) : Decidable (FiledUnder path name version) :=
  decidable_of_iff _ ruleFile?_eq_some_iff

instance (limits : Limits) (e : String × Tree) : Decidable (Compiles limits e) :=
  decidable_of_iff
    ((match ruleFile? e.1, e.2 with
      | none, _ => true
      | some _, .directory _ => false
      | some (name, version), .file bytes =>
        (RuleSet.compile limits name version bytes).toOption.isSome) = true) <| by
    unfold Compiles
    simp only [← ruleFile?_eq_some_iff]
    rcases e with ⟨path, bytes | _⟩ <;> rcases ruleFile? path with _ | ⟨name, version⟩
    · simp
    · rcases compiled : RuleSet.compile limits name version bytes with e | s
      · simp [Except.toOption, compiled]
      · simp [Except.toOption, compiled]
    · simp
    · simp

/-- The rule set is of the last file under its name and version. -/
def LastFiled (limits : Limits) (visited : List (String × Tree)) (name version : String)
    (s : RuleSet) : Prop :=
  ∃ before path bytes since, visited = before ++ (path, .file bytes) :: since ∧
    FiledUnder path name version ∧ RuleSet.compile limits name version bytes = .ok s ∧
    ∀ e ∈ since, ¬ FiledUnder e.1 name version

/-- What a library is asked for a file. -/
def request? (e : String × Tree) : Option Library.Request :=
  match ruleFile? e.1, e.2 with
  | some (name, version), .file bytes => some (.compile name version bytes)
  | _, _ => none

section

variable {limits : Limits} {visited : List (String × Tree)} {e : String × Tree} {s : RuleSet}
  {w : Workspace} {bytes : ByteArray} {path : String}

theorem request?_eq_some_iff {r : Library.Request} :
    request? e = some r ↔ ∃ name version bytes, r = .compile name version bytes ∧
      FiledUnder e.1 name version ∧ e.2 = .file bytes := by
  simp only [← ruleFile?_eq_some_iff]
  rcases e with ⟨path, _ | _⟩ <;> rcases named : ruleFile? path with _ | ⟨name, version⟩ <;>
    simp [request?, named, eq_comm]

theorem Workspace.addFile_of_compiles (compiles : Compiles w.library.limits e) :
    w.addFile e.1 e.2 = .ok ⟨((request? e).toList.foldl (fun l r => (l.serve r).2) w.library),
      w.fileCount + (request? e).toList.length⟩ := by
  rcases e with ⟨path, t⟩
  unfold Workspace.addFile
  rcases named : ruleFile? path with _ | ⟨name, version⟩
  · simp [request?, named]
  · obtain ⟨bytes, s, rfl, compiled⟩ := compiles name version (ruleFile?_eq_some_iff.mp named)
    have served := Library.serve_compile_ok compiled
    simp only [request?, named, Library.compile, compiled]
    simp [served]

theorem Workspace.addFiles_of_compiles (all : ∀ e ∈ visited, Compiles w.library.limits e) :
    w.addFiles visited = .ok ⟨(visited.filterMap request?).foldl (fun l r => (l.serve r).2) w.library,
      w.fileCount + (visited.filterMap request?).length⟩ := by
  induction visited generalizing w with
  | nil => rfl
  | cons e rest ih =>
    obtain ⟨first, others⟩ := List.forall_mem_cons.mp all
    have added := addFile_of_compiles first
    rcases asked : request? e with _ | r
    · rw [asked] at added
      rw [addFiles, added, List.filterMap_cons_none asked]
      exact ih others
    · rw [asked] at added
      rw [addFiles, added, List.filterMap_cons_some asked]
      refine (ih (w := ⟨(w.library.serve r).2, w.fileCount + 1⟩) fun e mem => ?_).trans ?_
      · rw [Library.limits_serve]
        exact others e mem
      · rw [List.length_cons, Nat.add_assoc, Nat.add_comm 1]
        rfl

theorem Workspace.addFiles_append (w : Workspace) (before since : List (String × Tree)) :
    w.addFiles (before ++ since) = (w.addFiles before).bind fun w => w.addFiles since := by
  induction before generalizing w with
  | nil => rfl
  | cons e rest ih =>
    rw [List.cons_append, addFiles, addFiles]
    rcases w.addFile e.1 e.2 with f | w
    · rfl
    · exact ih w

/-- The library of a directory, where every file in it compiles. -/
def filed (limits : Limits) (visited : List (String × Tree)) : Library :=
  .after limits (visited.filterMap request?)

theorem Workspace.addFiles_eq_ok (all : ∀ e ∈ visited, Compiles limits e) :
    addFiles ⟨{ limits }, 0⟩ visited =
      .ok ⟨filed limits visited, (visited.filterMap request?).length⟩ := by
  rw [addFiles_of_compiles all, Nat.zero_add]
  rfl

theorem Workspace.addFiles_eq_error {before since : List (String × Tree)} {e : Error}
    (all : ∀ b ∈ before, Compiles limits b) (named : FiledUnder path name version)
    (failed : RuleSet.compile limits name version bytes = .error e) :
    addFiles ⟨{ limits }, 0⟩ (before ++ (path, .file bytes) :: since) = .error (.engine e) := by
  have same : (filed limits before).limits = limits := Library.limits_after _ _
  rw [addFiles_append, addFiles_eq_ok all]
  change addFiles _ ((path, .file bytes) :: since) = _
  rw [addFiles]
  unfold addFile
  rw [ruleFile?_eq_some_iff.mpr named]
  simp only [Library.compile, same, failed]
  rfl

/-! ## What the library holds -/

/-- The last file under a pair is the last one that the library is asked to compile there. -/
theorem get?_filed_iff (all : ∀ e ∈ visited, Compiles limits e) :
    (filed limits visited).get? name version = some s ↔ LastFiled limits visited name version s := by
  rw [filed, Library.get?_after_iff]
  constructor
  · rintro ⟨earlier, bytes, later, split, compiled, spared⟩
    obtain ⟨front, back, rfl, rfl, asked⟩ := List.filterMap_eq_append_iff.mp split
    obtain ⟨before, ⟨path, t⟩, since, rfl, -, first, rfl⟩ := List.filterMap_eq_cons_iff.mp asked
    obtain ⟨name', version', bytes', same, named, is⟩ := request?_eq_some_iff.mp first
    cases same
    refine ⟨front ++ before, path, bytes, since, by simp [← is], named, compiled, ?_⟩
    intro e mem named'
    obtain ⟨text, s', is, compiled'⟩ := all e (by simp [mem]) name version named'
    have request := request?_eq_some_iff.mpr ⟨name, version, text, rfl, named', is⟩
    exact (spared _ (List.mem_filterMap.mpr ⟨e, mem, request⟩)).2 text s' rfl compiled'
  · rintro ⟨before, path, bytes, since, rfl, named, compiled, last⟩
    refine ⟨before.filterMap request?, bytes, since.filterMap request?, ?_, compiled, ?_⟩
    · rw [List.filterMap_append, List.filterMap_cons_some]
      exact request?_eq_some_iff.mpr ⟨name, version, bytes, rfl, named, rfl⟩
    · intro r mem
      obtain ⟨e, behind, request⟩ := List.mem_filterMap.mp mem
      obtain ⟨name', version', bytes', rfl, named', -⟩ := request?_eq_some_iff.mp request
      refine Library.Request.spares_of_ne fun same => ?_
      cases same
      exact last e behind named'

theorem exists_lastFiled_iff (all : ∀ e ∈ visited, Compiles limits e) :
    (∃ s, LastFiled limits visited name version s) ↔
      ∃ e ∈ visited, FiledUnder e.1 name version := by
  constructor
  · rintro ⟨s, before, path, bytes, since, rfl, named, -⟩
    exact ⟨(path, .file bytes), by simp, named⟩
  · intro some
    induction visited with
    | nil => simp at some
    | cons e rest ih =>
      obtain ⟨first, others⟩ := List.forall_mem_cons.mp all
      by_cases later : ∃ e ∈ rest, FiledUnder e.1 name version
      · obtain ⟨s, before, path, bytes, since, rfl, last⟩ := ih others later
        exact ⟨s, e :: before, path, bytes, since, rfl, last⟩
      · obtain ⟨d, mem, named⟩ := some
        rcases List.mem_cons.mp mem with rfl | mem
        · obtain ⟨bytes, s, is, compiled⟩ := first name version named
          refine ⟨s, [], d.1, bytes, rest, by simp [← is], named, compiled, fun e mem named => ?_⟩
          exact later ⟨e, mem, named⟩
        · exact absurd ⟨d, mem, named⟩ later

end

/-! ## Arguments -/

/-- The versions that a library has of a name. -/
def versionsOf (l : Library) (name : String) : List String :=
  (l.keys.filter fun k => k.1 = name).map Prod.snd

section

variable {l : Library}

theorem mem_versionsOf_iff :
    version ∈ versionsOf l name ↔ ∃ s, l.get? name version = some s := by
  rw [← Library.mem_keys_iff]
  simp [versionsOf]

theorem versionsOf_sorted (sorted : Library.Sorted l.ruleSets) (name : String) :
    (versionsOf l name).Pairwise (· < ·) := by
  have keys : l.keys.Pairwise fun k k' => toLex k < toLex k' := List.pairwise_map.mpr sorted
  refine List.pairwise_map.mpr ((keys.filter _).imp_of_mem fun {k k'} mem mem' lt => ?_)
  have same : k.1 = k'.1 := by
    have is := (List.mem_filter.mp mem).2
    have is' := (List.mem_filter.mp mem').2
    simp only [decide_eq_true_eq] at is is'
    exact is.trans is'.symm
  exact ((Prod.Lex.toLex_lt_toLex.mp lt).resolve_left fun less => less.ne same).2

/-- An argument with an at sign names one pair. -/
theorem knowledgeBase_versioned (free : '@' ∉ name.toList) :
    knowledgeBase l (name ++ "@" ++ version) =
      match l.get? name version with
      | some s => .ok (.ofRuleSet s)
      | none => .error (.engine (.unknownRuleSet name version)) := by
  unfold knowledgeBase
  rw [splitVersion_eq_some_iff.mpr ⟨free, rfl⟩]
  dsimp only
  rw [Library.knowledgeBase]
  cases l.get? name version <;> rfl

/-- An argument without an at sign names the only version there is. -/
theorem knowledgeBase_plain (free : '@' ∉ name.toList) :
    knowledgeBase l name =
      match versionsOf l name with
      | [] => .error (.noRuleSet name)
      | [version] =>
        match l.get? name version with
        | some s => .ok (.ofRuleSet s)
        | none => .error (.engine (.unknownRuleSet name version))
      | versions => .error (.severalVersions name versions) := by
  unfold knowledgeBase
  rw [splitVersion_eq_none_iff.mpr ⟨free, rfl⟩]
  dsimp only
  have versions : (l.keys.filter fun k => k.1 = name).map Prod.snd = versionsOf l name := rfl
  rw [versions]
  rcases versionsOf l name with _ | ⟨version, _ | ⟨_, _⟩⟩
  · rfl
  · dsimp only
    rw [Library.knowledgeBase]
    cases l.get? name version <;> rfl
  · rfl

end

/-- Files are compiled in the order of the walk, and the first that fails ends it. If none does, an
argument names the last file under a pair: under the pair that it spells, or under the only one of
its name; a name with several versions is refused with these, in order. -/
theorem addFiles_resolves (limits : Limits) (visited : List (String × Tree)) :
    (∀ before path bytes since name version e, visited = before ++ (path, .file bytes) :: since →
      (∀ b ∈ before, Compiles limits b) → FiledUnder path name version →
      RuleSet.compile limits name version bytes = .error e →
        Workspace.addFiles ⟨{ limits }, 0⟩ visited = .error (.engine e)) ∧
    ((∀ e ∈ visited, Compiles limits e) →
      ∃ w, Workspace.addFiles ⟨{ limits }, 0⟩ visited = .ok w ∧
        (∀ name version s, w.library.get? name version = some s ↔
          LastFiled limits visited name version s) ∧
        (∀ name version, '@' ∉ name.toList →
          (∀ s, LastFiled limits visited name version s →
            knowledgeBase w.library (name ++ "@" ++ version) = .ok (.ofRuleSet s)) ∧
          ((∀ e ∈ visited, ¬ FiledUnder e.1 name version) →
            knowledgeBase w.library (name ++ "@" ++ version) =
              .error (.engine (.unknownRuleSet name version)))) ∧
        ∀ name, '@' ∉ name.toList → ∃ versions : List String, versions.Pairwise (· < ·) ∧
          (∀ version, version ∈ versions ↔ ∃ e ∈ visited, FiledUnder e.1 name version) ∧
          match versions with
          | [] => knowledgeBase w.library name = .error (.noRuleSet name)
          | [version] => ∃ s, LastFiled limits visited name version s ∧
              knowledgeBase w.library name = .ok (.ofRuleSet s)
          | _ => knowledgeBase w.library name = .error (.severalVersions name versions)) ∧
    ∀ files args t, files.find args.directory = .ok t → t.walk args.directory = visited →
      limits = { depth := args.maxDepth?.getD ({} : Limits).depth } →
        Workspace.load files args = Workspace.addFiles ⟨{ limits }, 0⟩ visited := by
  refine ⟨?_, fun all => ?_, ?_⟩
  · rintro before path bytes since name version e rfl earlier named failed
    exact Workspace.addFiles_eq_error earlier named failed
  · have held {name version s} :
        (filed limits visited).get? name version = some s ↔
          LastFiled limits visited name version s :=
      get?_filed_iff all
    refine ⟨_, Workspace.addFiles_eq_ok all, fun name version s => held, fun name version free => ?_,
      fun name free => ⟨versionsOf (filed limits visited) name, ?_, fun version => ?_, ?_⟩⟩
    · rw [knowledgeBase_versioned free]
      refine ⟨fun s last => by rw [held.mpr last], fun none => ?_⟩
      rcases found : (filed limits visited).get? name version with _ | s
      · rfl
      · obtain ⟨e, mem, named⟩ := (exists_lastFiled_iff all).mp ⟨s, held.mp found⟩
        exact absurd named (none e mem)
    · exact versionsOf_sorted (Library.sorted_after _ _) name
    · rw [mem_versionsOf_iff, ← exists_lastFiled_iff all]
      exact exists_congr fun s => held
    · rw [knowledgeBase_plain free]
      rcases versions : versionsOf (filed limits visited) name with _ | ⟨version, _ | ⟨_, _⟩⟩
      · rfl
      · obtain ⟨s, found⟩ := mem_versionsOf_iff.mp (versions ▸ List.mem_singleton_self version)
        dsimp only
        exact ⟨s, held.mp found, by rw [found]⟩
      · rfl
  · rintro files args t found rfl rfl
    unfold Workspace.load
    rw [found]

/-- Two files under one pair, the second in a directory of its own. -/
def shadowing : List (String × Tree) :=
  [("./a.grl", .file "rule A \x7b when true then F(); \x7d".toUTF8),
    ("./a@1@2.grl", .file "rule B \x7b when true then F(); \x7d".toUTF8),
    ("./b", .directory []),
    ("./b/a@0.0.1.grl", .file "rule C \x7b when true then F(); \x7d".toUTF8)]

def broken : ByteArray := "rule D \x7b when then F(); \x7d".toUTF8

theorem addFiles_resolves_shadowing :
    (∃ w, Workspace.addFiles ⟨{}, 0⟩ shadowing = .ok w ∧
      (∃ s, LastFiled {} shadowing "a" "0.0.1" s ∧
        knowledgeBase w.library "a@0.0.1" = .ok (.ofRuleSet s)) ∧
      knowledgeBase w.library "b@1" = .error (.engine (.unknownRuleSet "b" "1")) ∧
      ∃ versions, "0.0.1" ∈ versions ∧ "1@2" ∈ versions ∧ versions.Pairwise (· < ·) ∧
        knowledgeBase w.library "a" = .error (.severalVersions "a" versions)) ∧
      ∃ e, RuleSet.compile {} "d" "0.0.1" broken = .error e ∧
        Workspace.addFiles ⟨{}, 0⟩ (shadowing ++ [("./d.grl", .file broken)]) =
          .error (.engine e) := by
  have all : ∀ e ∈ shadowing, Compiles {} e := by decide +kernel
  obtain ⟨-, loads, -⟩ := addFiles_resolves {} shadowing
  obtain ⟨first, -, -⟩ := addFiles_resolves {} (shadowing ++ [("./d.grl", .file broken)])
  constructor
  · obtain ⟨w, loaded, -, versioned, plain⟩ := loads all
    refine ⟨w, loaded, ?_, (versioned "b" "1" (by decide)).2 (by decide +kernel), ?_⟩
    · obtain ⟨s, last⟩ : ∃ s, LastFiled {} shadowing "a" "0.0.1" s :=
        (exists_lastFiled_iff all).mpr (by decide +kernel)
      exact ⟨s, last, (versioned "a" "0.0.1" (by decide)).1 s last⟩
    · obtain ⟨versions, sorted, listed, answer⟩ := plain "a" (by decide)
      have default := (listed "0.0.1").mpr (by decide +kernel)
      have other := (listed "1@2").mpr (by decide +kernel)
      refine ⟨versions, default, other, sorted, ?_⟩
      rcases versions with _ | ⟨v, _ | ⟨_, _⟩⟩
      · cases default
      · cases List.mem_singleton.mp default
        exact absurd (List.mem_singleton.mp other) (by decide)
      · exact answer
  · have fails : (RuleSet.compile {} "d" "0.0.1" broken).toOption.isNone := by decide +kernel
    rcases failed : RuleSet.compile {} "d" "0.0.1" broken with e | s
    · exact ⟨e, rfl, first _ _ _ [] "d" "0.0.1" e rfl all (by decide +kernel) failed⟩
    · rw [failed] at fails
      cases fails

/-- A name without any version is refused without a list. -/
theorem no_versions_listed :
    Workspace.addFiles ⟨{}, 0⟩ [] = .ok ⟨{}, 0⟩ ∧ versionsOf {} "nope" = [] ∧
      knowledgeBase {} "nope" = .error (.noRuleSet "nope") ∧
      (Failure.noRuleSet "nope").text = "Error: Rule set 'nope' not found" ∧
      ∀ versions, knowledgeBase {} "nope" ≠ .error (.severalVersions "nope" versions) := by
  have none : knowledgeBase {} "nope" = .error (.noRuleSet "nope") :=
    knowledgeBase_plain (l := {}) (by decide)
  refine ⟨rfl, rfl, none, rfl, fun versions several => ?_⟩
  rw [none] at several
  cases several

end Command

end Rulebook
