import Rulebook.RuleSet

/-!
# Libraries of rule sets

A library holds at most one rule set per name and version, sorted by both. A text that does not
compile changes nothing.
-/

namespace Rulebook

structure Library where
  limits : Limits := {}
  ruleSets : List RuleSet := []

namespace Library

/-- Whether a rule set has this name and version. -/
def hasKey (name version : String) (s : RuleSet) : Bool := s.name = name && s.version = version

def get? (l : Library) (name version : String) : Option RuleSet :=
  l.ruleSets.find? (hasKey name version)

def contains (l : Library) (name version : String) : Bool := (l.get? name version).isSome

/-- Whether a name and version come before another, by the name first. -/
def keyBefore (s t : RuleSet) : Bool := s.name < t.name || (s.name = t.name && s.version < t.version)

/-- Replaces the rule set with the same name and version, or puts a new one in its place. -/
def insertSorted (new : RuleSet) : List RuleSet → List RuleSet
  | [] => [new]
  | s :: rest =>
    if hasKey s.name s.version new then new :: rest
    else if keyBefore new s then new :: s :: rest
    else s :: insertSorted new rest

def insert (l : Library) (new : RuleSet) : Library :=
  { l with ruleSets := insertSorted new l.ruleSets }

/-- Compiles a text and keeps the rule set, in place of an older one of its name and version. -/
def compile (l : Library) (name version : String) (bytes : ByteArray) :
    Except Error (RuleSet × Library) := do
  let s ← RuleSet.compile l.limits name version bytes
  return (s, l.insert s)

def remove (l : Library) (name version : String) : Library :=
  { l with ruleSets := l.ruleSets.filter fun s => !hasKey name version s }

/-- A knowledge base of its own over a rule set of the library. -/
def knowledgeBase (l : Library) (name version : String) : Except Error KnowledgeBase :=
  match l.get? name version with
  | some s => .ok (.ofRuleSet s)
  | none => .error (.unknownRuleSet name version)

/-- All names with their versions, sorted. -/
def keys (l : Library) : List (String × String) := l.ruleSets.map fun s => (s.name, s.version)

end Library

end Rulebook
