import Rulebook.Grammar.Rule
import Rulebook.RuleSet.Check
import Rulebook.Text.Utf8

/-!
# Rule sets

A rule set is compiled from a rule text: the text is read within limits on its size and nesting, and
the rules are checked. Messages call the text by the name and version of the set.
-/

namespace Rulebook

/-- Bounds on rule texts: their size in bytes, and how deeply their expressions nest. -/
structure Limits where
  bytes : Nat := 5 * megabyte
  depth : Nat := 100
deriving DecidableEq, Repr

structure RuleSet where
  name : String
  version : String
  text : String
  rules : List Rule

namespace RuleSet

/-- The problem that a text has no tokens. -/
def scanProblem (source : String) (fault : Token.Fault × Span) : Problem :=
  ⟨.lex fault.1, fault.2, none, source⟩

def grammarProblem (source : String) (fault : Grammar.Fault × Span × Option String) : Problem :=
  ⟨.grammar fault.1, fault.2.1, fault.2.2, source⟩

/-- The tokens of a text. -/
def tokens (source text : String) : Except Error (List Token) :=
  match Token.scan text.toList with
  | .ok ts => .ok ts
  | .error fault => .error (.problem (scanProblem source fault))

/-- The rules of a text, not yet checked. -/
def parse (source : String) (limits : Limits) (text : String) : Except Error (List Rule) :=
  if limits.bytes < text.utf8ByteSize then .error (.textTooLarge limits.bytes text.utf8ByteSize)
  else do
    let ts ← tokens source text
    match Grammar.rules limits.depth ts with
    | .ok rules => return rules
    | .error .tooDeep => throw (.tooDeep limits.depth)
    | .error (.broken faults) =>
      match Error.ofProblems (faults.map (grammarProblem source)) with
      | some e => throw e
      | none => return []

/-- The text that bytes stand for. -/
def decode (source : String) (bytes : ByteArray) : Except Error String :=
  match String.fromUTF8? bytes with
  | some text => .ok text
  | none =>
    let stop := ({} : Position).after (Text.validPrefix bytes.toList)
    .error (.problem (scanProblem source (.invalidUtf8 stop.offset, .point stop)))

/-- How messages call the text of a rule set. -/
def sourceName (name version : String) : String := name ++ "@" ++ version

def compile (limits : Limits) (name version : String) (bytes : ByteArray) :
    Except Error RuleSet := do
  let source := sourceName name version
  let text ← decode source bytes
  let rules ← parse source limits text
  check source rules
  return ⟨name, version, text, rules⟩

def source (s : RuleSet) : String := sourceName s.name s.version

/-- Where a rule stands in the set, from 0. -/
def position? (s : RuleSet) (rule : String) : Option Nat := s.rules.findIdx? fun r => r.name = rule

def rule? (s : RuleSet) (rule : String) : Option Rule := s.rules.find? fun r => r.name = rule

end RuleSet

/-! ## Activation -/

/-- A rule set together with which of its rules are active. -/
structure KnowledgeBase where
  ruleSet : RuleSet
  active : Array Bool

namespace KnowledgeBase

/-- Every rule is active at first. -/
def ofRuleSet (s : RuleSet) : KnowledgeBase := ⟨s, Array.replicate s.rules.length true⟩

def isActive (kb : KnowledgeBase) (rule : String) : Bool :=
  match kb.ruleSet.position? rule with
  | some i => kb.active.getD i false
  | none => false

/-- Switches a rule off, if there is one of that name. -/
def retract? (kb : KnowledgeBase) (rule : String) : Option KnowledgeBase :=
  (kb.ruleSet.position? rule).map fun i => { kb with active := kb.active.setIfInBounds i false }

def reset (kb : KnowledgeBase) : KnowledgeBase := ofRuleSet kb.ruleSet

/-- The active rules, in the order of the set. -/
def activeRules (kb : KnowledgeBase) : List Rule :=
  ((kb.ruleSet.rules.zip kb.active.toList).filter Prod.snd).map Prod.fst

end KnowledgeBase

end Rulebook
