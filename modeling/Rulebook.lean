import Rulebook.Main
import Rulebook.Grammar.Depth
import Rulebook.Sample.Functions
import Rulebook.Proofs.Eval.Given
import Rulebook.Proofs.Eval.Exact
import Rulebook.Proofs.Eval.Moments
import Rulebook.Proofs.RuleSet.Compiled
import Rulebook.Proofs.Engine.Matching
import Rulebook.Proofs.Engine.Forward
import Rulebook.Proofs.Eval.Reading
import Rulebook.Proofs.Engine.History
import Rulebook.Proofs.Engine.Activation
import Rulebook.Proofs.Engine.Bound
import Rulebook.Proofs.Engine.Fetch
import Rulebook.Proofs.Engine.Unmentioned
import Rulebook.Proofs.Engine.Agenda
import Rulebook.Proofs.Engine.Attributed
import Rulebook.Proofs.Engine.Interrupted
import Rulebook.Proofs.Engine.Permuted
import Rulebook.Proofs.Engine.Matched
import Rulebook.Proofs.Engine.ReadOnly
import Rulebook.Proofs.Grammar.Derivation
import Rulebook.Proofs.Grammar.Room
import Rulebook.Proofs.Grammar.Soundness
import Rulebook.Proofs.Grammar.Completeness
import Rulebook.Proofs.Grammar.Rules
import Rulebook.Proofs.Grammar.Parse
import Rulebook.Proofs.Grammar.Exact
import Rulebook.Proofs.Grammar.Levels
import Rulebook.Proofs.Grammar.Quiet
import Rulebook.Proofs.Grammar.Frame
import Rulebook.Proofs.Grammar.Respan
import Rulebook.Proofs.Grammar.Blocks
import Rulebook.Proofs.Grammar.Attempts
import Rulebook.Proofs.Grammar.Blind
import Rulebook.Proofs.Grammar.Segments
import Rulebook.Proofs.Grammar.Cut
import Rulebook.Proofs.Number.Digits
import Rulebook.Proofs.Number.Finite
import Rulebook.Proofs.Number.Written
import Rulebook.Proofs.Number.Whole
import Rulebook.Proofs.Number.Single
import Rulebook.Proofs.Json.Converted
import Rulebook.Proofs.Value.Comparison
import Rulebook.Proofs.Text.Shown
import Rulebook.Proofs.Text.Slice
import Rulebook.Proofs.Text.Tracked
import Rulebook.Proofs.Token.Ink
import Rulebook.Proofs.Token.Forms
import Rulebook.Proofs.Token.Newline
import Rulebook.Proofs.Token.Joined
import Rulebook.Proofs.Token.Layout
import Rulebook.Proofs.Token.Tiling
import Rulebook.Proofs.Token.Ends
import Rulebook.Proofs.Token.Spaced
import Rulebook.Proofs.Token.Stretch
import Rulebook.Proofs.Expr.Branch
import Rulebook.Proofs.Rule.WellFormed
import Rulebook.Proofs.Rule.Display
import Rulebook.Proofs.Rule.Bare
import Rulebook.Proofs.Rule.Respan
import Rulebook.Proofs.Rule.Reading
import Rulebook.Proofs.RuleSet.Shown
import Rulebook.Proofs.RuleSet.Joined
import Rulebook.Proofs.RuleSet.Spaced
import Rulebook.Proofs.RuleSet.Alone
import Rulebook.Proofs.RuleSet.Decimal
import Rulebook.Proofs.RuleSet.Quoted
import Rulebook.Proofs.RuleSet.Spans
import Rulebook.Proofs.RuleSet.Accepted
import Rulebook.Proofs.Library.Served
import Rulebook.Proofs.Fact.Document
import Rulebook.Proofs.Fact.Plain
import Rulebook.Proofs.Fact.Edit
import Rulebook.Proofs.Fact.Written
import Rulebook.Proofs.Fact.Reread
import Rulebook.Proofs.Fact.Respelled
import Rulebook.Proofs.Eval.Composed
import Rulebook.Proofs.Eval.Respelled
import Rulebook.Proofs.Command.Resolved
import Rulebook.Proofs.Grammar.Progress
import Rulebook.Proofs.Eval.Folded
import Rulebook.Proofs.Engine.Unbroken
