import LangId.Candidates
import LangId.Cascade
import LangId.Classifier.Model
import LangId.Classifier.Ranking
import LangId.Classifier.Tally
import LangId.CommandLine.Arguments
import LangId.CommandLine.Output
import LangId.CommandLine.Run
import LangId.Config.Environment
import LangId.Config.Load
import LangId.Config.Schema
import LangId.Config.Settings
import LangId.Data.Issue
import LangId.Data.Json
import LangId.Data.Json.Printer
import LangId.Data.Schema
import LangId.Data.Value
import LangId.Exclusion.Filter
import LangId.Exclusion.Rule
import LangId.Gitignore.Filter
import LangId.Gitignore.Pattern
import LangId.Heuristic
import LangId.Identifier
import LangId.Knowledge.Base
import LangId.Knowledge.Build
import LangId.Knowledge.Bundled
import LangId.Knowledge.Dialect
import LangId.Knowledge.Error
import LangId.Knowledge.Load
import LangId.Knowledge.Payload
import LangId.Knowledge.Schema
import LangId.Knowledge.Source
import LangId.Language
import LangId.Main
import LangId.Modeline
import LangId.Number.Decimal
import LangId.Number.Double
import LangId.Path
import LangId.Proofs.Candidates
import LangId.Proofs.Cascade.Alike
import LangId.Proofs.Cascade.Authority
import LangId.Proofs.Cascade.Contract
import LangId.Proofs.Cascade.Endings
import LangId.Proofs.Cascade.Evidence
import LangId.Proofs.Cascade.Narrowing
import LangId.Proofs.Cascade.Opinions
import LangId.Proofs.Cascade.Verdict
import LangId.Proofs.Classifier.Choice
import LangId.Proofs.CommandLine.Statistics
import LangId.Proofs.Knowledge.Index
import LangId.Proofs.Knowledge.Lookup
import LangId.Proofs.Path
import LangId.Proofs.Report.Analysis
import LangId.Proofs.Report.Combination
import LangId.Proofs.Report.Merge
import LangId.Proofs.Report.Reordering
import LangId.Proofs.Report.Sampling
import LangId.Proofs.Report.Shares
import LangId.Proofs.Steps
import LangId.Proofs.Suffixes
import LangId.Proofs.Tables
import LangId.Provider
import LangId.Regex.Build
import LangId.Regex.CharClass
import LangId.Regex.Fault
import LangId.Regex.Matching
import LangId.Regex.Node
import LangId.Regex.Parser
import LangId.Regex.Pattern
import LangId.Report
import LangId.Sample
import LangId.Scan
import LangId.Shebang
import LangId.Text.Base64
import LangId.Text.Blank
import LangId.Text.CaseTable
import LangId.Text.Digit
import LangId.Text.Identifier
import LangId.Text.Lines
import LangId.Text.Lower
import LangId.Text.Order
import LangId.Text.Printable
import LangId.Text.Quoted
import LangId.Text.Ranges
import LangId.Text.Utf8
import LangId.Text.Word
import LangId.Token
import LangId.Tree
import LangId.Yaml.Calendar
import LangId.Yaml.Cursor
import LangId.Yaml.Document
import LangId.Yaml.Fault
import LangId.Yaml.Layout
import LangId.Yaml.Node
import LangId.Yaml.Plain
import LangId.Yaml.Scalar
import LangId.Yaml.Token
import LangId.Proofs.Dialect.Constructs
import LangId.Proofs.Knowledge.Faults
import LangId.Proofs.Dialect.Compile
import LangId.Proofs.Knowledge.Validity
import LangId.Proofs.Knowledge.Containment
import LangId.Proofs.Regex.Renumbering
import LangId.Proofs.Regex.Framing
import LangId.Proofs.Regex.Following
import LangId.Proofs.Regex.Signs
import LangId.Proofs.Regex.Nesting
import LangId.Proofs.Regex.Choices
import LangId.Proofs.Regex.Joining
import LangId.Proofs.Dialect.Alternation
import LangId.Proofs.Classifier.Tallies
import LangId.Proofs.Text.Lower
import LangId.Proofs.Text.Order
import LangId.Proofs.Knowledge.Training
import LangId.Proofs.Knowledge.Assembly
import LangId.Proofs.Knowledge.Answers
import LangId.Proofs.Knowledge.Reordering
import LangId.Proofs.Cascade.Strangers
import LangId.Proofs.Knowledge.Extension
import LangId.Proofs.Tree.Places
import LangId.Proofs.Tree.Ways
import LangId.Proofs.Tree.Spelling
import LangId.Proofs.Tree.Scanning
import LangId.Proofs.CommandLine.Scanning
import LangId.Proofs.Number.Rounding
import LangId.Proofs.Number.Packing
import LangId.Proofs.Number.Arithmetic
import LangId.Proofs.Number.Values
import LangId.Proofs.Number.Integers
import LangId.Proofs.Classifier.Scores
import LangId.Proofs.Config.Accepted
import LangId.Proofs.Report.Failures
import LangId.Proofs.Report.Contents
import LangId.Proofs.Knowledge.Declarations
import LangId.Proofs.Config.Loading
import LangId.Proofs.Gitignore.Lines
import LangId.Proofs.Exclusion.Extra
import LangId.Proofs.CommandLine.Rules
import LangId.Proofs.Cascade.Longest
import LangId.Proofs.Exclusion.FirstMatch
import LangId.Proofs.Knowledge.FirstRule
import LangId.Proofs.Token.Lines
import LangId.Proofs.Knowledge.Totals
import LangId.Proofs.Knowledge.Bundled
import LangId.Proofs.Knowledge.Source
import LangId.Proofs.Regex.Passing
import LangId.Proofs.Text.Pieces
import LangId.Proofs.Gitignore.Names
import LangId.Proofs.Path.Respelling
import LangId.Proofs.Path.Location
import LangId.Proofs.Exclusion.Binary
import LangId.Proofs.Knowledge.Counting
import LangId.Proofs.Knowledge.Evidence
import LangId.Proofs.Knowledge.Attachment
import LangId.Proofs.Cascade.Attached
import LangId.Proofs.Regex.Singles
import LangId.Proofs.Regex.Classes
import LangId.Proofs.Dialect.HexDigits
import LangId.Proofs.Classifier.Probability
import LangId.Proofs.Token.Prefixes
import LangId.Proofs.Token.Literals
import LangId.Proofs.Regex.Closing
import LangId.Proofs.Regex.Openings
import LangId.Proofs.Regex.Scoping
import LangId.Proofs.Dialect.Flags
import LangId.Proofs.Classifier.Ranking
import LangId.Proofs.Sample
import LangId.Proofs.Text.Words
import LangId.Proofs.Shebang.Env
import LangId.Proofs.Regex.Keeping
import LangId.Proofs.Regex.Spelling
import LangId.Proofs.Modeline.Starred
import LangId.Proofs.Modeline.Settings
import LangId.Proofs.Modeline.Colon
import LangId.Proofs.Modeline.Declared
import LangId.Proofs.Report.Workers
import LangId.Proofs.Report.Unreadable
import LangId.Proofs.Report.Options
import LangId.Proofs.Tree.Sorted
import LangId.Proofs.Tree.Listing
import LangId.Proofs.Tree.Complete
import LangId.Proofs.Candidates.Commuting
import LangId.Proofs.Shebang.Locality
import LangId.Proofs.Gitignore.Bases
import LangId.Proofs.Gitignore.Metadata
import LangId.Proofs.Gitignore.Reading
import LangId.Proofs.Shebang.Versions
import LangId.Proofs.Modeline.Window
