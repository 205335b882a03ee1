import StyleContract.Main
import StyleContract.Proofs.Accounts.Counters
import StyleContract.Proofs.Codec
import StyleContract.Proofs.CommandLine.Check
import StyleContract.Proofs.CommandLine.Scan
import StyleContract.Proofs.Contract.Confidence
import StyleContract.Proofs.Contract.Conformity
import StyleContract.Proofs.Contract.Place
import StyleContract.Proofs.Contract.Reading
import StyleContract.Proofs.Contract.Telling
import StyleContract.Proofs.Contract.Violations
import StyleContract.Proofs.Decimal.Layout
import StyleContract.Proofs.Decimal.Numeral
import StyleContract.Proofs.Files.Directory
import StyleContract.Proofs.Files.Enumeration
import StyleContract.Proofs.Files.Path
import StyleContract.Proofs.Files.Place
import StyleContract.Proofs.Files.Shared
import StyleContract.Proofs.Files.Walk
import StyleContract.Proofs.Files.Write
import StyleContract.Proofs.Float.Arithmetic
import StyleContract.Proofs.Json.Comments
import StyleContract.Proofs.Json.Depth
import StyleContract.Proofs.Json.Indented
import StyleContract.Proofs.Json.Leaves
import StyleContract.Proofs.Json.Merged
import StyleContract.Proofs.Json.Places
import StyleContract.Proofs.Json.RoundTrip
import StyleContract.Proofs.Json.Shape
import StyleContract.Proofs.Moment.Calendar
import StyleContract.Proofs.Moment.RoundTrip
import StyleContract.Proofs.Moment.Text
import StyleContract.Proofs.Oracle.Candidate
import StyleContract.Proofs.Oracle.Reply
import StyleContract.Proofs.Oracle.Retry
import StyleContract.Proofs.Pattern.All
import StyleContract.Proofs.Pattern.Counts
import StyleContract.Proofs.Pattern.Language
import StyleContract.Proofs.Pattern.Search
import StyleContract.Proofs.Report.Guide
import StyleContract.Proofs.Report.Provenance
import StyleContract.Proofs.Report.Sarif
import StyleContract.Proofs.Repository
import StyleContract.Proofs.Settings
import StyleContract.Proofs.Signal.Commands
import StyleContract.Proofs.Signal.Density
import StyleContract.Proofs.Signal.Searches
import StyleContract.Proofs.Signal.SectionLine
import StyleContract.Proofs.Signal.Sources
import StyleContract.Proofs.Signal.StrictLine
import StyleContract.Proofs.Signal.Typing
import StyleContract.Proofs.Signal.Unreadable
import StyleContract.Proofs.Store
import StyleContract.Proofs.Synthesis.Accounting
import StyleContract.Proofs.Synthesis.Arrival
import StyleContract.Proofs.Synthesis.Balance
import StyleContract.Proofs.Synthesis.Citation
import StyleContract.Proofs.Synthesis.Dedupe
import StyleContract.Proofs.Synthesis.Pool
import StyleContract.Proofs.Synthesis.Projection
import StyleContract.Proofs.Synthesis.Run
import StyleContract.Proofs.Text.Headings
import StyleContract.Proofs.Text.Lines
import StyleContract.Proofs.Text.Offsets
import StyleContract.Proofs.Text.Spans
import StyleContract.Proofs.Text.Truncation
import StyleContract.Proofs.Toml.Local
import StyleContract.Proofs.Toml.Numbers
import StyleContract.Proofs.Toml.Parts
import StyleContract.Proofs.Toml.Root
import StyleContract.Proofs.Toml.Statements
import StyleContract.Proofs.Toml.Values
import StyleContract.Proofs.Verification.Aligned
import StyleContract.Proofs.Verification.BrokenTools
import StyleContract.Proofs.Verification.Declared
import StyleContract.Proofs.Verification.Diff
import StyleContract.Proofs.Verification.LineLength
import StyleContract.Proofs.Verification.Setting
import StyleContract.Proofs.Verification.Strict
import StyleContract.Proofs.Verification.StrictMode
import StyleContract.Proofs.Verification.Suggestion
import StyleContract.Proofs.Verification.Verdicts
import StyleContract.Proofs.Yaml.Keys
import StyleContract.Proofs.Yaml.Lexing
import StyleContract.Proofs.Yaml.Literal
import StyleContract.Proofs.Yaml.Numbers
import StyleContract.Proofs.Yaml.Parsing
import StyleContract.Proofs.Yaml.Plain
import StyleContract.Proofs.Yaml.Quoted
import StyleContract.Proofs.Yaml.RoundTrip
import StyleContract.Proofs.Yaml.Scalars
import StyleContract.Synthesis.Pool
