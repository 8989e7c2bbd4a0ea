import HeapAudit.Text.Lower
import HeapAudit.Text.Digit
import HeapAudit.Text.Scan
import HeapAudit.Text.Quoted
import HeapAudit.Text.Utf8
import HeapAudit.Number.Read
import HeapAudit.Number.Shortest
import HeapAudit.Number.Places
import HeapAudit.Language
import HeapAudit.Event
import HeapAudit.Comment
import HeapAudit.Form
import HeapAudit.Heading
import HeapAudit.LineScan
import HeapAudit.Ledger
import HeapAudit.Quality
import HeapAudit.Report.Records
import HeapAudit.Syntax.Walk
import HeapAudit.Analyzer
import HeapAudit.Sorting
import HeapAudit.Verdict
import HeapAudit.Report.Bytes
import HeapAudit.Report.Whole
import HeapAudit.Report.Sarif
import HeapAudit.Report.Plain
import HeapAudit.Script.Place
import HeapAudit.Script.Semicolon
import HeapAudit.Script.Token
import HeapAudit.Script.Reader
import HeapAudit.Script.Cover
import HeapAudit.Script.Expression
import HeapAudit.Script.Statement
import HeapAudit.Script.Parse
import HeapAudit.Frontends
import HeapAudit.Files.Path
import HeapAudit.Files.Tree
import HeapAudit.Files.Glob
import HeapAudit.Files.Sources
import HeapAudit.CommandLine.Arguments
import HeapAudit.CommandLine.Help
import HeapAudit.CommandLine.Options
import HeapAudit.CommandLine.Run
import HeapAudit.Main
import HeapAudit.Proofs.AllocationIds
import HeapAudit.Proofs.Holdings
import HeapAudit.Proofs.LedgerSteps
import HeapAudit.Proofs.Balance
import HeapAudit.Proofs.Conservation
import HeapAudit.Proofs.Renumbering
import HeapAudit.Proofs.Independence
import HeapAudit.Proofs.Moments
import HeapAudit.Proofs.Fates
import HeapAudit.Proofs.Failures
import HeapAudit.Proofs.Lines
import HeapAudit.Proofs.Segments
import HeapAudit.Proofs.ScanSteps
import HeapAudit.Proofs.ScopeStack
import HeapAudit.Proofs.Boundaries
import HeapAudit.Proofs.Comments
import HeapAudit.Proofs.CommentScan
import HeapAudit.Proofs.Serials
import HeapAudit.Proofs.Forms
import HeapAudit.Proofs.LineBreaks
import HeapAudit.Proofs.Accounting
import HeapAudit.Proofs.LineComments
import HeapAudit.Proofs.Hints
import HeapAudit.Proofs.Repair
import HeapAudit.Proofs.FallbackChain
import HeapAudit.Proofs.SarifRules
import HeapAudit.Proofs.Layout
import HeapAudit.Proofs.Assignments
import HeapAudit.Proofs.Initializers
import HeapAudit.Proofs.Declarations
import HeapAudit.Proofs.PreOrder
import HeapAudit.Proofs.Stripped
import HeapAudit.Proofs.Gathering
import HeapAudit.Proofs.LinePositions
import HeapAudit.Proofs.Indentation
import HeapAudit.Proofs.Headings
import HeapAudit.Proofs.ArgumentLists
import HeapAudit.Proofs.CallocSizes
import HeapAudit.Proofs.Rounding
import HeapAudit.Proofs.SizeFailures
import HeapAudit.Proofs.Products
import HeapAudit.Proofs.UnsafeCalls
import HeapAudit.Proofs.ArgumentValues
import HeapAudit.Proofs.LeakOrder
import HeapAudit.Proofs.MatchedText
import HeapAudit.Proofs.Separators
import HeapAudit.Proofs.Literals
import HeapAudit.Proofs.Decimals
import HeapAudit.Proofs.Amounts
