import RcScript.CommandLine
import RcScript.Cursor
import RcScript.Diagnostic
import RcScript.Directory
import RcScript.Event
import RcScript.Grammar
import RcScript.Json
import RcScript.Key
import RcScript.Main
import RcScript.Mode
import RcScript.Program
import RcScript.Program.Advisory
import RcScript.Program.Build
import RcScript.Program.Dump
import RcScript.Program.Edit
import RcScript.Program.Layout
import RcScript.Program.Load
import RcScript.Proofs.AdvisoryPlace
import RcScript.Proofs.AdvisoryScope
import RcScript.Proofs.BuiltProgram
import RcScript.Proofs.ByteChange
import RcScript.Proofs.ByteCutting
import RcScript.Proofs.CanonicalLine
import RcScript.Proofs.CanonicalTokens
import RcScript.Proofs.CheckedParse
import RcScript.Proofs.CheckedReader
import RcScript.Proofs.CheckedReading
import RcScript.Proofs.CheckedRecogniser
import RcScript.Proofs.CheckedScanner
import RcScript.Proofs.CheckedText
import RcScript.Proofs.ClauseReading
import RcScript.Proofs.CommandPosition
import RcScript.Proofs.CursorMotion
import RcScript.Proofs.DiagnosticPlace
import RcScript.Proofs.DiagnosticReach
import RcScript.Proofs.DiagnosticReport
import RcScript.Proofs.EditLocality
import RcScript.Proofs.EmptyReport
import RcScript.Proofs.FaultReading
import RcScript.Proofs.FileRuns
import RcScript.Proofs.FormatStability
import RcScript.Proofs.GrammarRealization
import RcScript.Proofs.IncrementalReading
import RcScript.Proofs.KeyText
import RcScript.Proofs.KindStability
import RcScript.Proofs.LineConcatenation
import RcScript.Proofs.LineEnding
import RcScript.Proofs.LineGrammar
import RcScript.Proofs.LineMeaning
import RcScript.Proofs.LineReturns
import RcScript.Proofs.LineSpacing
import RcScript.Proofs.LineSplitting
import RcScript.Proofs.LineTiling
import RcScript.Proofs.LineWeight
import RcScript.Proofs.LongestMatch
import RcScript.Proofs.OffsetLookup
import RcScript.Proofs.PartField
import RcScript.Proofs.PatternForm
import RcScript.Proofs.PatternLanguage
import RcScript.Proofs.ReadingRun
import RcScript.Proofs.Relocation
import RcScript.Proofs.RequestSequence
import RcScript.Proofs.SpanBounds
import RcScript.Proofs.StatementLookup
import RcScript.Proofs.StatementTokens
import RcScript.Proofs.StructuredForm
import RcScript.Proofs.TokenAccount
import RcScript.Proofs.TrailingBlanks
import RcScript.Proofs.WordPreservation
import RcScript.Proofs.WordRecognition
import RcScript.Reader
import RcScript.Search
import RcScript.Span
import RcScript.Statement
import RcScript.Statement.Kind
import RcScript.Text.Blank
import RcScript.Text.DefaultIgnorable
import RcScript.Text.GraphemeExtend
import RcScript.Text.Hex
import RcScript.Text.Line
import RcScript.Text.Printable
import RcScript.Text.Quoted
import RcScript.Text.Utf8
import RcScript.Token
import RcScript.Token.Pattern
import RcScript.Token.Recogniser
import RcScript.Vocabulary
