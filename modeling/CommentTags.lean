import CommentTags.Checkpoint
import CommentTags.Config
import CommentTags.Document
import CommentTags.Document.Decorations
import CommentTags.Document.LineIndex
import CommentTags.Document.Position
import CommentTags.Engine
import CommentTags.Json.Basic
import CommentTags.Json.Decode
import CommentTags.Json.Draft
import CommentTags.Json.Fault
import CommentTags.Json.Lexeme
import CommentTags.Json.Numeral
import CommentTags.Json.Numeral.Reader
import CommentTags.Json.Quoted
import CommentTags.Language.Builtin
import CommentTags.Language.File
import CommentTags.Language.Registry
import CommentTags.Language.Rule
import CommentTags.Notice
import CommentTags.Proofs.BlankLine
import CommentTags.Proofs.ByteOffsets
import CommentTags.Proofs.Cancellation
import CommentTags.Proofs.CanonicalRanges
import CommentTags.Proofs.Casing
import CommentTags.Proofs.Checked.Claims
import CommentTags.Proofs.Checked.Enclosed
import CommentTags.Proofs.Checked.LineRun
import CommentTags.Proofs.Checked.Lines
import CommentTags.Proofs.Checked.Scan
import CommentTags.Proofs.Checked.Slice
import CommentTags.Proofs.Checked.Tags
import CommentTags.Proofs.Checkpoint
import CommentTags.Proofs.Claims
import CommentTags.Proofs.Columns
import CommentTags.Proofs.CommentLine
import CommentTags.Proofs.CommentMarks
import CommentTags.Proofs.ConfigValue
import CommentTags.Proofs.Convergence
import CommentTags.Proofs.Copy.Claims
import CommentTags.Proofs.Copy.Enclosed
import CommentTags.Proofs.Copy.LineRun
import CommentTags.Proofs.Copy.Lines
import CommentTags.Proofs.Copy.Scan
import CommentTags.Proofs.Copy.Sweep
import CommentTags.Proofs.Copy.Tags
import CommentTags.Proofs.Copy.Text
import CommentTags.Proofs.Decoding
import CommentTags.Proofs.Disjoint
import CommentTags.Proofs.DocComment
import CommentTags.Proofs.Enclosed
import CommentTags.Proofs.Engine
import CommentTags.Proofs.FreshEngine
import CommentTags.Proofs.HostRun
import CommentTags.Proofs.InlineTag
import CommentTags.Proofs.LetterCase.Lines
import CommentTags.Proofs.LetterCase.Scan
import CommentTags.Proofs.LetterCase.Text
import CommentTags.Proofs.LineComment
import CommentTags.Proofs.LineEndings
import CommentTags.Proofs.LineIndex
import CommentTags.Proofs.LineRun
import CommentTags.Proofs.LongestName
import CommentTags.Proofs.Lowercase
import CommentTags.Proofs.Mark
import CommentTags.Proofs.NormalRanges
import CommentTags.Proofs.OffsetConversion
import CommentTags.Proofs.Opener
import CommentTags.Proofs.Plan
import CommentTags.Proofs.Poll
import CommentTags.Proofs.Positions
import CommentTags.Proofs.RecordReader
import CommentTags.Proofs.Registry
import CommentTags.Proofs.Relocation
import CommentTags.Proofs.Rescan
import CommentTags.Proofs.Scan
import CommentTags.Proofs.ShownLines
import CommentTags.Proofs.StaleRefinement
import CommentTags.Proofs.Sweep
import CommentTags.Proofs.TagKeys
import CommentTags.Proofs.TagRanges
import CommentTags.Proofs.Text
import CommentTags.Proofs.ThemeStyle
import CommentTags.Proofs.UnsupportedLanguage
import CommentTags.Proofs.WindowLines
import CommentTags.Proofs.Windows
import CommentTags.Scan
import CommentTags.Scan.Anchor
import CommentTags.Scan.Claims
import CommentTags.Scan.Claims.Lemmas
import CommentTags.Scan.CommentLine
import CommentTags.Scan.Enclosed
import CommentTags.Scan.LineRun
import CommentTags.Scan.Matchers
import CommentTags.Scan.Pass
import CommentTags.Scan.Ranges
import CommentTags.Schedule.Scheduler
import CommentTags.Schedule.Windows
import CommentTags.Search
import CommentTags.Span
import CommentTags.Tag.Alternation
import CommentTags.Tag.Entry
import CommentTags.Tag.Literal
import CommentTags.Tag.Table
import CommentTags.Task
import CommentTags.Text.Basic
import CommentTags.Text.ByteOffsets
import CommentTags.Unicode.CaseFolding
import CommentTags.Unicode.CaseFoldingTable
import CommentTags.Unicode.CasedTable
import CommentTags.Unicode.Lowercase
import CommentTags.Unicode.LowercaseTable
import CommentTags.Unicode.Table
import CommentTags.Unicode.WhiteSpace
