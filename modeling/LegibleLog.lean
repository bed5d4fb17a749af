import LegibleLog.Text.Blank
import LegibleLog.Text.Utf8
import LegibleLog.Text.Upper
import LegibleLog.Text.Quoted
import LegibleLog.ByKey
import LegibleLog.Number.Decimal
import LegibleLog.Number.Shortest
import LegibleLog.Time.Timestamp
import LegibleLog.Time.Written
import LegibleLog.Time.Writer
import LegibleLog.Json.Builder
import LegibleLog.Logfmt
import LegibleLog.Event.Record
import LegibleLog.Shape
import LegibleLog.Wrapper.Cee
import LegibleLog.Stream
import LegibleLog.Toml.Document
import LegibleLog.Config.Document
import LegibleLog.Session
import LegibleLog.Main
import LegibleLog.Proofs.Separation
import LegibleLog.Proofs.Members
import LegibleLog.Proofs.LineCount
import LegibleLog.Proofs.Logfmt.Grammar
import LegibleLog.Proofs.Logfmt.Reading
import LegibleLog.Proofs.Logfmt.Unambiguous
import LegibleLog.Proofs.Verbatim
import LegibleLog.Proofs.Json.Balance
import LegibleLog.Proofs.Json.Outermost
import LegibleLog.Proofs.Logfmt.Quotes
import LegibleLog.Proofs.Records
import LegibleLog.Proofs.Wrappers
import LegibleLog.Proofs.ControlSequences
import LegibleLog.Proofs.Removal
import LegibleLog.Proofs.OneShape
import LegibleLog.Proofs.Composed
import LegibleLog.Proofs.RuntimeLines
import LegibleLog.Proofs.Stamped
import LegibleLog.Proofs.Scan
import LegibleLog.Proofs.Traces
import LegibleLog.Proofs.Logfmt.Spellings
import LegibleLog.Proofs.Validity
import LegibleLog.Proofs.Layouts
import LegibleLog.Proofs.AnyOrder
import LegibleLog.Proofs.Json.Spellings
import LegibleLog.Proofs.Agreement
import LegibleLog.Proofs.Coloring
import LegibleLog.Proofs.Settling
import LegibleLog.Proofs.Visibility
import LegibleLog.Proofs.Chunks
import LegibleLog.Proofs.ConsoleLines
import LegibleLog.Proofs.Precedence
import LegibleLog.Proofs.FirstSight
import LegibleLog.Proofs.Numerals
import LegibleLog.Proofs.EpochTexts
import LegibleLog.Proofs.Epochs
import LegibleLog.Proofs.Relayed
import LegibleLog.Proofs.Counts
import LegibleLog.Proofs.Nested
import LegibleLog.Proofs.KeyOrder
import LegibleLog.Proofs.Truncation
import LegibleLog.Proofs.Palettes
