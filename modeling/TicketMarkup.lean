import TicketMarkup.Main
import TicketMarkup.Proofs.BlockTranslation
import TicketMarkup.Proofs.ClosingSearch
import TicketMarkup.Proofs.Escapes
import TicketMarkup.Proofs.Fences
import TicketMarkup.Proofs.FieldOrder
import TicketMarkup.Proofs.Headings
import TicketMarkup.Proofs.ImageLines
import TicketMarkup.Proofs.LineEndings
import TicketMarkup.Proofs.LinkedDocuments
import TicketMarkup.Proofs.ListEnds
import TicketMarkup.Proofs.ListNesting
import TicketMarkup.Proofs.MarkedText
import TicketMarkup.Proofs.NormalRuns
import TicketMarkup.Proofs.Outlines
import TicketMarkup.Proofs.PlainWords
import TicketMarkup.Proofs.ReadBack
import TicketMarkup.Proofs.RenderedLists
import TicketMarkup.Proofs.RenderedTables
import TicketMarkup.Proofs.RepeatedMarks
import TicketMarkup.Proofs.RequestReading
import TicketMarkup.Proofs.Schema
import TicketMarkup.Proofs.SkippedReferences
import TicketMarkup.Proofs.Spans
import TicketMarkup.Proofs.TaskItems
import TicketMarkup.Proofs.TerminalRuns
import TicketMarkup.Proofs.VersionNumbers
import TicketMarkup.Proofs.VisibleText
import TicketMarkup.Proofs.WikiLines
import TicketMarkup.Proofs.WikiRows
import TicketMarkup.Proofs.WireRoundTrip
import TicketMarkup.Proofs.WordUnderscores
import TicketMarkup.Proofs.WrittenTables
