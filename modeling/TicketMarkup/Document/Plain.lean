import TicketMarkup.Document.Node
import TicketMarkup.Text.Lines

/-!
# Documents from plain text

Plain text is taken as it stands. A double line feed ends a paragraph; each line of a paragraph
that is not blank is a text of its own, and a paragraph without such lines is left out.
-/

namespace TicketMarkup.Document

/-- The texts of a paragraph. -/
def plainTexts (paragraph : Text) : List Node :=
  ((Text.lines paragraph).filter (!·.isBlank)).map Node.plain

/-- The document of a plain text. -/
def ofPlainText (t : Text) : Document :=
  ofContent (((Text.paragraphs t).map plainTexts).filter (!·.isEmpty) |>.map
    (Node.container .paragraph))

end TicketMarkup.Document
