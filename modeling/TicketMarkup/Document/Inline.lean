import TicketMarkup.Document.Node
import TicketMarkup.Inline.Run

/-!
# Inline content of documents

The runs of a line become text nodes. A text carries the marks of all runs around it, outermost
first, and its own mark last. No text node is empty, and no two neighbours carry the same marks.
-/

namespace TicketMarkup.Node

/-- The text that a reference shows: its label, or the target if it has none. -/
def shown (reference : Reference) : Text :=
  if reference.label = [] then reference.target else reference.label

/-- The mark of a link to the target of a reference. -/
def linkMark (reference : Reference) : Mark := .link reference.target reference.title

mutual

/-- The text nodes of a run under marks, before neighbours are joined. -/
def fragments (marks : List Mark) : Run → List Node
  | .text t => [text t marks]
  | .strong inner => fragmentsAll (marks ++ [.strong]) inner
  | .emphasis inner => fragmentsAll (marks ++ [.em]) inner
  | .strike inner => fragmentsAll (marks ++ [.strike]) inner
  | .code t => [text t (marks ++ [.code])]
  | .link reference => [text (shown reference) (marks ++ [linkMark reference])]
  | .image reference => [text (shown reference) (marks ++ [linkMark reference])]
  | .lineBreak => [hardBreak]

/-- The text nodes of runs under marks, before neighbours are joined. -/
def fragmentsAll (marks : List Mark) : List Run → List Node
  | [] => []
  | run :: rest => fragments marks run ++ fragmentsAll marks rest

end

/-- Puts a node in front of others: an empty text is left out, and a text joins a text with the
same marks. -/
def consJoined (node : Node) (rest : List Node) : List Node :=
  match node, rest with
  | text [] _, _ => rest
  | text t marks, text u marks' :: more =>
    if marks = marks' then text (t ++ u) marks :: more else text t marks :: rest
  | _, _ => node :: rest

/-- The nodes of runs. -/
def ofRuns (runs : List Run) : List Node := (fragmentsAll [] runs).foldr consJoined []

/-- The nodes of a line. -/
def ofLine (line : Text) : List Node := orEmptyText (ofRuns (Run.ofLine line))

/-- A paragraph of one line. -/
def paragraphOfLine (line : Text) : Node := container .paragraph (ofLine line)

end TicketMarkup.Node
