import TicketMarkup.Inline.Piece

/-!
# Runs

The inline markup of a line as a tree: plain text, emphasised runs that hold runs in turn, code,
links and images. The runs of a line are those of its pieces, with neighbouring characters joined
into one text, so no text is empty and no two texts are neighbours.
-/

namespace TicketMarkup

/-- A run of a line. -/
inductive Run
  | text (t : Text)
  | strong (inner : List Run)
  | emphasis (inner : List Run)
  | strike (inner : List Run)
  | code (t : Text)
  | link (reference : Reference)
  | image (reference : Reference)
  | lineBreak
  deriving Repr

/-- The run that a delimiter makes of the runs inside it. -/
def Delimiter.run (d : Delimiter) (inner : List Run) : Run :=
  match d with
  | .strongEmphasis _ => .strong [.emphasis inner]
  | .strong _ => .strong inner
  | .emphasis _ => .emphasis inner
  | .strike => .strike inner

/-- The run of a reference. -/
def ReferenceKind.run (kind : ReferenceKind) (reference : Reference) : Run :=
  match kind with
  | .link => .link reference
  | .image => .image reference

namespace Run

/-- Puts a character in front of runs, into their first text if they start with one. -/
def consChar (c : Char) : List Run → List Run
  | text t :: rest => text (c :: t) :: rest
  | runs => text [c] :: runs

/-- Characters in front of runs that do not start with a text make a text. -/
theorem foldr_consChar {t : Text} (ht : t ≠ []) {runs : List Run}
    (hruns : ∀ u, runs.head? ≠ some (text u)) : t.foldr consChar runs = text t :: runs := by
  induction t with
  | nil => exact absurd rfl ht
  | cons c rest ih =>
    cases rest with
    | nil =>
      cases runs with
      | nil => rfl
      | cons run runs =>
        cases run with
        | text u => exact absurd rfl (hruns u)
        | _ => rfl
    | cons d rest =>
      rw [List.foldr_cons, ih (List.cons_ne_nil d rest)]
      rfl

/-- Puts a piece in front of runs, given the runs of its inner text. -/
def consPiece (piece : Piece) (inner rest : List Run) : List Run :=
  match piece with
  | .literal c => consChar c rest
  | .escaped c => consChar c rest
  | .delimited d _ => d.run inner :: rest
  | .code _ t => code t :: rest
  | .reference kind spelling => kind.run spelling.reference :: rest

/-- The runs of a text. -/
def ofText (t : Text) : List Run :=
  (pieces t).attach.foldr (fun (piece : { piece // piece ∈ pieces t }) rest =>
    have : piece.1.inner.length < t.length := length_inner_lt_of_mem_pieces piece.2
    consPiece piece.1 (ofText piece.1.inner) rest) []
termination_by t.length

/-- The runs of a text are put together from those of its pieces. -/
theorem ofText_eq (t : Text) :
    ofText t = (pieces t).foldr (fun piece rest => consPiece piece (ofText piece.inner) rest) [] := by
  rw [ofText]
  exact List.foldr_attach (l := pieces t)
    (f := fun piece rest => consPiece piece (ofText piece.inner) rest) (b := [])

/-- The runs of a line: two spaces at the end of a line that is not blank break the line there. -/
def ofLine (line : Text) : List Run :=
  if [' ', ' '].isSuffixOf line && !line.isBlank then ofText line.trimEnd ++ [lineBreak]
  else ofText line

end Run

end TicketMarkup
