import TicketMarkup.Proofs.BlockTranslation
import TicketMarkup.Proofs.RenderedLists
import TicketMarkup.Proofs.WikiRows
import TicketMarkup.Proofs.WrittenTables

/-!
# The lines of tables

`render_tables_ofMarkdown`: each table of a document is drawn as one line for each row of the text
that is in it, and cutting the line at its pipes gives the texts of the row's cells back.

1. The tables of a document are those of the stream of events, with the paragraph of each cell
   (`tables_ofMarkdown`). Tables stand at the top level of valid documents only
   (`Node.IsBlock.tables_eq`), so the blocks of the text can be taken one by one.
2. Around its text a cell is drawn with blanks only, and the line of a row is a line of cells as it
   is written (`rowLine_eq_ofCells`).
3. A cell shows characters of its source only. These are no pipes, for the source was cut at them,
   and no line feeds, so the cells of the line are cut apart as they were put together
   (`drawsRows_tableNode`).
-/

namespace TicketMarkup

open Text

/-! ## The tables of a text -/

namespace Event

/-- The row that an event adds to a table. -/
def row? : Event → Option TableRow
  | tableRow row => some row
  | _ => none

theorem eq_tableRow_of_row? {e : Event} {row : TableRow} (h : e.row? = some row) :
    e = .tableRow row := by
  cases e with
  | tableRow row' => rw [Option.some.inj h]
  | _ => cases h

/-- The rows of each table: those between its start and its end. -/
def tables : List Event → List (List TableRow)
  | [] => []
  | .tableStart :: rest => (rest.takeWhile (· ≠ .tableEnd)).filterMap row? :: tables rest
  | _ :: rest => tables rest

theorem tables_cons_of_ne {e : Event} (h : e ≠ .tableStart) (rest : List Event) :
    tables (e :: rest) = tables rest := by
  cases e with
  | tableStart => exact absurd rfl h
  | _ => rfl

theorem tables_append_of_ne {front : List Event} (h : ∀ e ∈ front, e ≠ .tableStart)
    (back : List Event) : tables (front ++ back) = tables back := by
  induction front with
  | nil => rfl
  | cons e front ih =>
    rw [List.forall_mem_cons] at h
    rw [List.cons_append, tables_cons_of_ne h.1, ih h.2]

end Event

/-- The rows of the table that a block is. -/
def Block.tables : Block → List (List TableRow)
  | table first rest => [first :: rest]
  | _ => []

/-- The events of a block that is no table. -/
theorem Block.forall_mem_events {b : Block} (h : b.tables = []) :
    ∀ e ∈ b.events, e ≠ .tableStart ∧ e.row? = none := by
  cases b with
  | table first rest => exact absurd h (List.cons_ne_nil _ _)
  | list run =>
    simp only [events, List.forall_mem_cons, List.forall_mem_append, List.forall_mem_map]
    refine ⟨by simp [Event.row?], fun line _ => ?_, by simp [Event.row?]⟩
    cases line <;> simp [ListRun.lineEvent, Event.row?]
  | _ =>
    simp only [events, List.forall_mem_cons, List.forall_mem_append, List.forall_mem_map]
    simp [Event.row?]

theorem Block.tables_events_append (b : Block) (rest : List Event) :
    Event.tables (b.events ++ rest) = b.tables ++ Event.tables rest := by
  by_cases hb : b.tables = []
  · rw [hb, Event.tables_append_of_ne fun e he => (forall_mem_events hb e he).1]
    rfl
  · cases b with
    | table first rows =>
      have hrows : ∀ e ∈ (first :: rows).map Event.tableRow, decide (e ≠ .tableEnd) := by simp
      have hstarts : ∀ e ∈ (first :: rows).map Event.tableRow ++ [.tableEnd],
          e ≠ .tableStart :=
        List.forall_mem_append.2 ⟨List.forall_mem_map.2 (by simp), by simp⟩
      rw [events, List.cons_append, Event.tables, Event.tables_append_of_ne hstarts,
        List.append_assoc, List.singleton_append, takeWhile_append_cons hrows (by simp),
        List.filterMap_map]
      simp [tables, Function.comp_def, Event.row?]
    | _ => exact absurd rfl hb

theorem Block.tables_flatMap_events (blocks : List Block) :
    Event.tables (blocks.flatMap Block.events) = blocks.flatMap Block.tables := by
  induction blocks with
  | nil => rfl
  | cons b rest ih => rw [List.flatMap_cons, tables_events_append, ih, List.flatMap_cons]

/-- The rows among the events of a block are those of its table. -/
theorem Block.filterMap_row?_events (b : Block) :
    b.events.filterMap Event.row? = b.tables.flatten := by
  by_cases hb : b.tables = []
  · rw [hb]
    exact List.filterMap_eq_nil_iff.2 fun e he => (forall_mem_events hb e he).2
  · cases b with
    | table first rows =>
      rw [events, List.filterMap_cons_none rfl, List.filterMap_append, List.filterMap_map]
      simp [tables, Function.comp_def, Event.row?]
    | _ => exact absurd rfl hb

/-- Every row of a text is in one of its tables. -/
theorem flatten_tables_classify (markdown : Text) :
    (Event.tables ((classify markdown).map NumberedEvent.event)).flatten =
      ((classify markdown).map NumberedEvent.event).filterMap Event.row? := by
  obtain ⟨blocks, hblocks⟩ := complete_classify markdown
  rw [hblocks, Block.tables_flatMap_events, List.filterMap_flatMap,
    funext Block.filterMap_row?_events]
  simp only [List.flatMap_def, List.flatten_flatten, List.map_map, Function.comp_def]

/-- A table of a text has a row. -/
theorem ne_nil_of_mem_tables {markdown : Text} {rows : List TableRow}
    (h : rows ∈ Event.tables ((classify markdown).map NumberedEvent.event)) : rows ≠ [] := by
  obtain ⟨blocks, hblocks⟩ := complete_classify markdown
  rw [hblocks, Block.tables_flatMap_events] at h
  obtain ⟨b, -, hb⟩ := List.mem_flatMap.1 h
  cases b with
  | table first rest =>
    rw [List.mem_singleton.1 hb]
    exact List.cons_ne_nil first rest
  | _ => exact absurd hb List.not_mem_nil

/-! ## The tables of a document -/

namespace Node

/-- The node is a table. -/
def isTable : Node → Bool
  | container .table _ => true
  | _ => false

mutual

/-- The tables in a node, the node included, in preorder. -/
def tables : Node → List Node
  | container .table content => container .table content :: tablesAll content
  | container _ content | heading _ content | codeBlock _ content => tablesAll content
  | media _ | text _ _ | rule | hardBreak => []

/-- The tables in some nodes, in preorder. -/
def tablesAll : List Node → List Node
  | [] => []
  | n :: rest => tables n ++ tablesAll rest

end

theorem tables_eq (n : Node) :
    n.tables = (if n.isTable then [n] else []) ++ tablesAll n.content := by
  cases n with
  | container kind content => cases kind <;> rfl
  | _ => rfl

theorem tablesAll_eq_nil {nodes : List Node} (h : ∀ n ∈ nodes, n.tables = []) :
    tablesAll nodes = [] := by
  induction nodes with
  | nil => rfl
  | cons n rest ih =>
    rw [List.forall_mem_cons] at h
    rw [tablesAll, h.1, ih h.2, List.append_nil]

theorem tables_eq_nil {n : Node} (hn : n.isTable = false) (h : ∀ m ∈ n.content, m.tables = []) :
    n.tables = [] := by
  rw [tables_eq, hn, tablesAll_eq_nil h]
  rfl

theorem tables_of_inline {n : Node} (h : n = .hardBreak ∨ ∃ t marks, n = .text t marks) :
    n.tables = [] := by
  rcases h with rfl | ⟨t, marks, rfl⟩ <;> rfl

theorem IsParagraph.no_tables {n : Node} (h : n.IsParagraph) : n.tables = [] := by
  obtain ⟨content, rfl, hcontent⟩ := h
  exact tables_eq_nil rfl fun m hm => tables_of_inline (hcontent.inline m hm)

mutual

theorem IsList.no_tables : ∀ {n : Node}, n.IsList → n.tables = []
  | _, .intro ordered _ hitems =>
    tables_eq_nil (by cases ordered <;> rfl) fun i hi => (hitems i hi).no_tables

theorem IsItem.no_tables : ∀ {n : Node}, n.IsItem → n.tables = []
  | _, .intro hparagraph hlists =>
    tables_eq_nil rfl <| List.forall_mem_cons.2
      ⟨hparagraph.no_tables, fun l hl => (hlists l hl).no_tables⟩

end

theorem IsRow.no_tables {n : Node} (h : n.IsRow) : n.tables = [] := by
  obtain ⟨cells, rfl, -, hcells⟩ := h
  refine tables_eq_nil rfl fun c hc => ?_
  obtain ⟨content, rfl, hcontent⟩ := hcells c hc
  exact tables_eq_nil rfl (List.forall_mem_singleton.2 (IsParagraph.no_tables ⟨_, rfl, hcontent.1⟩))

/-- Inside a valid block there is no table. -/
theorem IsBlock.tables_eq {n : Node} (h : n.IsBlock) :
    n.tables = if n.isTable then [n] else [] := by
  have hcontent : ∀ m ∈ n.content, m.tables = [] := by
    cases h with
    | paragraph h =>
      obtain ⟨content, rfl, hcontent⟩ := h
      exact fun m hm => tables_of_inline (hcontent.inline m hm)
    | heading _ _ h => exact fun m hm => tables_of_inline (h.1.inline m hm)
    | list h =>
      cases h with
      | intro ordered _ hitems => exact fun i hi => (hitems i hi).no_tables
    | blockquote _ h => exact fun p hp => (h p hp).no_tables
    | codeBlock language code => exact List.forall_mem_singleton.2 rfl
    | table _ h => exact fun r hr => (h r hr).no_tables
    | rule => exact fun _ hm => absurd hm List.not_mem_nil
    | mediaSingle m => exact List.forall_mem_singleton.2 rfl
  rw [Node.tables_eq, tablesAll_eq_nil hcontent, List.append_nil]

theorem tablesAll_eq_filter {nodes : List Node} (h : ∀ n ∈ nodes, n.IsBlock) :
    tablesAll nodes = nodes.filter isTable := by
  induction nodes with
  | nil => rfl
  | cons n rest ih =>
    rw [List.forall_mem_cons] at h
    rw [tablesAll, h.1.tables_eq, ih h.2, List.filter_cons]
    split_ifs <;> rfl

end Node

/-- The tables of a document, wherever they stand, in preorder. -/
def Document.tables (d : Document) : List Node := Node.tablesAll d.content

/-- The table of some rows, as a node. -/
def tableNode (rows : List TableRow) : Node := .container .table (rows.map TableRow.node)

theorem isTable_of_mem_listsOf {items : List (Bool × Node)} {n : Node} (h : n ∈ listsOf items) :
    n.isTable = false := by
  obtain ⟨group, -, rfl⟩ := List.mem_map.1 h
  cases group.any Prod.fst <;> rfl

/-- The tables among the nodes of a block. -/
theorem Block.filter_isTable_nodes (b : Block) :
    b.nodes.filter Node.isTable = b.tables.map tableNode := by
  cases b with
  | leaf l => cases l <;> rfl
  | list run =>
    rw [nodes_eq_translation]
    refine List.filter_eq_nil_iff.2 fun n hn => ?_
    rw [isTable_of_mem_listsOf hn]
    exact Bool.false_ne_true
  | _ => rfl

/-- A document has the tables of its text. -/
theorem tables_ofMarkdown (markdown : Text) :
    (Document.ofMarkdown markdown).tables =
      (Event.tables ((classify markdown).map NumberedEvent.event)).map tableNode := by
  obtain ⟨blocks, hblocks, hcontent⟩ := exists_blocks_ofMarkdown markdown
  rw [Document.tables, Node.tablesAll_eq_filter fun n => isBlock_of_mem_ofMarkdown, hcontent,
    hblocks, Block.tables_flatMap_events, List.filter_flatMap, List.map_flatMap]
  exact congrArg (blocks.flatMap ·) (funext Block.filter_isTable_nodes)

/-! ## The lines of rows -/

namespace Element

/-- The spaces around the inner pipes, and one at either end, stand around the cells. -/
theorem join_paddedCells {cells : List Text} (hne : cells ≠ []) :
    join ['|'] (cells.map Line.paddedCell) = ' ' :: join [' ', '|', ' '] cells ++ [' '] := by
  induction cells with
  | nil => exact absurd rfl hne
  | cons cell rest ih =>
    by_cases hrest : rest = []
    · rw [hrest]
      rfl
    · rw [List.map_cons, join_cons _ _ (by simpa using hrest), ih hrest, join_cons _ cell hrest,
        Line.paddedCell]
      simp

/-- The line of a row is a line of cells as it is written. -/
theorem rowLine_eq_ofCells {cells : List Text} (hne : cells ≠ []) :
    rowLine cells = Line.ofCells cells := by
  rw [Line.ofCells_eq hne, join_paddedCells hne, rowLine]
  simp

end Element

namespace Node

theorem textContentAll_orEmptyText (content : List Node) :
    textContentAll (orEmptyText content) = textContentAll content := by
  cases content <;> rfl

/-- A line shows its characters only. -/
theorem textContentAll_ofLine_subset (line : Text) : textContentAll (ofLine line) ⊆ line := by
  obtain ⟨texts, heq, htexts⟩ := exists_ofLine_eq line
  rw [heq, textContentAll_orEmptyText]
  intro c hc
  obtain ⟨n, hn, hc⟩ := exists_mem_of_mem_textContentAll hc
  rcases List.mem_append.1 hn with hn | hn
  · obtain ⟨⟨t, marks, rfl, ht⟩, -⟩ := htexts n hn
    exact ht hc
  · rcases lineBreaks_cases line with hbreaks | hbreaks <;> rw [hbreaks] at hn
    · exact absurd hn List.not_mem_nil
    · rw [List.mem_singleton.1 hn] at hc
      exact absurd hc List.not_mem_nil

/-- What a cell of a table shows: its texts, without blanks at the ends. -/
def shownCell (cell : Text) : Text := Text.trim (textContentAll (ofRuns (Run.ofLine cell)))

theorem shownCell_eq (cell : Text) : shownCell cell = Text.trim (textContentAll (ofLine cell)) := by
  rw [ofLine, textContentAll_orEmptyText, shownCell]

theorem shownCell_subset (cell : Text) : shownCell cell ⊆ cell := by
  rw [shownCell_eq]
  exact List.Subset.trans (trim_isInfix _).subset (textContentAll_ofLine_subset cell)

theorem trim_shownCell (cell : Text) : (shownCell cell).trim = shownCell cell := trim_trim _

open Element in
/-- Around what it shows a cell is drawn with blanks only. -/
theorem cellText_render {cell : Text} (h : '\n' ∉ cell) :
    cellText (renderAll 0 ([paragraphOfLine cell].map element)) = shownCell cell := by
  have hparagraph : (paragraphOfLine cell).IsParagraph := ⟨_, rfl, inlineContent_ofLine h⟩
  have htrim : Text.trim (renderAll 0 ([paragraphOfLine cell].map element)) = shownCell cell := by
    rw [List.map_singleton, renderAll, renderAll, List.append_nil, hparagraph.trim_render,
      shownCell_eq]
    rfl
  rw [cellText, htrim]
  refine (List.map_congr_left fun c hc => ?_).trans (List.map_id _)
  refine if_neg fun hnewline : c = '\n' => h (shownCell_subset cell ?_)
  rwa [← hnewline]

open Element in
theorem renderCells_eq {cells : List Text} (h : ∀ cell ∈ cells, '\n' ∉ cell) :
    renderCells ((cells.map fun cell => container .tableCell [paragraphOfLine cell]).map element) =
      cells.map shownCell := by
  induction cells with
  | nil => rfl
  | cons cell rest ih =>
    rw [List.forall_mem_cons] at h
    rw [List.map_cons, List.map_cons, element_eq, renderCells, ih h.2, List.map_cons]
    exact congrArg (· :: _) (cellText_render h.1)

end Node

namespace TableRow

/-- A row that is cut from a line. -/
structure IsCutLine (row : TableRow) : Prop extends row.IsCut where
  no_newline : ∀ cell ∈ row.cells, '\n' ∉ cell

/-- What the cells of a row show. -/
def shownCells (row : TableRow) : List Text := row.cells.map Node.shownCell

variable {row : TableRow}

theorem IsCutLine.shownCells_ne_nil (h : row.IsCutLine) : row.shownCells ≠ [] := by
  simpa [shownCells] using h.nonempty

open Element in
/-- A row is drawn as the line of what its cells show. -/
theorem IsCutLine.rowLine_eq (h : row.IsCutLine) :
    rowLine (renderCells (row.node.content.map Node.element)) = Line.ofCells row.shownCells := by
  rw [← rowLine_eq_ofCells h.shownCells_ne_nil]
  exact congrArg rowLine (Node.renderCells_eq h.no_newline)

/-- The line of what the cells of a row show is cut into them again. -/
theorem IsCutLine.cells_ofCells (h : row.IsCutLine) :
    Line.cells (Line.ofCells row.shownCells) = row.shownCells := by
  refine Line.cells_ofCells h.shownCells_ne_nil ?_ ?_ <;> refine List.forall_mem_map.2 ?_
  · exact fun cell _ => Node.trim_shownCell cell
  · exact fun cell hcell hmem => h.no_pipe cell hcell (Node.shownCell_subset cell hmem)

theorem IsCutLine.isLine_ofCells (h : row.IsCutLine) : (Line.ofCells row.shownCells).IsLine := by
  refine Line.isLine_ofCells h.shownCells_ne_nil (List.forall_mem_map.2 ?_)
  exact fun cell hcell hmem => h.no_newline cell hcell (Node.shownCell_subset cell hmem)

end TableRow

/-! ## The lines of tables -/

/-- A table is drawn as one line for each of some rows, at any depth, and cutting the line of a row
at its pipes gives what the cells of the row show. -/
def Node.DrawsRows (table : Node) (rows : List TableRow) : Prop :=
  ∃ lines : List Text,
    (∀ depth, (Element.ofJson table.toJson).render depth = some (terminate lines)) ∧
      Text.lines (terminate lines) = lines ∧
      List.Forall₂ (fun line row => Line.cells line = TableRow.shownCells row) lines rows

open Element Node in
theorem renderRows_eq {rows : List TableRow} (h : ∀ row ∈ rows, row.IsCutLine) :
    renderRows ((rows.map TableRow.node).map element) =
      rows.map fun row => Line.ofCells row.shownCells := by
  induction rows with
  | nil => rfl
  | cons row rest ih =>
    rw [List.forall_mem_cons] at h
    rw [List.map_cons, List.map_cons, element_eq, renderRows, ih h.2, h.1.rowLine_eq, List.map_cons]

theorem drawsRows_tableNode {rows : List TableRow} (hne : rows ≠ [])
    (h : ∀ row ∈ rows, row.IsCutLine) : (tableNode rows).DrawsRows rows := by
  refine ⟨rows.map fun row => Line.ofCells row.shownCells, fun depth => ?_, ?_, ?_⟩
  · show (tableNode rows).element.render depth = _
    rw [Node.element_eq, terminate, flatMap_append_eq_join _ (by simpa using hne),
      ← renderRows_eq h]
    rfl
  · exact lines_terminate (List.forall_mem_map.2 fun row hrow => (h row hrow).isLine_ofCells)
  · rw [List.forall₂_map_left_iff, List.forall₂_same]
    exact fun row hrow => (h row hrow).cells_ofCells

theorem isCutLine_of_mem_classify {markdown : Text} {row : TableRow}
    (h : .tableRow row ∈ (classify markdown).map NumberedEvent.event) : row.IsCutLine := by
  obtain ⟨⟨number, event⟩, he, heq⟩ := List.mem_map.1 h
  obtain rfl : event = .tableRow row := heq
  obtain ⟨line, hline, -, hcells⟩ := exists_liesIn_of_mem_classify he
  exact ⟨isCut_of_mem_classify he, fun cell hcell hmem => hline ((hcells cell hcell).1.subset hmem)⟩

/-- **Drawing tables.** The tables of the document of a Markdown text are drawn, in order, as the
tables of the text: one line for each row, in order, and cutting the line at its pipes gives what
the cells of the row show. Every row of the text is in one of them. -/
theorem render_tables_ofMarkdown (markdown : Text) :
    let events := (classify markdown).map NumberedEvent.event
    (Event.tables events).flatten = events.filterMap Event.row? ∧
      List.Forall₂ Node.DrawsRows (Document.ofMarkdown markdown).tables (Event.tables events) := by
  refine ⟨flatten_tables_classify markdown, ?_⟩
  rw [tables_ofMarkdown, List.forall₂_map_left_iff, List.forall₂_same]
  intro rows hrows
  refine drawsRows_tableNode (ne_nil_of_mem_tables hrows) fun row hrow => ?_
  have hmem : row ∈ ((classify markdown).map NumberedEvent.event).filterMap Event.row? := by
    rw [← flatten_tables_classify]
    exact List.mem_flatten.2 ⟨rows, hrows, hrow⟩
  obtain ⟨e, he, hrow⟩ := List.mem_filterMap.1 hmem
  rw [Event.eq_tableRow_of_row? hrow] at he
  exact isCutLine_of_mem_classify he

end TicketMarkup
