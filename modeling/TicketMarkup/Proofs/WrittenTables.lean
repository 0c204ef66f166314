import TicketMarkup.Proofs.BlockNodes
import TicketMarkup.Proofs.Outlines
import TicketMarkup.Proofs.TableRows

/-!
# Written tables

`written_table`: a header row and rows of data, written with a separator between them, are read back
with their cells, and the document of the text is one table with a paragraph for each cell.

1. The line of a row is its cells between spaces and pipes. The pipes at its ends are no cells, and
   those between the cells are the only others, so cutting gives the cells back (`cells_line`).
2. The line starts with a pipe, so it is no fence, code or quote, whether or not a table is open
   (`read_line`).
3. Only behind the header stands a line that looks like a separator, so no other row is a header
   (`classifyFrom_rows`).
-/

namespace TicketMarkup

open Text

/-! ## Lines of cells -/

namespace Line

/-- A cell with a space on either side. -/
def paddedCell (cell : Text) : Text := ' ' :: cell ++ [' ']

/-- The line of some cells: each between spaces, with a pipe behind it, and a pipe in front of the
first. -/
def ofCells (cells : List Text) : Text := '|' :: (cells.map paddedCell).flatMap (· ++ ['|'])

theorem trim_paddedCell (cell : Text) : (paddedCell cell).trim = cell.trim := by
  have hspace : Text.isBlank [' '] := by decide
  rw [paddedCell, trim_append_of_isBlank _ hspace, trim, trimStart,
    List.dropWhile_cons_of_pos (by decide)]
  rfl

variable {cells : List Text}

theorem mem_ofCells {c : Char} (h : c ∈ ofCells cells) :
    c ∈ ['|', ' '] ∨ ∃ cell ∈ cells, c ∈ cell := by
  rcases List.mem_cons.1 h with rfl | h
  · exact .inl List.mem_cons_self
  · obtain ⟨_, hpadded, h⟩ := List.mem_flatMap.1 h
    obtain ⟨cell, hcell, rfl⟩ := List.mem_map.1 hpadded
    have hparts : c = ' ' ∨ c ∈ cell ∨ c = '|' := by
      simp [paddedCell] at h
      tauto
    rcases hparts with rfl | hc | rfl
    · exact .inl (List.mem_cons_of_mem _ List.mem_cons_self)
    · exact .inr ⟨cell, hcell, hc⟩
    · exact .inl List.mem_cons_self

theorem trimStart_ofCells (cells : List Text) : (ofCells cells).trimStart = ofCells cells :=
  List.dropWhile_cons_of_neg (by decide)

theorem ofCells_eq (hne : cells ≠ []) :
    ofCells cells = '|' :: (join ['|'] (cells.map paddedCell) ++ ['|']) := by
  rw [ofCells, flatMap_append_eq_join ['|'] (by simpa using hne)]

theorem getLast?_ofCells (hne : cells ≠ []) : (ofCells cells).getLast? = some '|' := by
  rw [ofCells_eq hne, ← List.cons_append, List.getLast?_concat]

theorem trim_ofCells (hne : cells ≠ []) : (ofCells cells).trim = ofCells cells := by
  have hpipe : ¬TicketMarkup.isBlank '|' := by decide
  have hend : EndsUnblank (ofCells cells) := fun c hc => by
    rw [getLast?_ofCells hne] at hc
    exact Option.some.inj hc ▸ hpipe
  rw [trim, trimStart_ofCells, trimEnd_of_endsUnblank hend]

theorem isTableRow_ofCells (hne : cells ≠ []) (tableOpen : Bool) :
    isTableRow (ofCells cells) tableOpen := by
  have hlength : 2 ≤ (ofCells cells).length := by
    rw [ofCells_eq hne]
    simp
  have hpipe : '|' ∈ ofCells cells := List.mem_cons_self
  simp [isTableRow, trim_ofCells hne, getLast?_ofCells hne, hlength, hpipe,
    show (ofCells cells).head? = some '|' from rfl]

/-- Cells that are trimmed and have no pipes are read back. -/
theorem cells_ofCells (hne : cells ≠ []) (htrim : ∀ cell ∈ cells, cell.trim = cell)
    (hpipe : ∀ cell ∈ cells, '|' ∉ cell) : Line.cells (ofCells cells) = cells := by
  have hpadded : ∀ cell ∈ cells.map paddedCell, '|' ∉ cell := by
    refine List.forall_mem_map.2 fun cell hcell => ?_
    simpa [paddedCell] using hpipe cell hcell
  have hcut : (ofCells cells).tail = join ['|'] (cells.map paddedCell) ++ ['|'] := by
    rw [ofCells_eq hne, List.tail_cons]
  have hhead : (ofCells cells).head? = some '|' := rfl
  simp only [Line.cells, trim_ofCells hne, if_pos hhead, hcut]
  rw [dropSuffix_append, splitOn_join (by simpa using hne) hpadded, List.map_map]
  refine (List.map_congr_left fun cell hcell => ?_).trans (List.map_id cells)
  exact (trim_paddedCell cell).trans (htrim cell hcell)

theorem isLine_ofCells (hne : cells ≠ []) (h : ∀ cell ∈ cells, '\n' ∉ cell) :
    (ofCells cells).IsLine := by
  refine ⟨fun hmem => ?_, by simp [getLast?_ofCells hne]⟩
  rcases mem_ofCells hmem with hmem | ⟨cell, hcell, hmem⟩
  · exact absurd hmem (by decide)
  · exact h cell hcell hmem

/-- Cells of dashes make a separator. -/
theorem isSeparator_ofCells (hne : cells ≠ [])
    (h : ∀ cell ∈ cells, cell ≠ [] ∧ ∀ c ∈ cell, c = '-') : isSeparator (ofCells cells) := by
  obtain ⟨cell, rest, rfl⟩ := List.exists_cons_of_ne_nil hne
  obtain ⟨⟨c, cell', rfl⟩, hcell⟩ : (∃ c cell', cell = c :: cell') ∧ ∀ c ∈ cell, c = '-' :=
    (h cell List.mem_cons_self).imp_left List.exists_cons_of_ne_nil
  obtain rfl : c = '-' := hcell c List.mem_cons_self
  have hall : ∀ c ∈ ofCells (('-' :: cell') :: rest), c ∈ ['|', '-', ':', ' ', '\t'] := by
    intro c hc
    rcases mem_ofCells hc with hc | ⟨cell, hcell, hc⟩
    · simp only [List.mem_cons, List.not_mem_nil, or_false] at hc
      rcases hc with rfl | rfl <;> decide
    · rw [(h cell hcell).2 c hc]
      decide
  have hdash : '-' ∈ ofCells (('-' :: cell') :: rest) := by simp [ofCells, paddedCell]
  have hpipe : '|' ∈ ofCells (('-' :: cell') :: rest) := List.mem_cons_self
  simp only [isSeparator, trim_ofCells hne, Bool.and_eq_true, List.contains_iff_mem,
    List.all_eq_true, decide_eq_true_eq]
  exact ⟨⟨hpipe, hdash⟩, hall⟩

end Line

/-! ## Rows -/

/-- A row as it can be written: it has cells, each is trimmed and without pipes or line feeds, and
its line does not look like a separator. -/
structure WrittenRow where
  cells : List Text
  nonempty : cells ≠ []
  trimmed : ∀ cell ∈ cells, cell.trim = cell
  no_pipe : ∀ cell ∈ cells, '|' ∉ cell
  no_newline : ∀ cell ∈ cells, '\n' ∉ cell
  not_separator : ¬Line.isSeparator (Line.ofCells cells)

namespace WrittenRow

/-- The line of a row. -/
def line (row : WrittenRow) : Text := Line.ofCells row.cells

/-- The separator behind a header: a group of dashes for each of its cells. -/
def separator (row : WrittenRow) : Text := Line.ofCells (row.cells.map fun _ => "---".toList)

/-- The lines of a table with this row as its header. -/
def tableLines (header : WrittenRow) (rows : List WrittenRow) : List Text :=
  header.line :: header.separator :: rows.map line

theorem line_ne_nil (row : WrittenRow) : row.line ≠ [] := List.cons_ne_nil _ _

theorem separator_ne_nil (row : WrittenRow) : row.separator ≠ [] := List.cons_ne_nil _ _

theorem isLine_line (row : WrittenRow) : row.line.IsLine :=
  Line.isLine_ofCells row.nonempty row.no_newline

theorem dashes_ne_nil (row : WrittenRow) : (row.cells.map fun _ => "---".toList) ≠ [] := by
  simpa using row.nonempty

theorem isLine_separator (row : WrittenRow) : row.separator.IsLine :=
  Line.isLine_ofCells row.dashes_ne_nil (List.forall_mem_map.2 fun _ _ => by decide)

theorem isSeparator_separator (row : WrittenRow) : Line.isSeparator row.separator :=
  Line.isSeparator_ofCells row.dashes_ne_nil (List.forall_mem_map.2 fun _ _ => by simp)

theorem isLine_of_mem_tableLines {header : WrittenRow} {rows : List WrittenRow} :
    ∀ line ∈ tableLines header rows, line.IsLine ∧ line ≠ [] := by
  simp only [tableLines, List.forall_mem_cons, List.forall_mem_map]
  exact ⟨⟨header.isLine_line, header.line_ne_nil⟩,
    ⟨header.isLine_separator, header.separator_ne_nil⟩,
    fun row _ => ⟨row.isLine_line, row.line_ne_nil⟩⟩

/-! ## Reading rows -/

theorem read_line (row : WrittenRow) {c : Context} (hc : c = .idle ∨ c = .table)
    (behind : Option Text) :
    c.read row.line behind = .row ⟨row.cells, behind.any Line.isSeparator⟩ := by
  have hstart := Line.trimStart_ofCells row.cells
  have hfence : Line.openingFence? row.line = none :=
    Line.openingFence?_of_trimStart hstart (by decide)
  have hcode : Line.indentedCode? row.line = none := Line.indentedCode?_of_head (by decide)
  have hquote : Line.quote? row.line = none := Line.quote?_of_trimStart hstart (by decide)
  have hsep : Line.isSeparator row.line = false := Bool.eq_false_iff.2 row.not_separator
  have hcells : Line.cells row.line = row.cells :=
    Line.cells_ofCells row.nonempty row.trimmed row.no_pipe
  have hrow (tableOpen : Bool) : Line.isTableRow row.line tableOpen :=
    Line.isTableRow_ofCells row.nonempty tableOpen
  have hplain : ¬c.TakesAsCode row.line := by
    rcases hc with rfl | rfl <;> simp [Context.TakesAsCode, hcode]
  rw [Context.read_eq_ofLine hfence hplain, Reading.ofLine, hquote]
  simp [hrow, hsep, hcells]

theorem read_separator (row : WrittenRow) (behind : Option Text) :
    Context.table.read row.separator behind = .separator :=
  Context.read_table_eq_separator_iff.2
    ⟨row.isSeparator_separator, Line.indentedCode?_of_head (by decide)⟩

theorem next_line (row : WrittenRow) {c : Context} (hc : c = .idle ∨ c = .table) :
    c.next row.line = .table := by
  rw [Context.next, read_line row hc]
  rfl

/-- The lines of rows in an open table. -/
theorem classifyFrom_rows (rows : List WrittenRow) (count : Nat) :
    classifyFrom .table count (rows.map line) =
      rows.mapIdx (fun i row => ⟨count + i + 1, .tableRow ⟨row.cells, false⟩⟩) ++
        [⟨count + rows.length, .tableEnd⟩] := by
  induction rows generalizing count with
  | nil => rfl
  | cons row rest ih =>
    have hbehind : (rest.map line).head?.any Line.isSeparator = false := by
      cases rest with
      | nil => rfl
      | cons row' rest => exact Bool.eq_false_iff.2 row'.not_separator
    rw [List.map_cons, classifyFrom_cons, read_line row (.inr rfl), next_line row (.inr rfl),
      hbehind, ih, List.mapIdx_cons, List.length_cons]
    simp only [Context.step, Context.entering, if_true, List.nil_append, List.map_cons,
      List.map_nil, List.cons_append, Nat.add_zero, Nat.add_assoc, Nat.add_comm 1]

/-- The lines of a table, read from the start. -/
theorem classifyFrom_tableLines (header : WrittenRow) (rows : List WrittenRow) :
    classifyFrom .idle 0 (header.tableLines rows) =
      ⟨1, .tableStart⟩ :: ⟨1, .tableRow ⟨header.cells, true⟩⟩ ::
        (rows.mapIdx (fun i row => ⟨i + 3, .tableRow ⟨row.cells, false⟩⟩) ++
          [⟨rows.length + 2, .tableEnd⟩]) := by
  have hbehind : (header.separator :: rows.map line).head?.any Line.isSeparator = true :=
    header.isSeparator_separator
  have hnext : Context.table.next header.separator = .table := by
    rw [Context.next, header.read_separator]
    rfl
  rw [tableLines, classifyFrom_cons, header.read_line (.inl rfl), header.next_line (.inl rfl),
    hbehind, classifyFrom_cons, header.read_separator, hnext, classifyFrom_rows]
  simp [Context.step, Context.entering, Context.closing, Nat.add_comm 2]

end WrittenRow

/-- **Written tables.** The lines of a header row, a separator and rows of data are read as the
start of a table, the header, one row for each row of data, and the end of the table, all rows with
their cells. The document is one table of these rows, with the paragraph of each cell. -/
theorem written_table {header : WrittenRow} {rows : List WrittenRow} {markdown : Text}
    (h : markdown = unlines (header.tableLines rows) ∨
      markdown = terminate (header.tableLines rows)) :
    classify markdown =
        ⟨1, .tableStart⟩ :: ⟨1, .tableRow ⟨header.cells, true⟩⟩ ::
          (rows.mapIdx (fun i row => ⟨i + 3, .tableRow ⟨row.cells, false⟩⟩) ++
            [⟨rows.length + 2, .tableEnd⟩]) ∧
      (Document.ofMarkdown markdown).content =
        [.container .table ((header :: rows).map fun row => .container .tableRow
          (row.cells.map fun cell => .container .tableCell [Node.paragraphOfLine cell]))] := by
  have hlines : markdown.lines = header.tableLines rows := by
    rcases h with rfl | rfl
    · exact lines_unlines WrittenRow.isLine_of_mem_tableLines
    · exact lines_terminate fun line hline => (WrittenRow.isLine_of_mem_tableLines line hline).1
  have hclassify := header.classifyFrom_tableLines rows
  rw [← hlines, ← classify] at hclassify
  have hblock : (classify markdown).map NumberedEvent.event =
      (Block.table ⟨header.cells, true⟩ (rows.map fun row => ⟨row.cells, false⟩)).events := by
    have hrows :
        (rows.mapIdx fun i row => (⟨i + 3, .tableRow ⟨row.cells, false⟩⟩ : NumberedEvent)).map
            NumberedEvent.event =
          rows.map fun row => .tableRow ⟨row.cells, false⟩ :=
      List.ext_getElem (by simp) (by simp)
    simp [hclassify, Block.events, hrows, Function.comp_def]
  refine ⟨hclassify, ?_⟩
  have hnodes := OpenBlock.blocks_events_append
    (.table ⟨header.cells, true⟩ (rows.map fun row => ⟨row.cells, false⟩)) []
  rw [List.append_nil, ← hblock] at hnodes
  refine hnodes.trans ?_
  simp [Block.nodes, TableRow.node, OpenBlock.blocks, OpenBlock.nodes]

/-- An empty cell, and cells that would start other constructs on their own. -/
theorem written_table_of_markup :
    let cells : List (List Text) :=
      [[[], "**a**".toList], ["> b".toList, "```".toList], ["# c".toList]]
    (∀ row ∈ cells, ¬Line.isSeparator (Line.ofCells row)) ∧
      classify "|  | **a** |\n| --- | --- |\n| > b | ``` |\n| # c |\n".toList =
        [⟨1, .tableStart⟩, ⟨1, .tableRow ⟨[[], "**a**".toList], true⟩⟩,
          ⟨3, .tableRow ⟨["> b".toList, "```".toList], false⟩⟩,
          ⟨4, .tableRow ⟨["# c".toList], false⟩⟩, ⟨4, .tableEnd⟩] ∧
      (Document.ofMarkdown "|  | **a** |\n| --- | --- |\n| > b | ``` |\n| # c |\n".toList).content =
        [.container .table (cells.map fun row => .container .tableRow
          (row.map fun cell => .container .tableCell [Node.paragraphOfLine cell]))] := by
  intro cells
  have hcells : ∀ row ∈ cells, ¬Line.isSeparator (Line.ofCells row) := by decide
  have hwritten := @written_table
    ⟨_, by decide, by decide, by decide, by decide, hcells [[], "**a**".toList] (by simp [cells])⟩
    [⟨_, by decide, by decide, by decide, by decide,
        hcells ["> b".toList, "```".toList] (by simp [cells])⟩,
      ⟨_, by decide, by decide, by decide, by decide, hcells ["# c".toList] (by simp [cells])⟩]
    _ (.inr rfl)
  exact ⟨hcells, hwritten⟩

end TicketMarkup
