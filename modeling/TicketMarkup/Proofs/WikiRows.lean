import TicketMarkup.Proofs.TableRows
import TicketMarkup.Wiki

/-!
# Rows in wiki markup

`ofTableRow_eq_iff`: two rows of Markdown texts have the same line in wiki markup only if they are
the same row, or one of them is a header and the other shows the header's cells between empty ones:
the double pipes of a header can be read as empty cells.

1. A header has the line of the row that is no header and has its cells spread out
   (`ofTableRow_eq`).
2. No cell has a pipe (`pipe_not_mem_of_mem_cells`), so the cells of a row that is no header are read
   back from its line.
-/

namespace TicketMarkup

open Text

/-- The cells with an empty one in front of each and at the end. -/
def spread (cells : List Text) : List Text := cells.flatMap ([[], ·]) ++ [[]]

theorem spread_injective : Function.Injective spread := by
  intro cells
  induction cells with
  | nil =>
    rintro (_ | ⟨cell, rest⟩) h
    · rfl
    · simp [spread] at h
  | cons cell cells ih =>
    rintro (_ | ⟨cell', cells'⟩) h
    · simp [spread] at h
    · obtain ⟨rfl, hrest⟩ : cell = cell' ∧ spread cells = spread cells' := by simpa [spread] using h
      rw [ih hrest]

theorem spread_ne_nil (cells : List Text) : spread cells ≠ [] := by simp [spread]

theorem eq_nil_or_mem_of_mem_spread {cells : List Text} {cell : Text} (h : cell ∈ spread cells) :
    cell = [] ∨ cell ∈ cells := by
  rcases List.mem_append.1 h with h | h
  · obtain ⟨cell', hcell', h⟩ := List.mem_flatMap.1 h
    rcases List.mem_cons.1 h with h | h
    · exact .inl h
    · exact .inr (List.mem_singleton.1 h ▸ hcell')
  · exact .inl (List.mem_singleton.1 h)

/-- Cells between double pipes are spread-out cells between single ones. -/
theorem join_spread {cells : List Text} (hne : cells ≠ []) :
    join ['|'] (spread cells) = '|' :: join ['|', '|'] cells ++ ['|'] := by
  induction cells with
  | nil => exact absurd rfl hne
  | cons cell rest ih =>
    by_cases hrest : rest = []
    · rw [hrest]
      simp [spread, join]
    · calc join ['|'] (spread (cell :: rest))
          = [] ++ ['|'] ++ (cell ++ ['|'] ++ join ['|'] (spread rest)) := by
            rw [← join_cons _ cell (spread_ne_nil rest),
              ← join_cons _ [] (List.cons_ne_nil cell (spread rest))]
            rfl
        _ = '|' :: (cell ++ ['|', '|'] ++ join ['|', '|'] rest) ++ ['|'] := by
            rw [ih hrest]
            simp
        _ = '|' :: join ['|', '|'] (cell :: rest) ++ ['|'] := by rw [join_cons _ cell hrest]

namespace TableRow

/-- The cells of the row that has the same line in wiki markup and is no header. -/
def plainCells (row : TableRow) : List Text := if row.header then spread row.cells else row.cells

/-- The other row is no header and has the cells of this header spread out. -/
def SpreadsTo (row other : TableRow) : Prop :=
  row.header = true ∧ other.header = false ∧ other.cells = spread row.cells

/-- A row that can be read: it has cells, and no pipe in any of them. -/
structure IsCut (row : TableRow) : Prop where
  nonempty : row.cells ≠ []
  no_pipe : ∀ cell ∈ row.cells, '|' ∉ cell

variable {row other : TableRow}

theorem ofTableRow_eq (h : row.cells ≠ []) :
    Wiki.ofTableRow row = '|' :: join ['|'] row.plainCells ++ ['|'] := by
  unfold Wiki.ofTableRow plainCells
  by_cases hheader : row.header
  · simp [hheader, join_spread h]
  · simp [hheader]

theorem IsCut.plainCells (h : row.IsCut) :
    row.plainCells ≠ [] ∧ ∀ cell ∈ row.plainCells, '|' ∉ cell := by
  unfold TableRow.plainCells
  split_ifs
  · refine ⟨spread_ne_nil _, fun cell hcell => ?_⟩
    rcases eq_nil_or_mem_of_mem_spread hcell with rfl | hcell
    · exact List.not_mem_nil
    · exact h.no_pipe cell hcell
  · exact ⟨h.nonempty, h.no_pipe⟩

/-- Rows have the same line if they have the same cells once headers are spread out. -/
theorem ofTableRow_eq_iff_plainCells (h : row.IsCut) (h' : other.IsCut) :
    Wiki.ofTableRow row = Wiki.ofTableRow other ↔ row.plainCells = other.plainCells := by
  rw [ofTableRow_eq h.nonempty, ofTableRow_eq h'.nonempty]
  constructor
  · intro heq
    have hjoin : join ['|'] row.plainCells = join ['|'] other.plainCells := by simpa using heq
    rw [← splitOn_join h.plainCells.1 h.plainCells.2, hjoin,
      splitOn_join h'.plainCells.1 h'.plainCells.2]
  · intro heq
    rw [heq]

theorem plainCells_eq_iff :
    row.plainCells = other.plainCells ↔
      row = other ∨ row.SpreadsTo other ∨ other.SpreadsTo row := by
  obtain ⟨cells, header⟩ := row
  obtain ⟨cells', header'⟩ := other
  cases header <;> cases header' <;>
    simp [plainCells, SpreadsTo, spread_injective.eq_iff, eq_comm]

end TableRow

theorem Line.pipe_not_mem_of_mem_cells {line cell : Text} (h : cell ∈ cells line) : '|' ∉ cell := by
  simp only [cells, List.mem_map] at h
  obtain ⟨piece, hpiece, rfl⟩ := h
  exact fun hmem => not_mem_of_mem_splitOn hpiece ((trim_isInfix piece).subset hmem)

theorem isCut_of_mem_classify {markdown : Text} {number : Nat} {row : TableRow}
    (h : ⟨number, .tableRow row⟩ ∈ classify markdown) : row.IsCut := by
  obtain ⟨i, hi, -, rfl, -⟩ := exists_line_of_mem_classify h
  exact ⟨(Line.liesIn_cells _ true).1, fun cell => Line.pipe_not_mem_of_mem_cells⟩

/-- **Rows in wiki markup.** Rows of Markdown texts have the same line exactly if they are equal, or
one is a header and the other, which is none, has the cells of the header with an empty cell in front
of each and at the end. -/
theorem ofTableRow_eq_iff {markdown markdown' : Text} {number number' : Nat} {row row' : TableRow}
    (h : ⟨number, .tableRow row⟩ ∈ classify markdown)
    (h' : ⟨number', .tableRow row'⟩ ∈ classify markdown') :
    Wiki.ofTableRow row = Wiki.ofTableRow row' ↔
      row = row' ∨ row.SpreadsTo row' ∨ row'.SpreadsTo row := by
  rw [TableRow.ofTableRow_eq_iff_plainCells (isCut_of_mem_classify h) (isCut_of_mem_classify h')]
  exact TableRow.plainCells_eq_iff

/-- A header of two columns, and a row that is none and shows the same line. -/
theorem ofTableRow_eq_iff_two_columns :
    ⟨1, .tableRow ⟨[['a'], ['b']], true⟩⟩ ∈ classify "| a | b |\n|-|-|\n||a||b||".toList ∧
      ⟨3, .tableRow ⟨[[], ['a'], [], ['b'], []], false⟩⟩ ∈
        classify "| a | b |\n|-|-|\n||a||b||".toList ∧
      Wiki.ofTableRow ⟨[['a'], ['b']], true⟩ =
        Wiki.ofTableRow ⟨[[], ['a'], [], ['b'], []], false⟩ := by
  have h : ⟨1, .tableRow ⟨[['a'], ['b']], true⟩⟩ ∈
      classify "| a | b |\n|-|-|\n||a||b||".toList := by decide
  have h' : ⟨3, .tableRow ⟨[[], ['a'], [], ['b'], []], false⟩⟩ ∈
      classify "| a | b |\n|-|-|\n||a||b||".toList := by decide
  exact ⟨h, h', (ofTableRow_eq_iff h h').2 (.inr (.inl ⟨rfl, rfl, rfl⟩))⟩

/-- A header of one column and a row of three columns with the same line. -/
theorem ofTableRow_not_injective :
    ⟨1, .tableRow ⟨[['a']], true⟩⟩ ∈ classify "| a |\n|-|\n||a||".toList ∧
      ⟨3, .tableRow ⟨[[], ['a'], []], false⟩⟩ ∈ classify "| a |\n|-|\n||a||".toList ∧
      Wiki.ofTableRow ⟨[['a']], true⟩ = Wiki.ofTableRow ⟨[[], ['a'], []], false⟩ := by
  decide

end TicketMarkup
