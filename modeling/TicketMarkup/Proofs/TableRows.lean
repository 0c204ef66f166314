import TicketMarkup.Proofs.SourceLines

/-!
# Rows of tables

`isHeader_iff`: a row is a header exactly if the next line has the form of a separator. That line is
then taken as the separator of the table, and has no event, unless it is indented like code: code
comes before tables, so such a line ends the table.

1. A row is the reading of its line, with a look at the form of the line behind it
   (`exists_line_of_mem_classify`).
2. A table is open behind the row. There a line has no event of its own exactly if it has the form
   of a separator and is not indented like code (`read_table_eq_separator_iff`).
-/

namespace TicketMarkup

/-! ## The line of a row -/

theorem Reading.ofPlainLine_ne_row (line : Text) (row : TableRow) : ofPlainLine line ≠ .row row := by
  unfold ofPlainLine
  repeat' split
  all_goals simp

theorem Reading.eq_of_ofLine_eq_row {tableOpen : Bool} {line : Text} {behind : Option Text}
    {row : TableRow} (h : ofLine tableOpen line behind = .row row) :
    row = ⟨Line.cells line, behind.any Line.isSeparator⟩ := by
  unfold ofLine at h
  split at h
  · simp at h
  · split_ifs at h
    · exact (Reading.row.inj h).symm
    · exact absurd h (ofPlainLine_ne_row line row)

namespace Context

variable {c : Context} {line : Text} {behind : Option Text}

/-- A row has the cells of its line, and is a header if the next line looks like a separator. -/
theorem eq_of_read_eq_row {row : TableRow} (h : c.read line behind = .row row) :
    row = ⟨Line.cells line, behind.any Line.isSeparator⟩ := by
  rcases c.read_cases line behind with ⟨-, hread⟩ | ⟨-, tag, -, hread⟩ | ⟨-, -, -, code, hread⟩ |
    ⟨-, -, hread⟩
  · rw [hread] at h
    split_ifs at h
  · simp [hread] at h
  · simp [hread] at h
  · exact Reading.eq_of_ofLine_eq_row (hread ▸ h)

/-- Only the reading of a row gives a row. -/
theorem eq_row_of_own? {r : Reading} {row : TableRow} (h : c.own? r = some (.tableRow row)) :
    r = .row row := by
  cases r <;> simp_all [own?]

end Context

section

variable {markdown : Text} {number : Nat} {row : TableRow}

/-- A row of a Markdown text comes from the line with its number, and leaves a table open. -/
theorem exists_line_of_mem_classify (h : ⟨number, .tableRow row⟩ ∈ classify markdown) :
    ∃ i, ∃ hi : i < markdown.lines.length, number = i + 1 ∧
      row = ⟨Line.cells markdown.lines[i], markdown.lines[i + 1]?.any Line.isSeparator⟩ ∧
      Context.idle.after (markdown.lines.take (i + 1)) = .table := by
  obtain ⟨i, hi, rfl, hown⟩ := exists_read_of_mem_classify h rfl
  generalize hc : Context.idle.after (markdown.lines.take i) = c at hown
  have hread := Context.eq_row_of_own? hown
  refine ⟨i, hi, rfl, Context.eq_of_read_eq_row hread, ?_⟩
  rw [Context.after_take_succ _ hi, hc, ← c.step_read_snd _ markdown.lines[i + 1]?, hread]
  rfl

end

/-! ## The line behind a row -/

theorem Line.pipe_mem_of_isSeparator {line : Text} (h : isSeparator line) : '|' ∈ line := by
  simp only [isSeparator, Bool.and_eq_true, List.contains_iff_mem] at h
  exact (Text.trim_isInfix line).subset h.1.1

namespace Context

variable {line : Text} {behind : Option Text}

theorem takesAsCode_table : table.TakesAsCode line ↔ (Line.indentedCode? line).isSome := by
  simp [TakesAsCode, inList]

/-- In a table, a line is the separator if it looks like one and is not indented like code. -/
theorem read_table_eq_separator_iff : table.read line behind = .separator ↔
    Line.isSeparator line ∧ Line.indentedCode? line = none := by
  have hrow (hsep : Line.isSeparator line) : Line.isTableRow line true := by
    simp [Line.isTableRow, Line.pipe_mem_of_isSeparator hsep]
  rw [read_eq_separator_iff, SkipsSeparator, takesAsCode_table, Option.not_isSome_iff_eq_none]
  exact ⟨fun h => ⟨h.1, h.2.2⟩, fun h => ⟨h.1, hrow h.1, h.2⟩⟩

/-- A line that looks like a separator is code if it is indented like code. -/
theorem read_table_of_indentedCode {code : Text} (hsep : Line.isSeparator line)
    (hcode : Line.indentedCode? line = some code) :
    table.read line behind = .indentedCode code := by
  have hfence := Line.openingFence?_of_isSeparator hsep
  simp [read, hfence, hcode, inList]

/-- Any other line than the separator has an event that does not only end the table. -/
theorem exists_mem_step_table {r : Reading} (hsep : r ≠ .separator) (hclose : r ≠ .closingFence) :
    ∃ e ∈ (table.step r).1, e ≠ .tableEnd := by
  cases r with
  | separator => exact absurd rfl hsep
  | closingFence => exact absurd rfl hclose
  | fencedCode text => exact ⟨.codeLine text, List.mem_singleton_self _, by simp⟩
  | _ => exact ⟨_, List.mem_append_right _ (List.mem_singleton_self _), by simp⟩

end Context

/-- The line with a number is passed over as the separator of an open table: it has no event, the
end of the table at the end of the text aside. -/
def PassedOver (markdown : Text) (number : Nat) : Prop :=
  number ≤ markdown.lines.length ∧
    (eventsOn number (classify markdown) = [] ∨
      number = markdown.lines.length ∧ eventsOn number (classify markdown) = [.tableEnd])

instance (markdown : Text) (number : Nat) : Decidable (PassedOver markdown number) := by
  unfold PassedOver
  infer_instance

section

variable {markdown : Text} {i : Nat}

/-- The events of a line that is read while a table is open, with what is closed at the end of the
text. -/
theorem eventsOn_of_table (hi : i < markdown.lines.length)
    (htable : Context.idle.after (markdown.lines.take i) = .table) {r : Reading}
    (hread : Context.table.read markdown.lines[i] markdown.lines[i + 1]? = r) :
    eventsOn (i + 1) (classify markdown) =
      (Context.table.step r).1 ++
        if i + 1 = markdown.lines.length then (Context.table.step r).2.closing else [] := by
  have hevents := eventsOn_classifyFrom .idle 0 hi
  rw [Nat.zero_add, htable, hread] at hevents
  rw [classify, hevents]
  by_cases hlast : i + 1 = markdown.lines.length
  · have hafter := Context.idle.after_take_succ hi
    rw [hlast, List.take_length, htable, ← Context.step_read_snd _ _ markdown.lines[i + 1]?,
      hread] at hafter
    rw [hafter]
  · rw [if_neg hlast, if_neg hlast]

theorem passedOver_iff (hi : i < markdown.lines.length)
    (htable : Context.idle.after (markdown.lines.take i) = .table) :
    PassedOver markdown (i + 1) ↔
      Line.isSeparator markdown.lines[i] ∧ Line.indentedCode? markdown.lines[i] = none := by
  rw [← @Context.read_table_eq_separator_iff _ markdown.lines[i + 1]?]
  generalize hread : Context.table.read markdown.lines[i] markdown.lines[i + 1]? = r
  have hevents := eventsOn_of_table hi htable hread
  constructor
  · rintro ⟨-, hpassed⟩
    by_contra hsep
    have hclose : r ≠ .closingFence := by
      rintro rfl
      simpa using Context.eq_fenced_of_read_closingFence hread
    obtain ⟨e, he, hne⟩ := Context.exists_mem_step_table hsep hclose
    have hmem : e ∈ eventsOn (i + 1) (classify markdown) := hevents ▸ List.mem_append_left _ he
    rcases hpassed with hnil | ⟨-, hend⟩
    · simp [hnil] at hmem
    · rw [hend] at hmem
      exact hne (List.mem_singleton.1 hmem)
  · rintro rfl
    refine ⟨hi, ?_⟩
    rw [hevents]
    by_cases hlast : i + 1 = markdown.lines.length
    · exact .inr ⟨hlast, by simp [Context.step, Context.closing, hlast]⟩
    · exact .inl (by simp [Context.step, hlast])

end

/-- **Header rows.** A row is a header exactly if the next line looks like a separator. The next line
is then passed over as the separator of the table, unless it is indented like code: it ends the
table then and is a line of code. -/
theorem isHeader_iff {markdown : Text} {number : Nat} {row : TableRow}
    (h : ⟨number, .tableRow row⟩ ∈ classify markdown) :
    (row.header = true ↔ ∃ line, markdown.lines[number]? = some line ∧ Line.isSeparator line) ∧
      (PassedOver markdown (number + 1) ↔ row.header = true ∧
        ∀ line, markdown.lines[number]? = some line → Line.indentedCode? line = none) ∧
      ∀ line code, markdown.lines[number]? = some line → row.header = true →
        Line.indentedCode? line = some code →
          eventsOn (number + 1) (classify markdown) =
            [.tableEnd, .codeStart none, .codeLine code] ++
              if number + 1 = markdown.lines.length then [.codeEnd] else [] := by
  obtain ⟨i, -, rfl, rfl, htable⟩ := exists_line_of_mem_classify h
  refine ⟨by simp [Option.any_eq_true], ?_, ?_⟩
  · by_cases hi : i + 1 < markdown.lines.length
    · rw [passedOver_iff hi htable]
      simp [List.getElem?_eq_getElem hi]
    · have hnone : markdown.lines[i + 1]? = none := List.getElem?_eq_none (Nat.le_of_not_lt hi)
      have hlast : ¬i + 1 + 1 ≤ markdown.lines.length := hi
      simp [PassedOver, hnone, hlast]
  · intro line code hline hheader hcode
    obtain ⟨hi, rfl⟩ := List.getElem?_eq_some_iff.1 hline
    have hsep : Line.isSeparator markdown.lines[i + 1] := by simpa [hline] using hheader
    exact eventsOn_of_table hi htable (Context.read_table_of_indentedCode hsep hcode)

/-- A header row and the separator behind it, which is indented by less than code is. -/
theorem isHeader_iff_two_columns :
    ⟨1, .tableRow ⟨[['a'], ['b']], true⟩⟩ ∈ classify "| a | b |\n  :-: | -\n c |".toList ∧
      PassedOver "| a | b |\n  :-: | -\n c |".toList 2 := by
  have h : ⟨1, .tableRow ⟨[['a'], ['b']], true⟩⟩ ∈
      classify "| a | b |\n  :-: | -\n c |".toList := by decide
  refine ⟨h, (isHeader_iff h).2.1.2 ⟨rfl, fun line hline => ?_⟩⟩
  obtain rfl := Option.some.inj hline
  decide

/-- The next line looks like a separator and makes the row a header, but it is code. -/
theorem isHeader_of_indented_separator :
    ⟨1, .tableRow ⟨[['a']], true⟩⟩ ∈ classify "| a |
    |-|".toList ∧
      ¬PassedOver "| a |
    |-|".toList 2 := by
  decide

end TicketMarkup
