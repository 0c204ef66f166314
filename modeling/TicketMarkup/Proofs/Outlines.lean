import TicketMarkup.Proofs.BlockGrammar
import TicketMarkup.Proofs.SourceLines
import Mathlib.Data.List.TakeWhile

/-!
# Outlines

`classify_unlines_outline`: any outline, that is a sequence of items of which each is at most one
level deeper than the one before it, can be written with one line for each item, and reading the
lines gives the items back.

1. Behind its indentation the line of an item starts with a marker, so it is no fence, quote, table
   row or heading, and it is a list item with the text of the item (`listItem?_line`).
2. Only an item below the first level is indented, and then a list is open, so the line is not taken
   as code (`not_takesAsCode_line`).
3. The indentation gives the item its depth again, for the item is at most one level deeper than the
   list that is open (`itemDepth_of_deepens`).
-/

namespace TicketMarkup

open Text

/-! ## Lines behind their indentation -/

namespace Line

variable {line : Text} {c : Char} {rest : Text}

theorem isTableRow_of_trimStart (h : line.trimStart = c :: rest) (hc : c ≠ '|') :
    isTableRow line false = false := by
  have hhead : line.trim.head? ≠ some '|' := by
    intro hpipe
    have hprefix := trimEnd_isPrefix line.trimStart
    rw [← trim, h] at hprefix
    cases htrim : line.trim with
    | nil => simp [htrim] at hpipe
    | cons c' rest' =>
      rw [htrim] at hpipe hprefix
      exact hc ((List.cons_prefix_cons.1 hprefix).1.symm.trans (Option.some.inj hpipe))
  simp [isTableRow, hhead]

theorem heading?_of_trimStart (h : line.trimStart = c :: rest) (hc : c ≠ '#') :
    heading? line = none := by
  simp [heading?, h, hc]

theorem isBlank_of_trimStart (h : line.trimStart = c :: rest) : line.isBlank = false := by
  rw [← Bool.not_eq_true]
  intro hblank
  rw [trimStart_of_isBlank hblank] at h
  exact absurd h (List.cons_ne_nil c rest).symm

theorem indentedCode?_of_head (h : ¬isBlank c) : indentedCode? (c :: rest) = none := by
  unfold indentedCode?
  split_ifs
  · rfl
  · split
    · next heq =>
      obtain ⟨rfl, -⟩ := List.cons.inj heq
      exact absurd (by decide) h
    · next heq =>
      obtain ⟨rfl, -⟩ := List.cons.inj heq
      exact absurd (by decide) h
    · rfl

theorem indentWidth_replicate (n : Nat) : indentWidth (List.replicate n ' ') = n := by
  induction n with
  | zero => rfl
  | succ n ih =>
    rw [List.replicate_succ, indentWidth, ih, if_neg (by decide), Nat.add_comm]

end Line

/-! ## Items of outlines -/

/-- An item of an outline. -/
structure OutlineItem where
  depth : Nat
  ordered : Bool
  text : Text
  deriving Repr, DecidableEq

namespace OutlineItem

/-- The marker of an item; numbers are not counted up. -/
def marker (item : OutlineItem) : Text := if item.ordered then ['1', '.'] else ['-']

/-- The line of an item: two spaces for each level above its own, its marker, a space, its text. -/
def line (item : OutlineItem) : Text :=
  List.replicate (2 * (item.depth - 1)) ' ' ++ (item.marker ++ ' ' :: item.text)

/-- The item as it is read; only items without numbers have checkboxes. -/
def listItem (item : OutlineItem) : ListItem :=
  ⟨item.depth, item.ordered, item.text, if item.ordered then none else Line.task? item.text⟩

/-- The text of the item can stand behind its marker: it lies in one line, does not start with a
blank, and does not make a rule of the line. -/
structure IsWritable (item : OutlineItem) : Prop where
  isLine : item.text.IsLine
  head_unblank : ∀ c ∈ item.text.head?, ¬TicketMarkup.isBlank c
  not_rule : ¬Line.isRule item.line

instance : DecidablePred IsWritable := fun item =>
  decidable_of_iff
    (item.text.IsLine ∧ item.text.head?.all (!TicketMarkup.isBlank ·) ∧ ¬Line.isRule item.line)
    ⟨fun h => ⟨h.1, by simpa [Option.all_eq_true] using h.2.1, h.2.2⟩,
      fun h => ⟨h.isLine, by simpa [Option.all_eq_true] using h.head_unblank, h.not_rule⟩⟩

variable {item : OutlineItem}

/-- A marker starts with a character that starts no other construct. -/
theorem exists_marker_eq_cons (item : OutlineItem) :
    ∃ c rest, item.marker = c :: rest ∧ ¬TicketMarkup.isBlank c ∧
      c ≠ '`' ∧ c ≠ '>' ∧ c ≠ '|' ∧ c ≠ '#' := by
  unfold marker
  split_ifs
  · exact ⟨'1', ['.'], rfl, by decide⟩
  · exact ⟨'-', [], rfl, by decide⟩

theorem isBlank_of_mem_indent {n : Nat} : ∀ c ∈ List.replicate n ' ', TicketMarkup.isBlank c := by
  intro c hc
  rw [List.eq_of_mem_replicate hc]
  decide

theorem trimStart_line (item : OutlineItem) :
    item.line.trimStart = item.marker ++ ' ' :: item.text := by
  obtain ⟨c, rest, hmarker, hunblank, -⟩ := item.exists_marker_eq_cons
  rw [line, trimStart, hmarker]
  exact dropWhile_append_cons isBlank_of_mem_indent hunblank _

theorem takeWhile_line (item : OutlineItem) :
    item.line.takeWhile TicketMarkup.isBlank = List.replicate (2 * (item.depth - 1)) ' ' := by
  obtain ⟨c, rest, hmarker, hunblank, -⟩ := item.exists_marker_eq_cons
  rw [line, hmarker]
  exact takeWhile_append_cons isBlank_of_mem_indent hunblank _

theorem marker?_marker_append (item : OutlineItem) (t : Text) :
    Line.marker? (item.marker ++ ' ' :: t) = some (item.ordered, ' ' :: t) := by
  unfold marker
  cases item.ordered with
  | true =>
    have hdot : ¬isDigit '.' := by decide
    have hone : isDigit '1' := by decide
    simp [Line.marker?, hdot, hone]
  | false => simp [Line.marker?]

/-- The line of an item is a list item with its text. -/
theorem listItem?_line (h : item.IsWritable) :
    Line.listItem? item.line =
      some (List.replicate (2 * (item.depth - 1)) ' ', item.ordered, item.text) := by
  have htext : trimStart (' ' :: item.text) = item.text := by
    rw [trimStart, List.dropWhile_cons_of_pos (by decide)]
    exact trimStart_of_head_unblank h.head_unblank
  have hblank : (' ' :: item.text).head?.any TicketMarkup.isBlank := by
    rw [List.head?_cons, Option.any_some]
    decide
  rw [Line.listItem?, trimStart_line, marker?_marker_append]
  simp only [hblank, if_true, takeWhile_line, htext]

theorem exists_trimStart_line_eq_cons (item : OutlineItem) :
    ∃ c rest, item.line.trimStart = c :: rest ∧ c ≠ '`' ∧ c ≠ '>' ∧ c ≠ '|' ∧ c ≠ '#' := by
  obtain ⟨c, rest, hmarker, -, hc⟩ := item.exists_marker_eq_cons
  exact ⟨c, rest ++ ' ' :: item.text, by rw [trimStart_line, hmarker, List.cons_append], hc⟩

theorem openingFence?_line (item : OutlineItem) : Line.openingFence? item.line = none := by
  obtain ⟨c, rest, hstart, htick, -⟩ := item.exists_trimStart_line_eq_cons
  exact Line.openingFence?_of_trimStart hstart htick

/-- Without a table around it, the line of an item is read as the item. -/
theorem ofLine_line (h : item.IsWritable) (behind : Option Text) :
    Reading.ofLine false item.line behind =
      .item (2 * (item.depth - 1)) item.ordered item.text := by
  obtain ⟨c, rest, hstart, -, hquote, hpipe, hhash⟩ := item.exists_trimStart_line_eq_cons
  simp [Reading.ofLine, Reading.ofPlainLine, Line.quote?_of_trimStart hstart hquote,
    Line.isTableRow_of_trimStart hstart hpipe, Line.isBlank_of_trimStart hstart,
    Line.heading?_of_trimStart hstart hhash, h.not_rule, listItem?_line h,
    Line.indentWidth_replicate]

/-! ## Reading items -/

section

variable {c : Context}

/-- Outside lists stand items of the first level only, whose lines are not indented. -/
theorem not_takesAsCode_line (h : item.IsWritable) (hc : c = .idle ∨ c.inList)
    (hdepth : Deepens c.listDepth item.depth) : ¬c.TakesAsCode item.line := by
  rintro (rfl | ⟨hcode, hlist⟩)
  · simp [Context.inList] at hc
  · rcases hc with rfl | hc
    · have hnext : item.depth ≤ 0 + 1 := hdepth.2.1
      have hone : item.depth - 1 = 0 := by omega
      obtain ⟨m, rest, hmarker, hunblank, -⟩ := item.exists_marker_eq_cons
      have hline : item.line = m :: (rest ++ ' ' :: item.text) := by
        rw [line, hone, hmarker]
        rfl
      rw [hline, Line.indentedCode?_of_head hunblank] at hcode
      simp at hcode
    · exact hlist ⟨hc, by rw [listItem?_line h]; rfl⟩

theorem read_line (h : item.IsWritable) (hc : c = .idle ∨ c.inList)
    (hdepth : Deepens c.listDepth item.depth) (behind : Option Text) :
    c.read item.line behind = .item (2 * (item.depth - 1)) item.ordered item.text := by
  have hcode := not_takesAsCode_line h hc hdepth
  have htable : c ≠ .table := by
    rintro rfl
    simp [Context.inList] at hc
  rw [Context.read_eq_ofLine item.openingFence?_line hcode, decide_eq_false htable, ofLine_line h]

/-- The indentation of a line is as deep as the item. -/
theorem itemDepth_of_deepens {depth : Nat} (h : Deepens c.listDepth depth) :
    c.itemDepth (2 * (depth - 1)) = depth := by
  obtain ⟨hpos, hnext, hmax⟩ := h
  unfold Context.itemDepth listIndent
  omega

theorem step_read_line (h : item.IsWritable) (hc : c = .idle ∨ c.inList)
    (hdepth : Deepens c.listDepth item.depth) (behind : Option Text) :
    c.step (c.read item.line behind) = ([.listItem item.listItem], .list item.depth) := by
  have hitem : c.item (2 * (item.depth - 1)) item.ordered item.text = item.listItem := by
    rw [Context.item, itemDepth_of_deepens hdepth, listItem]
  have hclosing : (if c.inList then [] else c.closing) = [] := by
    rcases hc with rfl | hc
    · rfl
    · exact if_pos hc
  rw [read_line h hc hdepth, Context.step, hitem, hclosing]
  rfl

theorem classifyFrom_line_cons (h : item.IsWritable) (hc : c = .idle ∨ c.inList)
    (hdepth : Deepens c.listDepth item.depth) (count : Nat) (rest : List Text) :
    classifyFrom c count (item.line :: rest) =
      ⟨count + 1, .listItem item.listItem⟩ :: classifyFrom (.list item.depth) (count + 1) rest := by
  rw [classifyFrom_cons, Context.next, step_read_line h hc hdepth, step_read_line h hc hdepth]
  rfl

end

/-- The lines of items that go on with a list. -/
theorem classifyFrom_list {items : List OutlineItem} {depth : Nat}
    (hdepths : (depth :: items.map OutlineItem.depth).IsChain Deepens)
    (hitems : ∀ item ∈ items, item.IsWritable) (count : Nat) :
    classifyFrom (.list depth) count (items.map line) =
      items.mapIdx (fun i item => ⟨count + i + 1, .listItem item.listItem⟩) ++
        [⟨count + items.length, .listEnd⟩] := by
  induction items generalizing depth count with
  | nil => rfl
  | cons item rest ih =>
    rw [List.map_cons, List.isChain_cons_cons] at hdepths
    rw [List.forall_mem_cons] at hitems
    rw [List.map_cons, classifyFrom_line_cons (c := .list depth) hitems.1 (.inr rfl) hdepths.1,
      ih hdepths.2 hitems.2, List.mapIdx_cons, List.length_cons]
    simp only [Nat.add_zero, Nat.add_assoc, Nat.add_comm 1, List.cons_append]

theorem isLine_line (h : item.IsWritable) : item.line.IsLine := by
  have hfront : '\n' ∉ List.replicate (2 * (item.depth - 1)) ' ' ++ item.marker := by
    rw [List.mem_append, not_or, marker]
    refine ⟨fun hmem => absurd (List.eq_of_mem_replicate hmem) (by decide), ?_⟩
    split_ifs <;> decide
  rw [line, ← List.append_assoc]
  exact isLine_append hfront h.isLine

theorem line_ne_nil (item : OutlineItem) : item.line ≠ [] := by simp [line]

end OutlineItem

/-- Items of an outline: the first is on the first level, each other at most one level deeper than
the one before it, and all can be written in a line. -/
structure IsOutline (items : List OutlineItem) : Prop where
  nonempty : items ≠ []
  deepens : (0 :: items.map OutlineItem.depth).IsChain Deepens
  writable : ∀ item ∈ items, item.IsWritable

/-- **Outlines.** The lines of an outline are read as one list item for each item of the outline, with
its depth, kind and text, and then the end of the list. -/
theorem classify_unlines_outline {items : List OutlineItem} (h : IsOutline items) :
    classify (unlines (items.map OutlineItem.line)) =
      items.mapIdx (fun i item => ⟨i + 1, .listItem item.listItem⟩) ++
        [⟨items.length, .listEnd⟩] := by
  have hlines : ∀ line ∈ items.map OutlineItem.line, line.IsLine ∧ line ≠ [] :=
    List.forall_mem_map.2 fun item hitem =>
      ⟨OutlineItem.isLine_line (h.writable item hitem), item.line_ne_nil⟩
  rw [classify, lines_unlines hlines]
  cases items with
  | nil => exact absurd rfl h.nonempty
  | cons item rest =>
    obtain ⟨-, hdepths, hitems⟩ := h
    rw [List.map_cons, List.isChain_cons_cons] at hdepths
    rw [List.forall_mem_cons] at hitems
    rw [List.map_cons, OutlineItem.classifyFrom_line_cons hitems.1 (.inl rfl) hdepths.1,
      OutlineItem.classifyFrom_list hdepths.2 hitems.2, List.mapIdx_cons, List.length_cons]
    simp only [Nat.zero_add, Nat.add_comm 1, List.cons_append]

/-- Three levels of items, with texts that would be a heading or a row on their own. -/
theorem classify_unlines_outline_three_levels :
    IsOutline [⟨1, false, "[x] a".toList⟩, ⟨2, true, "# b".toList⟩, ⟨3, false, []⟩,
        ⟨3, true, "| c |".toList⟩, ⟨1, true, "- d".toList⟩] ∧
      classify "- [x] a\n  1. # b\n    - \n    1. | c |\n1. - d".toList =
        [⟨1, .listItem ⟨1, false, "[x] a".toList, some ⟨true, ['a']⟩⟩⟩,
          ⟨2, .listItem ⟨2, true, "# b".toList, none⟩⟩, ⟨3, .listItem ⟨3, false, [], none⟩⟩,
          ⟨4, .listItem ⟨3, true, "| c |".toList, none⟩⟩,
          ⟨5, .listItem ⟨1, true, "- d".toList, none⟩⟩, ⟨5, .listEnd⟩] := by
  have h : IsOutline [⟨1, false, "[x] a".toList⟩, ⟨2, true, "# b".toList⟩, ⟨3, false, []⟩,
      ⟨3, true, "| c |".toList⟩, ⟨1, true, "- d".toList⟩] := by
    refine ⟨List.cons_ne_nil _ _, ?_, by decide⟩
    simp [Deepens, maxListDepth]
  exact ⟨h, classify_unlines_outline h⟩

end TicketMarkup
