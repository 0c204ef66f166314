import TicketMarkup.Block.Classify
import TicketMarkup.Proofs.TextParts

/-!
# The texts of events

Every text that an event carries is a contiguous part of the line that gave rise to it
(`liesIn_step`), so no text has a line feed (`exists_liesIn_of_mem_classify`). The levels of
headings, the texts of headings and the cells of rows keep the bounds that the forms of lines give
them.
-/

namespace TicketMarkup

open Text

/-! ## What lies in a line -/

/-- The texts of a block lie in a line; a heading has a level from one to six, and its text does
not end in a blank. -/
def Leaf.LiesIn (line : Text) : Leaf → Prop
  | paragraph t => t <:+: line
  | heading level t => t <:+: line ∧ EndsUnblank t ∧ 1 ≤ level ∧ level ≤ 6
  | rule => True
  | image r => r.label <:+: line ∧ r.target <:+: line ∧ ∀ t ∈ r.title, t <:+: line

/-- The cells of a row lie in a line; there is one at least, and none ends in a blank. -/
def TableRow.LiesIn (line : Text) (row : TableRow) : Prop :=
  row.cells ≠ [] ∧ ∀ cell ∈ row.cells, cell <:+: line ∧ EndsUnblank cell

/-- The texts of a reading lie in the line that is read. -/
def Reading.LiesIn (line : Text) : Reading → Prop
  | fencedCode t | indentedCode t | quote t | item _ _ t => t <:+: line
  | row r => r.LiesIn line
  | leaf l => l.LiesIn line
  | openingFence _ | closingFence | separator | blank => True

/-- The texts of an event lie in a line. -/
def Event.LiesIn (line : Text) : Event → Prop
  | leaf l => l.LiesIn line
  | listItem item => item.text <:+: line ∧ ∀ task ∈ item.task, task.body <:+: line
  | codeLine t | quoteLine t => t <:+: line
  | tableRow row => row.LiesIn line
  | blank | listEnd | codeStart _ | codeEnd | quoteStart | quoteEnd | tableStart | tableEnd => True

/-! ## The forms of a line -/

namespace Line

variable {line text : Text}

theorem indentedCode?_isInfix (h : indentedCode? line = some text) : text <:+: line := by
  unfold indentedCode? at h
  split_ifs at h
  split at h
  · obtain rfl := Option.some.inj h
    exact (List.suffix_append [' ', ' ', ' ', ' '] _).isInfix
  · obtain rfl := Option.some.inj h
    exact (List.suffix_cons '\t' _).isInfix
  · simp at h

theorem quote?_isInfix (h : quote? line = some text) : text <:+: line := by
  refine List.IsInfix.trans ?_ (trimStart_isSuffix line).isInfix
  unfold quote? at h
  split at h
  · next c rest heq =>
    rw [heq]
    split at h <;> obtain rfl := Option.some.inj h
    · exact (List.suffix_append ['>', c] rest).isInfix
    · exact (List.suffix_cons '>' _).isInfix
  · obtain rfl := Option.some.inj h
    exact List.nil_infix
  · simp at h

theorem liesIn_cells (line : Text) (header : Bool) :
    (TableRow.mk (cells line) header).LiesIn line := by
  refine ⟨by simp [cells, splitOn_ne_nil], ?_⟩
  intro cell hcell
  simp only [cells, List.mem_map] at hcell
  obtain ⟨piece, hpiece, rfl⟩ := hcell
  refine ⟨?_, endsUnblank_trim piece⟩
  have hstripped := infix_of_mem_splitOn hpiece |>.trans (dropSuffix_isPrefix _ _).isInfix
  refine (trim_isInfix piece).trans (hstripped.trans (List.IsInfix.trans ?_ (trim_isInfix line)))
  split_ifs
  · exact (List.tail_suffix _).isInfix
  · exact List.infix_rfl

theorem headingText_isInfix (t : Text) : headingText t <:+: t := by
  simp only [headingText]
  split_ifs
  · refine (trimEnd_isPrefix _).isInfix.trans ?_
    exact (dropEndWhile_isPrefix _ _).isInfix.trans (trim_isInfix t)
  · exact trim_isInfix t

theorem endsUnblank_headingText (t : Text) : EndsUnblank (headingText t) := by
  simp only [headingText]
  split_ifs
  · exact endsUnblank_trimEnd _
  · exact endsUnblank_trim t

theorem liesIn_heading {level : Nat} (h : heading? line = some (level, text)) :
    (Leaf.heading level text).LiesIn line := by
  simp only [heading?] at h
  split_ifs at h with hlevel
  obtain ⟨rfl, rfl⟩ := Prod.mk.inj (Option.some.inj h)
  refine ⟨(headingText_isInfix _).trans ?_, endsUnblank_headingText _, hlevel.1, hlevel.2.1⟩
  exact ((List.dropWhile_suffix _).trans (trimStart_isSuffix line)).isInfix

theorem marker?_isSuffix {t rest : Text} {ordered : Bool} (h : marker? t = some (ordered, rest)) :
    rest <:+ t := by
  unfold marker? at h
  split at h
  · next c t =>
    split_ifs at h
    · obtain ⟨-, rfl⟩ := Prod.mk.inj (Option.some.inj h)
      exact List.suffix_cons c t
    · split at h
      · next u hu =>
        obtain ⟨-, rfl⟩ := Prod.mk.inj (Option.some.inj h)
        have hdropped : '.' :: u <:+ t := hu ▸ List.dropWhile_suffix _
        exact (List.suffix_cons '.' u).trans (hdropped.trans (List.suffix_cons c t))
      · simp at h
  · simp at h

theorem listItem?_isInfix {indent : Text} {ordered : Bool}
    (h : listItem? line = some (indent, ordered, text)) : text <:+: line := by
  unfold listItem? at h
  split at h
  · next rest hmarker =>
    split_ifs at h
    obtain ⟨-, -, rfl⟩ := by simpa using h
    exact ((trimStart_isSuffix rest).trans
      ((marker?_isSuffix hmarker).trans (trimStart_isSuffix line))).isInfix
  · simp at h

theorem task?_isInfix {task : Task} (h : task? text = some task) : task.body <:+: text := by
  unfold task? at h
  split at h
  · next mark rest =>
    split_ifs at h
    obtain rfl := Option.some.inj h
    exact ((trimStart_isSuffix rest).trans (List.suffix_append ['[', mark, ']'] rest)).isInfix
  · simp at h

/-- The parts of a reference lie in its spelling. -/
theorem liesIn_spelling (s : Reference.Spelling) : (Leaf.image s.reference).LiesIn s.text := by
  obtain ⟨label, lead, target, title, space⟩ := s
  simp only [Leaf.LiesIn, Reference.Spelling.reference, Reference.Spelling.text]
  refine ⟨⟨['['], _, by simp; rfl⟩, ⟨'[' :: label ++ ']' :: '(' :: lead, _, rfl⟩, ?_⟩
  intro t ht
  obtain ⟨⟨gap, _⟩, rfl, rfl⟩ := Option.map_eq_some_iff.1 ht
  exact ⟨'[' :: label ++ ']' :: '(' :: lead ++ target ++ gap ++ ['"'], '"' :: space ++ [')'],
    by simp [Reference.Ending.text]⟩

theorem liesIn_image {r : Reference} (h : image? line = some r) : (Leaf.image r).LiesIn line := by
  unfold image? at h
  split at h
  · next t heq =>
    split at h
    · next s hs =>
      split_ifs at h
      obtain rfl := Option.some.inj h
      have hpart : s.text <:+: line := (Reference.read?_isPrefix hs).isInfix.trans
        ((heq ▸ List.suffix_cons '!' t).isInfix.trans (trimStart_isSuffix line).isInfix)
      obtain ⟨hlabel, htarget, htitle⟩ := liesIn_spelling s
      exact ⟨hlabel.trans hpart, htarget.trans hpart, fun u hu => (htitle u hu).trans hpart⟩
    · simp at h
  · simp at h

end Line

/-! ## Readings and events -/

variable {line : Text}

theorem liesIn_ofPlainLine (line : Text) : (Reading.ofPlainLine line).LiesIn line := by
  unfold Reading.ofPlainLine
  split
  · trivial
  · split
    · next h => exact Line.liesIn_heading h
    · split
      · trivial
      · split
        · next h => exact Line.listItem?_isInfix h
        · split
          · next h => exact Line.liesIn_image h
          · exact (trimStart_isSuffix line).isInfix

theorem liesIn_ofLine (tableOpen : Bool) (line : Text) (next : Option Text) :
    (Reading.ofLine tableOpen line next).LiesIn line := by
  unfold Reading.ofLine
  split
  · next h => exact Line.quote?_isInfix h
  · split_ifs
    · trivial
    · exact Line.liesIn_cells line _
    · exact liesIn_ofPlainLine line

theorem liesIn_read (c : Context) (line : Text) (next : Option Text) :
    (c.read line next).LiesIn line := by
  unfold Context.read
  split
  · split
    · trivial
    · exact List.infix_rfl
  · split
    · trivial
    · split
      · next h =>
        split
        · exact liesIn_ofLine false line next
        · exact Line.indentedCode?_isInfix h
      · exact liesIn_ofLine _ line next

theorem liesIn_closing (c : Context) (line : Text) : ∀ e ∈ c.closing, e.LiesIn line := by
  cases c <;> simp [Context.closing, Event.LiesIn]

theorem liesIn_entering (c target : Context) {start : Event} (h : start.LiesIn line) :
    ∀ e ∈ c.entering target start, e.LiesIn line := by
  unfold Context.entering
  split_ifs
  · simp
  · intro e he
    rcases List.mem_append.1 he with he | he
    · exact liesIn_closing c line e he
    · exact List.mem_singleton.1 he ▸ h

theorem liesIn_item (c : Context) (indent : Nat) (ordered : Bool) {text : Text}
    (h : text <:+: line) : (Event.listItem (c.item indent ordered text)).LiesIn line := by
  refine ⟨h, ?_⟩
  intro task htask
  simp only [Context.item] at htask
  split_ifs at htask
  · simp at htask
  · exact (Line.task?_isInfix htask).trans h

/-- The events of a reading lie in the line that is read. -/
theorem liesIn_step (c : Context) {r : Reading} (h : r.LiesIn line) :
    ∀ e ∈ (c.step r).1, e.LiesIn line := by
  have hclosing := liesIn_closing c line
  cases r with
  | openingFence language =>
    exact List.forall_mem_append.2 ⟨hclosing, List.forall_mem_singleton.2 trivial⟩
  | closingFence => exact hclosing
  | fencedCode text => exact List.forall_mem_singleton.2 h
  | indentedCode text | quote text =>
    exact List.forall_mem_append.2
      ⟨liesIn_entering c _ trivial, List.forall_mem_singleton.2 h⟩
  | separator =>
    rw [Context.step]
    split_ifs
    · exact hclosing
    · simp
  | row row =>
    exact List.forall_mem_append.2
      ⟨liesIn_entering c _ trivial, List.forall_mem_singleton.2 h⟩
  | blank =>
    rw [Context.step]
    split_ifs
    · exact List.forall_mem_singleton.2 trivial
    · exact List.forall_mem_append.2 ⟨hclosing, List.forall_mem_singleton.2 trivial⟩
  | item indent ordered text =>
    refine List.forall_mem_append.2 ⟨?_, List.forall_mem_singleton.2 (liesIn_item c _ _ h)⟩
    split_ifs
    · simp
    · exact hclosing
  | leaf leaf => exact List.forall_mem_append.2 ⟨hclosing, List.forall_mem_singleton.2 h⟩

theorem exists_liesIn_of_mem_classifyFrom {c : Context} {count : Nat} {lines : List Text}
    {e : NumberedEvent} (he : e ∈ classifyFrom c count lines)
    (hlines : ∀ line ∈ lines, '\n' ∉ line) : ∃ line, '\n' ∉ line ∧ e.event.LiesIn line := by
  induction lines generalizing c count with
  | nil =>
    obtain ⟨event, hevent, rfl⟩ := List.mem_map.1 he
    exact ⟨[], by simp, liesIn_closing c [] event hevent⟩
  | cons line rest ih =>
    rw [classifyFrom] at he
    rcases List.mem_append.1 he with he | he
    · obtain ⟨event, hevent, rfl⟩ := List.mem_map.1 he
      exact ⟨line, hlines line (List.mem_cons_self ..),
        liesIn_step c (liesIn_read c line rest.head?) event hevent⟩
    · exact ih he fun l hl => hlines l (List.mem_cons_of_mem _ hl)

/-- Every event of a Markdown text lies in a text without line feeds. -/
theorem exists_liesIn_of_mem_classify {markdown : Text} {e : NumberedEvent}
    (he : e ∈ classify markdown) : ∃ line, '\n' ∉ line ∧ e.event.LiesIn line :=
  exists_liesIn_of_mem_classifyFrom he fun _ => newline_not_mem_of_mem_lines

end TicketMarkup
