import TicketMarkup.Block.Classify
import Mathlib.Data.List.Chain
import Mathlib.Data.List.ReduceOption
import Mathlib.Logic.Function.Basic

/-!
# The grammar of block events

`existsUnique_blocks`: the events of a Markdown text are those of a sequence of complete blocks,
in exactly one way.

1. A `Block` is a line of its own, or a construct of several lines with its start and its end; a
   `ListRun` carries the law of its depths.
2. `Context.Completes c events` says that `events` finish what is open in the context `c` and go on
   with complete blocks. Each reading of a line leaves a context whose completions, with the
   events of the line in front, complete the context before it (`completes_step`).
3. No block is a proper beginning of another (`events_append_inj`), so the blocks are unique.
-/

namespace TicketMarkup

/-! ## Blocks -/

/-- The depths of two items in a row: the second is at most one level deeper than the first, and
never deeper than `maxListDepth`. -/
def Deepens (depth next : Nat) : Prop := 1 ≤ next ∧ next ≤ depth + 1 ∧ next ≤ maxListDepth

/-- A run of list items, blank lines (`none`) between or after them included. -/
structure ListRun where
  first : ListItem
  rest : List (Option ListItem)
  depth_first : first.depth = 1
  deepens : ((first :: rest.reduceOption).map ListItem.depth).IsChain Deepens

/-- The event of a line in a list run. -/
def ListRun.lineEvent : Option ListItem → Event
  | some item => .listItem item
  | none => .blank

/-- The items of a run. -/
def ListRun.items (run : ListRun) : List ListItem := run.first :: run.rest.reduceOption

/-- A complete block. Quotes and tables have at least one line, the rest of which stands apart. -/
inductive Block
  | blank
  | leaf (leaf : Leaf)
  | code (language : Option Text) (lines : List Text)
  | quote (first : Text) (rest : List Text)
  | table (first : TableRow) (rest : List TableRow)
  | list (run : ListRun)

/-- The events of a block. -/
def Block.events : Block → List Event
  | blank => [.blank]
  | leaf l => [.leaf l]
  | code language lines => .codeStart language :: (lines.map .codeLine ++ [.codeEnd])
  | quote first rest => .quoteStart :: ((first :: rest).map .quoteLine ++ [.quoteEnd])
  | table first rest => .tableStart :: ((first :: rest).map .tableRow ++ [.tableEnd])
  | list run => .listItem run.first :: (run.rest.map ListRun.lineEvent ++ [.listEnd])

/-! ## Completing a context -/

/-- The events of complete blocks, and nothing else. -/
def Complete (events : List Event) : Prop :=
  ∃ blocks : List Block, events = blocks.flatMap Block.events

/-- The events finish the block that is open in a context and go on with complete blocks. -/
def Context.Completes : Context → List Event → Prop
  | idle, events => Complete events
  | list depth, events =>
    ∃ (lines : List (Option ListItem)) (rest : List Event),
      (depth :: lines.reduceOption.map ListItem.depth).IsChain Deepens ∧ Complete rest ∧
        events = lines.map ListRun.lineEvent ++ .listEnd :: rest
  | fenced, events | indented, events =>
    ∃ (lines : List Text) (rest : List Event), Complete rest ∧
      events = lines.map .codeLine ++ .codeEnd :: rest
  | quoted, events =>
    ∃ (lines : List Text) (rest : List Event), Complete rest ∧
      events = lines.map .quoteLine ++ .quoteEnd :: rest
  | table, events =>
    ∃ (rows : List TableRow) (rest : List Event), Complete rest ∧
      events = rows.map .tableRow ++ .tableEnd :: rest

variable {events : List Event}

theorem complete_nil : Complete [] := ⟨[], rfl⟩

theorem Complete.cons (b : Block) (h : Complete events) : Complete (b.events ++ events) := by
  obtain ⟨blocks, rfl⟩ := h
  exact ⟨b :: blocks, rfl⟩

namespace Context

/-- Closing the open block and going on outside blocks. -/
theorem completes_closing_append (c : Context) (h : Complete events) :
    c.Completes (c.closing ++ events) := by
  cases c with
  | idle => exact h
  | list depth => exact ⟨[], events, List.isChain_singleton depth, h, rfl⟩
  | fenced | indented | quoted | table => exact ⟨[], events, h, rfl⟩

theorem completes_codeLine (text : Text) {c : Context} (hc : c = fenced ∨ c = indented)
    (h : c.Completes events) : c.Completes (.codeLine text :: events) := by
  rcases hc with rfl | rfl <;>
  · obtain ⟨lines, rest, hrest, rfl⟩ := h
    exact ⟨text :: lines, rest, hrest, rfl⟩

theorem complete_codeStart (language : Option Text) {c : Context} (hc : c = fenced ∨ c = indented)
    (h : c.Completes events) : Complete (.codeStart language :: events) := by
  rcases hc with rfl | rfl <;>
  · obtain ⟨lines, rest, hrest, rfl⟩ := h
    simpa [Block.events] using hrest.cons (.code language lines)

theorem completes_quoteLine (text : Text) (h : quoted.Completes events) :
    quoted.Completes (.quoteLine text :: events) := by
  obtain ⟨lines, rest, hrest, rfl⟩ := h
  exact ⟨text :: lines, rest, hrest, rfl⟩

theorem complete_quoteStart (text : Text) (h : quoted.Completes events) :
    Complete (.quoteStart :: .quoteLine text :: events) := by
  obtain ⟨lines, rest, hrest, rfl⟩ := h
  simpa [Block.events] using hrest.cons (.quote text lines)

theorem completes_tableRow (row : TableRow) (h : table.Completes events) :
    table.Completes (.tableRow row :: events) := by
  obtain ⟨rows, rest, hrest, rfl⟩ := h
  exact ⟨row :: rows, rest, hrest, rfl⟩

theorem complete_tableStart (row : TableRow) (h : table.Completes events) :
    Complete (.tableStart :: .tableRow row :: events) := by
  obtain ⟨rows, rest, hrest, rfl⟩ := h
  simpa [Block.events] using hrest.cons (.table row rows)

/-- A list run is open, and a blank line or a further item goes on with it. -/
theorem completes_listBlank {depth : Nat} (h : (list depth).Completes events) :
    (list depth).Completes (.blank :: events) := by
  obtain ⟨lines, rest, hchain, hrest, rfl⟩ := h
  exact ⟨none :: lines, rest, hchain, hrest, rfl⟩

theorem completes_listItem {depth : Nat} {item : ListItem} (hd : Deepens depth item.depth)
    (h : (list item.depth).Completes events) :
    (list depth).Completes (.listItem item :: events) := by
  obtain ⟨lines, rest, hchain, hrest, rfl⟩ := h
  exact ⟨some item :: lines, rest, List.isChain_cons_cons.2 ⟨hd, hchain⟩, hrest, rfl⟩

theorem complete_listItem {item : ListItem} (hd : item.depth = 1)
    (h : (list item.depth).Completes events) : Complete (.listItem item :: events) := by
  obtain ⟨lines, rest, hchain, hrest, rfl⟩ := h
  simpa [Block.events] using hrest.cons (.list ⟨item, lines, hd, hchain⟩)

/-! ## Steps -/

/-- Entering a construct that the events complete, unless it is open already. -/
theorem completes_entering (c target : Context) {start : Event} (h : target.Completes events)
    (hstart : Complete (start :: events)) : c.Completes (c.entering target start ++ events) := by
  unfold entering
  split_ifs with hc
  · exact hc ▸ h
  · rw [List.append_assoc]
    exact c.completes_closing_append hstart

theorem deepens_itemDepth (c : Context) (indent : Nat) :
    Deepens c.listDepth (c.itemDepth indent) := by
  unfold Deepens itemDepth maxListDepth listIndent
  omega

theorem itemDepth_of_listDepth {c : Context} (h : c.listDepth = 0) (indent : Nat) :
    c.itemDepth indent = 1 := by
  have := c.deepens_itemDepth indent
  unfold Deepens at this
  omega

/-- A line is code of a fence only inside the fence. -/
theorem eq_fenced_of_read {c : Context} {line text : Text} {next : Option Text}
    (h : c.read line next = .fencedCode text) : c = fenced := by
  by_contra hc
  unfold read Reading.ofLine Reading.ofPlainLine at h
  rw [if_neg hc] at h
  repeat' split at h
  all_goals exact absurd h (by simp)

/-- What completes the context after a line, with the events of the line in front, completes the
context before it. -/
theorem completes_step (c : Context) (line : Text) (next : Option Text)
    (h : (c.step (c.read line next)).2.Completes events) :
    c.Completes ((c.step (c.read line next)).1 ++ events) := by
  have hfenced : ∀ text, c.read line next = .fencedCode text → c = fenced :=
    fun _ => eq_fenced_of_read
  generalize c.read line next = reading at h hfenced
  cases reading with
  | openingFence language =>
    rw [step, List.append_assoc]
    exact c.completes_closing_append (complete_codeStart language (.inl rfl) h)
  | closingFence => exact c.completes_closing_append h
  | fencedCode text =>
    obtain rfl := hfenced text rfl
    exact completes_codeLine text (.inl rfl) h
  | indentedCode text =>
    rw [step, List.append_assoc]
    have hline := completes_codeLine text (.inr rfl) h
    exact c.completes_entering indented hline (complete_codeStart none (.inr rfl) hline)
  | quote text =>
    rw [step, List.append_assoc]
    exact c.completes_entering quoted (completes_quoteLine text h) (complete_quoteStart text h)
  | separator =>
    rw [step] at h ⊢
    split_ifs at h ⊢ with hc
    · exact c.completes_closing_append h
    · exact h
  | row row =>
    rw [step, List.append_assoc]
    exact c.completes_entering table (completes_tableRow row h) (complete_tableStart row h)
  | blank =>
    unfold step at h ⊢
    cases c with
    | list depth => exact completes_listBlank h
    | _ => exact completes_closing_append _ (h.cons .blank)
  | item indent ordered text =>
    unfold step at h ⊢
    cases c with
    | list depth => exact completes_listItem (deepens_itemDepth _ _) h
    | _ =>
      rw [List.append_assoc]
      exact completes_closing_append _ (complete_listItem (itemDepth_of_listDepth rfl _) h)
  | leaf leaf =>
    rw [step, List.append_assoc]
    exact c.completes_closing_append (h.cons (.leaf leaf))

end Context

/-- The events of lines complete the context in which they are read. -/
theorem completes_classifyFrom (c : Context) (count : Nat) (lines : List Text) :
    c.Completes ((classifyFrom c count lines).map NumberedEvent.event) := by
  induction lines generalizing c count with
  | nil => simpa [classifyFrom, Function.comp_def] using c.completes_closing_append complete_nil
  | cons line rest ih =>
    rw [classifyFrom, List.map_append, List.map_map]
    have := c.completes_step line rest.head? (ih _ (count + 1))
    simpa [Function.comp_def] using this

/-! ## Unique blocks -/

/-- Lines up to the event that ends them are read off a stream in one way. -/
theorem map_append_cons_inj {α : Type} {f : α → Event} (hf : f.Injective) {last : Event}
    (hlast : ∀ a, f a ≠ last) {xs ys : List α} {rest rest' : List Event}
    (h : xs.map f ++ last :: rest = ys.map f ++ last :: rest') : xs = ys ∧ rest = rest' := by
  induction xs generalizing ys with
  | nil =>
    cases ys with
    | nil => exact ⟨rfl, List.tail_eq_of_cons_eq h⟩
    | cons y ys => exact absurd (List.head_eq_of_cons_eq h).symm (hlast y)
  | cons x xs ih =>
    cases ys with
    | nil => exact absurd (List.head_eq_of_cons_eq h) (hlast x)
    | cons y ys =>
      obtain ⟨hxy, htail⟩ := List.cons_eq_cons.1 h
      obtain ⟨rfl, hrest⟩ := ih htail
      exact ⟨by rw [hf hxy], hrest⟩

theorem lineEvent_injective : ListRun.lineEvent.Injective := by
  intro a b h
  cases a <;> cases b <;> simp_all [ListRun.lineEvent]

theorem lineEvent_ne_listEnd (line : Option ListItem) : ListRun.lineEvent line ≠ .listEnd := by
  cases line <;> simp [ListRun.lineEvent]

/-- The first block of a stream of complete blocks is read off it in one way. -/
theorem events_append_inj {b b' : Block} {rest rest' : List Event}
    (h : b.events ++ rest = b'.events ++ rest') : b = b' ∧ rest = rest' := by
  cases b with
  | blank =>
    cases b' with
    | blank => exact ⟨rfl, List.tail_eq_of_cons_eq h⟩
    | _ => simp [Block.events] at h
  | leaf l =>
    cases b' with
    | leaf l' =>
      obtain ⟨hl, hrest⟩ := List.cons_eq_cons.1 h
      exact ⟨by rw [Event.leaf.inj hl], hrest⟩
    | _ => simp [Block.events] at h
  | code language lines =>
    cases b' with
    | code language' lines' =>
      simp only [Block.events, List.cons_append, List.append_assoc, List.cons_eq_cons] at h
      obtain ⟨hlines, hrest⟩ :=
        map_append_cons_inj (fun _ _ => Event.codeLine.inj) (fun _ => by simp) h.2
      exact ⟨by rw [Event.codeStart.inj h.1, hlines], hrest⟩
    | _ => simp [Block.events] at h
  | quote first lines =>
    cases b' with
    | quote first' lines' =>
      simp only [Block.events, List.cons_append, List.append_assoc, List.cons_eq_cons] at h
      obtain ⟨hlines, hrest⟩ :=
        map_append_cons_inj (fun _ _ => Event.quoteLine.inj) (fun _ => by simp) h.2
      rw [List.cons_eq_cons] at hlines
      exact ⟨by rw [hlines.1, hlines.2], hrest⟩
    | _ => simp [Block.events] at h
  | table first rows =>
    cases b' with
    | table first' rows' =>
      simp only [Block.events, List.cons_append, List.append_assoc, List.cons_eq_cons] at h
      obtain ⟨hrows, hrest⟩ :=
        map_append_cons_inj (fun _ _ => Event.tableRow.inj) (fun _ => by simp) h.2
      rw [List.cons_eq_cons] at hrows
      exact ⟨by rw [hrows.1, hrows.2], hrest⟩
    | _ => simp [Block.events] at h
  | list run =>
    cases b' with
    | list run' =>
      obtain ⟨first, lines, _, _⟩ := run
      obtain ⟨first', lines', _, _⟩ := run'
      simp only [Block.events, List.cons_append, List.append_assoc, List.cons_eq_cons] at h
      obtain ⟨rfl, hrest⟩ :=
        map_append_cons_inj lineEvent_injective lineEvent_ne_listEnd h.2
      obtain rfl := Event.listItem.inj h.1
      exact ⟨rfl, hrest⟩
    | _ => simp [Block.events] at h

theorem events_ne_nil (b : Block) : b.events ≠ [] := by
  cases b <;> simp [Block.events]

theorem flatMap_events_injective {blocks blocks' : List Block}
    (h : blocks.flatMap Block.events = blocks'.flatMap Block.events) : blocks = blocks' := by
  induction blocks generalizing blocks' with
  | nil =>
    cases blocks' with
    | nil => rfl
    | cons b rest => exact absurd (List.append_eq_nil_iff.1 h.symm).1 (events_ne_nil b)
  | cons b rest ih =>
    cases blocks' with
    | nil => exact absurd (List.append_eq_nil_iff.1 h).1 (events_ne_nil b)
    | cons b' rest' =>
      rw [List.flatMap_cons, List.flatMap_cons] at h
      obtain ⟨rfl, hrest⟩ := events_append_inj h
      rw [ih hrest]

/-- The events of a Markdown text are complete blocks. -/
theorem complete_classify (markdown : Text) :
    Complete ((classify markdown).map NumberedEvent.event) :=
  completes_classifyFrom .idle 0 markdown.lines

/-- **Complete blocks.** The events of a Markdown text are those of a sequence of complete blocks,
and of one such sequence only. -/
theorem existsUnique_blocks (markdown : Text) :
    ∃! blocks : List Block,
      (classify markdown).map NumberedEvent.event = blocks.flatMap Block.events := by
  obtain ⟨blocks, h⟩ := complete_classify markdown
  exact ⟨blocks, h, fun _ h' => flatMap_events_injective (h'.symm.trans h)⟩

end TicketMarkup
