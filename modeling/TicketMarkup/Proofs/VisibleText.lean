import TicketMarkup.Proofs.BlockTranslation
import TicketMarkup.Proofs.SourceLines
import TicketMarkup.Proofs.Tiling
import TicketMarkup.Wiki

/-!
# Visible text

`ofMarkdown_eq_nil_iff`: the document of a Markdown text has no content exactly if every line is
`Hidden`, that is blank or a separator row on its own, and only then can the wiki markup be empty.

1. No run is an empty text, so the wiki markup of a line that is not empty is not empty
   (`Wiki.ofInline_ne_nil`).
2. Where nothing is open, a line that is not hidden has an event with a visible line in wiki markup
   (`exists_visible_step`); hidden lines leave nothing open and have blank events only
   (`events_of_hidden`).
3. A block has no nodes only if it is a blank line (`Block.nodes_eq_nil_iff`), and then it has no
   event with a visible line either.
-/

namespace TicketMarkup

open Text

/-- Texts under a separator that is not empty join to nothing only if there is no text, or one that
is empty. -/
theorem Text.join_eq_nil_iff {sep : Text} (hsep : sep ≠ []) {ls : List Text} :
    join sep ls = [] ↔ ls = [] ∨ ls = [[]] := by
  rcases ls with _ | ⟨t, _ | ⟨u, rest⟩⟩
  · simp [join]
  · simp [join]
  · simp [join, hsep]

/-! ## Inline markup -/

namespace Wiki

theorem ofRuns_consChar (c : Char) (runs : List Run) :
    ofRuns (Run.consChar c runs) = c :: ofRuns runs := by
  rcases runs with _ | ⟨run, rest⟩
  · rfl
  · cases run <;> rfl

theorem ofRuns_append (front back : List Run) :
    ofRuns (front ++ back) = ofRuns front ++ ofRuns back := by
  induction front with
  | nil => rfl
  | cons run rest ih => rw [List.cons_append, ofRuns, ih, ofRuns, List.append_assoc]

theorem ofRuns_consPiece_ne_nil (piece : Piece) (inner rest : List Run) :
    ofRuns (Run.consPiece piece inner rest) ≠ [] := by
  cases piece with
  | literal c | escaped c => simp [Run.consPiece, ofRuns_consChar]
  | delimited d t => cases d <;> simp [Run.consPiece, Delimiter.run, ofRuns, ofRun]
  | code ticks t => simp [Run.consPiece, ofRuns, ofRun]
  | reference kind spelling =>
    cases kind
    · by_cases hlabel : spelling.reference.label = [] <;>
        simp [Run.consPiece, ReferenceKind.run, ofRuns, ofRun, hlabel]
    · simp [Run.consPiece, ReferenceKind.run, ofRuns, ofRun]

theorem ofRuns_ofText_ne_nil {t : Text} (h : t ≠ []) : ofRuns (Run.ofText t) ≠ [] := by
  rw [Run.ofText_eq]
  cases hpieces : pieces t with
  | nil => exact absurd hpieces (pieces_ne_nil h)
  | cons piece rest => exact ofRuns_consPiece_ne_nil piece _ _

theorem ofInline_ne_nil {line : Text} (h : line ≠ []) : ofInline line ≠ [] := by
  unfold ofInline Run.ofLine
  split_ifs
  · simp [ofRuns_append, ofRuns, ofRun]
  · exact ofRuns_ofText_ne_nil h

theorem ofListItem_ne_nil (item : ListItem) : ofListItem item ≠ [] := by
  obtain ⟨depth, ordered, text, _ | ⟨_ | _, body⟩⟩ := item <;> simp [ofListItem]

theorem ofTableRow_ne_nil (row : TableRow) : ofTableRow row ≠ [] := by
  unfold ofTableRow
  split_ifs <;> simp

end Wiki

/-! ## Lines that show nothing -/

/-- The event has a line in wiki markup that is not empty. -/
def Event.IsVisible (e : Event) : Prop := ∃ text, Wiki.ofEvent? e = some text ∧ text ≠ []

/-- The line is blank, or a separator row with a pipe at either end that is not indented as code. -/
def Hidden (line : Text) : Prop :=
  line.isBlank ∨
    Line.isSeparator line ∧ Line.isTableRow line false ∧ Line.indentedCode? line = none

/-- The hidden lines are those that are blank or passed over as separators where nothing is open. -/
theorem hidden_iff {line : Text} : Hidden line ↔ line.isBlank ∨ Context.idle.SkipsSeparator line := by
  simp [Hidden, Context.SkipsSeparator, Context.TakesAsCode, Context.inList]

theorem ne_nil_of_ofPlainLine {line text : Text}
    (h : Reading.ofPlainLine line = .leaf (.paragraph text)) : text ≠ [] := by
  unfold Reading.ofPlainLine at h
  split at h
  · simp at h
  · next hblank =>
    repeat' split at h
    all_goals try simp at h
    rintro rfl
    exact hblank (List.all_eq_true.2 (List.dropWhile_eq_nil_iff.1 h))

namespace Context

variable {c : Context} {line : Text} {behind : Option Text}

theorem ne_nil_of_read {text : Text} (h : c.read line behind = .leaf (.paragraph text)) :
    text ≠ [] := by
  rw [read_of_unclaimed (unclaimed_of_read h)] at h
  exact ne_nil_of_ofPlainLine h

/-- Where nothing is open, a line that is not hidden has a visible event. -/
theorem exists_visible_step (h : ¬Hidden line) (behind : Option Text) :
    ∃ e ∈ (idle.step (idle.read line behind)).1, e.IsVisible := by
  cases hread : idle.read line behind with
  | openingFence language => exact ⟨_, List.mem_singleton_self _, _, rfl, by simp [Wiki.tag]⟩
  | closingFence => exact absurd (eq_fenced_of_read_closingFence hread) (by simp)
  | fencedCode text => exact absurd (eq_fenced_of_read hread) (by simp)
  | indentedCode text =>
    exact ⟨.codeStart none, List.mem_cons_self .., _, rfl, by simp [Wiki.tag]⟩
  | quote text => exact ⟨.quoteStart, List.mem_cons_self .., _, rfl, by simp [Wiki.tag]⟩
  | separator => exact absurd (hidden_iff.2 (.inr (read_eq_separator_iff.1 hread))) h
  | row row =>
    exact ⟨.tableRow row, List.mem_append_right _ (List.mem_singleton_self _), _, rfl,
      Wiki.ofTableRow_ne_nil row⟩
  | blank => exact absurd (.inl (read_eq_blank_iff.1 hread).2) h
  | item indent ordered text =>
    exact ⟨.listItem (idle.item indent ordered text), List.mem_singleton_self _, _, rfl,
      Wiki.ofListItem_ne_nil _⟩
  | leaf leaf =>
    refine ⟨.leaf leaf, List.mem_singleton_self _, ?_⟩
    cases leaf with
    | paragraph text => exact ⟨_, rfl, Wiki.ofInline_ne_nil (ne_nil_of_read hread)⟩
    | heading level text => exact ⟨_, rfl, by simp⟩
    | rule => exact ⟨_, rfl, by simp⟩
    | image reference => exact ⟨_, rfl, by simp⟩

/-- Where nothing is open, a hidden line opens nothing; it has an event only if it is blank. -/
theorem step_hidden (h : Hidden line) (behind : Option Text) :
    idle.step (idle.read line behind) = (if line.isBlank then [.blank] else [], idle) := by
  by_cases hblank : line.isBlank
  · rw [read_eq_blank_iff.2 ⟨by simp, hblank⟩, if_pos hblank]
    rfl
  · rw [read_eq_separator_iff.2 ((hidden_iff.1 h).resolve_left hblank), if_neg hblank]
    rfl

theorem next_hidden (h : Hidden line) : idle.next line = idle := by
  rw [next, step_hidden h none]

theorem events_of_hidden {lines : List Text} (h : ∀ line ∈ lines, Hidden line) :
    idle.events lines = List.replicate (lines.countP Text.isBlank) .blank := by
  induction lines with
  | nil => rfl
  | cons line rest ih =>
    rw [List.forall_mem_cons] at h
    rw [events, step_hidden h.1, next_hidden h.1, ih h.2, List.countP_cons]
    by_cases hblank : line.isBlank
    · simp [hblank, List.replicate_succ]
    · simp [hblank]

theorem exists_visible_events {lines : List Text} (h : ¬∀ line ∈ lines, Hidden line) :
    ∃ e ∈ idle.events lines, e.IsVisible := by
  induction lines with
  | nil => simp at h
  | cons line rest ih =>
    rw [events]
    by_cases hline : Hidden line
    · rw [List.forall_mem_cons, not_and] at h
      obtain ⟨e, he, hvisible⟩ := ih (h hline)
      rw [next_hidden hline]
      exact ⟨e, List.mem_append_right _ he, hvisible⟩
    · obtain ⟨e, he, hvisible⟩ := exists_visible_step hline rest.head?
      exact ⟨e, List.mem_append_left _ he, hvisible⟩

end Context

/-! ## Blocks without nodes -/

theorem listsOf_ne_nil {items : List (Bool × Node)} (h : items ≠ []) : listsOf items ≠ [] := by
  simpa [listsOf] using h

/-- Blank lines are the only blocks without nodes. -/
theorem Block.nodes_eq_nil_iff (b : Block) : b.nodes = [] ↔ b = .blank := by
  cases b with
  | list run =>
    have hne : (Block.list run).nodes ≠ [] := by
      rw [nodes_eq_translation, translation, ListRun.items, OpenList.itemNodes_cons]
      exact listsOf_ne_nil (List.cons_ne_nil _ _)
    simp [hne]
  | _ => simp [nodes]

theorem Block.eq_blank_of_events {b : Block} (h : ∀ e ∈ b.events, e = .blank) : b = .blank := by
  cases b with
  | blank => rfl
  | _ => exact absurd (h _ (List.mem_cons_self ..)) (by simp)

theorem not_isVisible_blank : ¬Event.blank.IsVisible := by
  rintro ⟨text, htext, hne⟩
  exact hne (Option.some.inj htext).symm

/-! ## Texts -/

variable (markdown : Text)

theorem content_eq_nil_iff :
    (Document.ofMarkdown markdown).content = [] ↔ ∀ line ∈ markdown.lines, Hidden line := by
  obtain ⟨blocks, hevents, hcontent⟩ := exists_blocks_ofMarkdown markdown
  rw [classify, events_classifyFrom] at hevents
  rw [hcontent, List.flatMap_eq_nil_iff]
  constructor
  · intro hblocks
    by_contra hlines
    obtain ⟨e, he, hvisible⟩ := Context.exists_visible_events hlines
    rw [hevents] at he
    obtain ⟨b, hb, heb⟩ := List.mem_flatMap.1 he
    rw [b.nodes_eq_nil_iff.1 (hblocks b hb)] at heb
    rw [List.mem_singleton.1 heb] at hvisible
    exact not_isVisible_blank hvisible
  · intro hlines b hb
    refine b.nodes_eq_nil_iff.2 (Block.eq_blank_of_events fun e he => ?_)
    have hmem := List.mem_flatMap.2 ⟨b, hb, he⟩
    rw [← hevents, Context.events_of_hidden hlines] at hmem
    exact List.eq_of_mem_replicate hmem

theorem ofMarkdown_eq_unlines :
    Wiki.ofMarkdown markdown =
      unlines ((Context.idle.events markdown.lines).filterMap Wiki.ofEvent?) := by
  rw [← events_classifyFrom .idle 0, List.filterMap_map]
  rfl

theorem wiki_eq_nil_iff :
    Wiki.ofMarkdown markdown = [] ↔
      (∀ line ∈ markdown.lines, Hidden line) ∧ markdown.lines.countP Text.isBlank ≤ 1 := by
  rw [ofMarkdown_eq_unlines, unlines, join_eq_nil_iff (List.cons_ne_nil _ _)]
  by_cases hlines : ∀ line ∈ markdown.lines, Hidden line
  · rw [Context.events_of_hidden hlines, List.filterMap_replicate, and_iff_right hlines]
    show List.replicate _ [] = [] ∨ List.replicate _ [] = [[]] ↔ _
    generalize markdown.lines.countP Text.isBlank = count
    rcases count with _ | _ | count <;> simp [List.replicate_succ]
  · obtain ⟨e, he, text, htext, hne⟩ := Context.exists_visible_events hlines
    have hmem := List.mem_filterMap.2 ⟨e, he, htext⟩
    simp only [hlines, false_and, iff_false, not_or]
    constructor
    · exact List.ne_nil_of_mem hmem
    · intro heq
      rw [heq] at hmem
      exact hne (List.mem_singleton.1 hmem)

/-- **Nothing visible is lost.** The document of a Markdown text has no content exactly if every
line is hidden. Its wiki markup is empty exactly if, moreover, at most one line is blank; further
ones leave their line feeds. -/
theorem ofMarkdown_eq_nil_iff :
    ((Document.ofMarkdown markdown).content = [] ↔ ∀ line ∈ markdown.lines, Hidden line) ∧
      (Wiki.ofMarkdown markdown = [] ↔
        (∀ line ∈ markdown.lines, Hidden line) ∧ markdown.lines.countP Text.isBlank ≤ 1) :=
  ⟨content_eq_nil_iff markdown, wiki_eq_nil_iff markdown⟩

/-- A separator row that belongs to no table has visible characters, but it leaves nothing. -/
theorem ofMarkdown_separator :
    let markdown : Text := "|---|".toList
    (∃ c ∈ markdown, ¬isBlank c) ∧ Wiki.ofMarkdown markdown = [] ∧
      (Document.ofMarkdown markdown).content = [] :=
  ⟨⟨'|', by decide, by decide⟩, by decide, rfl⟩

end TicketMarkup
