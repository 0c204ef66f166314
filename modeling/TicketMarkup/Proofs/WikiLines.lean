import TicketMarkup.Proofs.InlineContent
import TicketMarkup.Proofs.SourceLines
import TicketMarkup.Proofs.VisibleText

/-!
# Lines of wiki markup

`lines_ofMarkdown`: cutting the wiki markup of a Markdown text at its line feeds gives one line for
each event that shows something, in their order.

1. Inline markup is written with the characters of its line and ten marks (`ofInline_subset`), and a
   line feed is none of these.
2. The texts of an event lie in a line of the source, and its language, if it has one, stands in such
   a line or in the table of languages (`newline_not_mem_of_codeStart`). So the line of an event has
   no line feed (`newline_not_mem_ofEvent?`).
3. Lines without line feeds are cut apart where they were joined (`Text.splitOn_join`).
-/

namespace TicketMarkup

open Text

/-! ## Inline markup -/

namespace Wiki

/-- The characters that inline markup is written with. -/
def marks : Text := ['*', '_', '-', '\x7b', '\x7d', '[', '|', ']', '!', '\\']

/-- The runs inside a delimiter are written between marks. -/
theorem exists_ofRun_run_eq (d : Delimiter) (inner : List Run) :
    ∃ front back, ofRun (d.run inner) = front ++ (ofRuns inner ++ back) ∧ front ++ back ⊆ marks := by
  cases d with
  | strongEmphasis mark =>
    exact ⟨['*', '_'], ['_', '*'], by simp [Delimiter.run, ofRun, ofRuns], by decide⟩
  | strong mark => exact ⟨['*'], ['*'], by simp [Delimiter.run, ofRun], by decide⟩
  | emphasis mark => exact ⟨['_'], ['_'], by simp [Delimiter.run, ofRun], by decide⟩
  | strike => exact ⟨['-'], ['-'], by simp [Delimiter.run, ofRun], by decide⟩

/-- A reference is written with its label, its target and marks. -/
theorem ofRun_reference_subset (kind : ReferenceKind) (r : Reference) :
    ofRun (kind.run r) ⊆ r.label ++ r.target ++ marks := by
  have hmarks : ['[', ']', '|', '!'] ⊆ marks := by decide
  intro c hc
  have hparts : c ∈ r.label ++ r.target ++ ['[', ']', '|', '!'] := by
    cases kind with
    | link =>
      rw [ReferenceKind.run, ofRun] at hc
      split_ifs at hc <;> simp at hc ⊢ <;> tauto
    | image =>
      simp [ReferenceKind.run, ofRun] at hc ⊢
      tauto
  rcases List.mem_append.1 hparts with hc | hc
  · exact List.mem_append_left marks hc
  · exact List.mem_append_right _ (hmarks hc)

variable {line : Text}

/-- A piece of the line in front of runs, where the runs of its inner text and the others are
written with characters of the line and marks. -/
theorem ofRuns_consPiece_subset {piece : Piece} {inner rest : List Run}
    (hsource : piece.source ⊆ line) (hinner : ofRuns inner ⊆ line ++ marks)
    (hrest : ofRuns rest ⊆ line ++ marks) :
    ofRuns (Run.consPiece piece inner rest) ⊆ line ++ marks := by
  have hline {t : Text} (h : t ⊆ line) : t ⊆ line ++ marks :=
    List.Subset.trans h (List.subset_append_left line marks)
  have hmarks {t : Text} (h : t ⊆ marks) : t ⊆ line ++ marks :=
    List.Subset.trans h (List.subset_append_right line marks)
  cases piece with
  | literal c | escaped c =>
    have hc : c ∈ line := hsource (by simp [Piece.source])
    rw [Run.consPiece, ofRuns_consChar]
    exact List.cons_subset.2 ⟨List.mem_append_left marks hc, hrest⟩
  | delimited d t =>
    obtain ⟨front, back, heq, hends⟩ := exists_ofRun_run_eq d inner
    obtain ⟨hfront, hback⟩ := List.append_subset.1 hends
    rw [Run.consPiece, ofRuns, heq]
    exact List.append_subset.2 ⟨List.append_subset.2
      ⟨hmarks hfront, List.append_subset.2 ⟨hinner, hmarks hback⟩⟩, hrest⟩
  | code ticks t =>
    have ht : t ⊆ line := fun c hc => hsource (by simp [Piece.source, hc])
    rw [Run.consPiece, ofRuns, ofRun]
    exact List.append_subset.2 ⟨List.append_subset.2 ⟨List.append_subset.2
      ⟨hmarks (by decide), hline ht⟩, hmarks (by decide)⟩, hrest⟩
  | reference kind spelling =>
    obtain ⟨hlabel, htarget, -⟩ := Line.liesIn_spelling spelling
    have hspelling : spelling.text ⊆ line :=
      fun c hc => hsource (List.mem_append_right kind.mark hc)
    have hparts : spelling.reference.label ++ spelling.reference.target ⊆ line :=
      List.append_subset.2 ⟨List.Subset.trans hlabel.subset hspelling,
        List.Subset.trans htarget.subset hspelling⟩
    rw [Run.consPiece, ofRuns]
    refine List.append_subset.2 ⟨List.Subset.trans (ofRun_reference_subset kind _) ?_, hrest⟩
    exact List.append_subset.2 ⟨hline hparts, List.subset_append_right line marks⟩

theorem ofRuns_ofText_subset (t : Text) : ofRuns (Run.ofText t) ⊆ t ++ marks := by
  refine Run.ofText_induction (motive := fun t runs => ofRuns runs ⊆ t ++ marks)
    (fun _ => List.nil_subset _) ?_ t
  intro t piece hpiece rest hinner hrest
  have hsource := (source_infix_of_mem_pieces hpiece).subset
  have hpart : piece.inner ++ marks ⊆ t ++ marks := List.append_subset.2
    ⟨List.Subset.trans (List.Subset.trans piece.inner_subset_source hsource)
      (List.subset_append_left t marks), List.subset_append_right t marks⟩
  exact ofRuns_consPiece_subset hsource (List.Subset.trans hinner hpart) hrest

/-- Inline markup has the characters of its line, and marks. -/
theorem ofInline_subset (line : Text) : ofInline line ⊆ line ++ marks := by
  unfold ofInline Run.ofLine
  split_ifs
  · rw [ofRuns_append]
    refine List.append_subset.2 ⟨List.Subset.trans (ofRuns_ofText_subset _) ?_, ?_⟩
    · exact List.append_subset.2 ⟨List.Subset.trans (trimEnd_isPrefix line).subset
        (List.subset_append_left line marks), List.subset_append_right line marks⟩
    · exact List.Subset.trans (by decide : ['\\', '\\'] ⊆ marks) (List.subset_append_right line marks)
  · exact ofRuns_ofText_subset line

theorem newline_not_mem_ofInline (h : '\n' ∉ line) : '\n' ∉ ofInline line := by
  intro hmem
  rcases List.mem_append.1 (ofInline_subset line hmem) with hmem | hmem
  · exact h hmem
  · exact absurd hmem (by decide)

end Wiki

/-! ## Languages -/

theorem newline_not_mem_canonicalLanguage {tag : Text} (h : '\n' ∉ tag) :
    '\n' ∉ canonicalLanguage tag := by
  unfold canonicalLanguage
  split
  · next entry hfind =>
    have hnames : ∀ entry ∈ languageAliases, '\n' ∉ entry.2.toList := by decide
    exact hnames entry (List.mem_of_find?_eq_some hfind)
  · exact h

theorem Line.openingFence?_isInfix {line tag : Text} (h : openingFence? line = some tag) :
    tag <:+: line := by
  simp only [openingFence?] at h
  split_ifs at h
  obtain rfl := Option.some.inj h
  have hrest := (trimStart_isSuffix (line.trimStart.dropWhile (· == '`'))).trans
    ((List.dropWhile_suffix _).trans (trimStart_isSuffix line))
  exact (List.takeWhile_prefix _).isInfix.trans hrest.isInfix

namespace Context

variable {c : Context} {line : Text} {behind : Option Text}

/-- Only an opening fence starts code in a language. -/
theorem eq_openingFence_of_mem_step {r : Reading} {language : Text}
    (h : .codeStart (some language) ∈ (c.step r).1) : r = .openingFence (some language) := by
  have hclosing : .codeStart (some language) ∉ c.closing := by cases c <;> simp [closing]
  have hentering {target : Context} {start : Event} (hstart : start ≠ .codeStart (some language)) :
      .codeStart (some language) ∉ c.entering target start := by
    unfold entering
    split_ifs
    · exact List.not_mem_nil
    · simp [hclosing, Ne.symm hstart]
  cases r with
  | openingFence tag => simpa [step, hclosing, eq_comm] using h
  | separator | blank | item =>
    rw [step] at h
    split_ifs at h <;> simp_all
  | _ => simp_all [step]

/-- The language of code that a line starts has no line feed. -/
theorem newline_not_mem_of_codeStart (hline : '\n' ∉ line) {language : Text}
    (h : .codeStart (some language) ∈ (c.step (c.read line behind)).1) : '\n' ∉ language := by
  have hread := eq_openingFence_of_mem_step h
  rcases c.read_cases line behind with ⟨-, heq⟩ | ⟨-, tag, htag, heq⟩ | ⟨-, -, -, code, heq⟩ |
    ⟨-, -, heq⟩
  · rw [heq] at hread
    split_ifs at hread
  · have hlanguage := Reading.openingFence.inj (heq.symm.trans hread)
    unfold Reading.languageOfTag at hlanguage
    split_ifs at hlanguage
    obtain rfl := Option.some.inj hlanguage
    exact newline_not_mem_canonicalLanguage fun hmem =>
      hline ((Line.openingFence?_isInfix htag).subset hmem)
  · simp [heq] at hread
  · exact absurd (heq.symm.trans hread) ((Reading.ofLine_ne_fence _ line behind).1 _)

end Context

/-! ## Events -/

/-- Every event but the end of a list and both ends of a table has a line in wiki markup. -/
def Event.hasLine : Event → Bool
  | listEnd | tableStart | tableEnd => false
  | _ => true

/-- The text of an event that is rendered as inline markup: that of a paragraph or a heading, and
what follows the checkbox of an item. -/
def Event.inline? : Event → Option Text
  | leaf (.paragraph t) | leaf (.heading _ t) => some t
  | listItem item => some (item.task.elim item.text Task.body)
  | _ => none

namespace Wiki

variable {line text : Text} {e : Event}

theorem newline_not_mem_ofListItem {item : ListItem} (hline : '\n' ∉ line)
    (h : (Event.listItem item).LiesIn line) : '\n' ∉ ofListItem item := by
  obtain ⟨depth, ordered, t, task⟩ := item
  obtain ⟨htext, htask⟩ := h
  have hinline {u : Text} (hu : u <:+: line) : '\n' ∉ ofInline u :=
    newline_not_mem_ofInline fun hmem => hline (hu.subset hmem)
  have hmarkers : '\n' ∉ List.replicate depth (if ordered then '#' else '*') := by
    intro hmem
    have := List.eq_of_mem_replicate hmem
    split_ifs at this <;> exact absurd this (by decide)
  rcases task with _ | ⟨_ | _, body⟩
  · simp [ofListItem, hmarkers, hinline htext]
  · simp [ofListItem, hmarkers, hinline (htask _ rfl)]
  · simp [ofListItem, hmarkers, hinline (htask _ rfl)]

theorem newline_not_mem_ofTableRow {row : TableRow} (hline : '\n' ∉ line) (h : row.LiesIn line) :
    '\n' ∉ ofTableRow row := by
  have hjoin {pipe : Text} (hpipe : '\n' ∉ pipe) : '\n' ∉ pipe ++ join pipe row.cells ++ pipe := by
    rw [List.mem_append, List.mem_append, not_or, not_or]
    refine ⟨⟨hpipe, fun hmem => ?_⟩, hpipe⟩
    rcases mem_join hmem with hmem | ⟨cell, hcell, hmem⟩
    · exact hpipe hmem
    · exact hline ((h.2 cell hcell).1.subset hmem)
  unfold ofTableRow
  split_ifs <;> exact hjoin (by decide)

/-- What an event shows has no line feed if its texts and its language have none. -/
theorem newline_not_mem_ofEvent? (hline : '\n' ∉ line) (hlies : e.LiesIn line)
    (hlanguage : ∀ language, e = .codeStart (some language) → '\n' ∉ language)
    (h : ofEvent? e = some text) : '\n' ∉ text := by
  have hpart {t : Text} (ht : t <:+: line) : '\n' ∉ t := fun hmem => hline (ht.subset hmem)
  cases e with
  | leaf l =>
    cases l with
    | paragraph t =>
      obtain rfl := Option.some.inj h
      exact newline_not_mem_ofInline (hpart hlies)
    | heading level t =>
      obtain rfl := Option.some.inj h
      simp [newline_not_mem_ofNat, newline_not_mem_ofInline (hpart hlies.1)]
    | rule =>
      obtain rfl := Option.some.inj h
      decide
    | image r =>
      obtain rfl := Option.some.inj h
      simp [hpart hlies.2.1]
  | listItem item =>
    obtain rfl := Option.some.inj h
    exact newline_not_mem_ofListItem hline hlies
  | codeStart language =>
    obtain rfl := Option.some.inj h
    cases language with
    | none => decide
    | some language => simp [tag, hlanguage language rfl]
  | codeLine t | quoteLine t =>
    obtain rfl := Option.some.inj h
    exact hpart hlies
  | tableRow row =>
    obtain rfl := Option.some.inj h
    exact newline_not_mem_ofTableRow hline hlies
  | blank | codeEnd | quoteStart | quoteEnd =>
    obtain rfl := Option.some.inj h
    decide
  | listEnd | tableStart | tableEnd => exact absurd h (by simp [ofEvent?])

/-- What the events of lines show has no line feed. -/
theorem newline_not_mem_of_mem_events {c : Context} {lines : List Text}
    (hlines : ∀ line ∈ lines, '\n' ∉ line) (he : e ∈ c.events lines)
    (h : ofEvent? e = some text) : '\n' ∉ text := by
  induction lines generalizing c with
  | nil =>
    have hlanguage : ∀ language, e ≠ .codeStart language := by
      rintro language rfl
      cases c <;> simp [Context.events, Context.closing] at he
    exact newline_not_mem_ofEvent? List.not_mem_nil (liesIn_closing c [] e he)
      (fun language heq => absurd heq (hlanguage _)) h
  | cons line rest ih =>
    rw [List.forall_mem_cons] at hlines
    rcases List.mem_append.1 he with he | he
    · refine newline_not_mem_ofEvent? hlines.1 (liesIn_step c (liesIn_read c line _) e he) ?_ h
      rintro language rfl
      exact Context.newline_not_mem_of_codeStart hlines.1 he
    · exact ih hlines.2 he

/-- A line of wiki markup is that of an event: code and quotes stand as they are, an item has one
marker for each level and a space, and inline markup, which ends the line, has no line feed. -/
structure IsLineOf (e : Event) (line : Text) : Prop where
  shown : ofEvent? e = some line
  verbatim : ∀ t, e = .codeLine t ∨ e = .quoteLine t → line = t
  markers : ∀ item, e = .listItem item →
    ∃ rest, line = List.replicate item.depth (if item.ordered then '#' else '*') ++ ' ' :: rest
  inline : ∀ t ∈ e.inline?, '\n' ∉ ofInline t ∧ ofInline t <:+ line

theorem exists_ofListItem_eq (item : ListItem) :
    ∃ front, ofListItem item =
      List.replicate item.depth (if item.ordered then '#' else '*') ++
        ' ' :: (front ++ ofInline (item.task.elim item.text Task.body)) := by
  obtain ⟨depth, ordered, t, _ | ⟨_ | _, body⟩⟩ := item
  · exact ⟨[], by simp [ofListItem]⟩
  · exact ⟨[], by simp [ofListItem]⟩
  · exact ⟨"(/) ".toList, by simp [ofListItem]⟩

theorem inline_isSuffix {t : Text} (ht : t ∈ e.inline?) (h : ofEvent? e = some line) :
    ofInline t <:+ line := by
  cases e with
  | leaf l =>
    cases l with
    | paragraph u =>
      obtain rfl := Option.some.inj h
      obtain rfl := Option.some.inj ht
      exact List.suffix_rfl
    | heading level u =>
      obtain rfl := Option.some.inj h
      obtain rfl := Option.some.inj ht
      exact List.suffix_append _ _
    | _ => simp [Event.inline?] at ht
  | listItem item =>
    obtain rfl := Option.some.inj h
    obtain rfl := Option.some.inj ht
    obtain ⟨front, heq⟩ := exists_ofListItem_eq item
    rw [heq, ← List.cons_append, ← List.append_assoc]
    exact List.suffix_append _ _
  | _ => simp [Event.inline?] at ht

theorem isLineOf_of_ofEvent? (h : ofEvent? e = some line) (hline : '\n' ∉ line) :
    IsLineOf e line := by
  refine ⟨h, ?_, ?_, fun t ht => ?_⟩
  · rintro t (rfl | rfl) <;> exact (Option.some.inj h).symm
  · rintro item rfl
    obtain ⟨front, heq⟩ := exists_ofListItem_eq item
    exact ⟨_, (Option.some.inj h).symm.trans heq⟩
  · have hsuffix := inline_isSuffix ht h
    exact ⟨fun hmem => hline (hsuffix.subset hmem), hsuffix⟩

theorem isSome_ofEvent? (e : Event) : (ofEvent? e).isSome = e.hasLine := by
  rcases e with _ | (_ | _ | _ | _) | _ | _ | _ | _ | _ | _ | _ | _ | _ | _ | _ <;> rfl

/-- The lines of events belong to the events that have one. -/
theorem forall₂_filterMap_ofEvent? {events : List Event}
    (h : ∀ e ∈ events, ∀ line, ofEvent? e = some line → '\n' ∉ line) :
    List.Forall₂ IsLineOf (events.filter Event.hasLine) (events.filterMap ofEvent?) := by
  induction events with
  | nil => exact .nil
  | cons e rest ih =>
    rw [List.forall_mem_cons] at h
    have hshown := isSome_ofEvent? e
    cases hline : ofEvent? e with
    | none =>
      rw [hline, Option.isSome_none] at hshown
      rw [List.filter_cons_of_neg (by simp [← hshown]), List.filterMap_cons_none hline]
      exact ih h.2
    | some line =>
      rw [hline, Option.isSome_some] at hshown
      rw [List.filter_cons_of_pos hshown.symm, List.filterMap_cons_some hline]
      exact .cons (isLineOf_of_ofEvent? hline (h.1 line hline)) (ih h.2)

end Wiki

/-- **Lines of wiki markup.** If any event of a Markdown text has a line, cutting its wiki markup at
the line feeds gives the lines of the events that have one, in their order. -/
theorem lines_ofMarkdown {markdown : Text}
    (h : ∃ e ∈ (classify markdown).map NumberedEvent.event, e.hasLine) :
    List.Forall₂ Wiki.IsLineOf
      (((classify markdown).map NumberedEvent.event).filter Event.hasLine)
      (splitOn '\n' (Wiki.ofMarkdown markdown)) := by
  have hevents : (classify markdown).map NumberedEvent.event = Context.idle.events markdown.lines :=
    events_classifyFrom .idle 0 markdown.lines
  rw [ofMarkdown_eq_unlines, unlines]
  rw [hevents] at h ⊢
  generalize hall : Context.idle.events markdown.lines = events at h ⊢
  have hfree : ∀ e ∈ events, ∀ line, Wiki.ofEvent? e = some line → '\n' ∉ line :=
    fun e he line => Wiki.newline_not_mem_of_mem_events
      (fun _ => newline_not_mem_of_mem_lines) (hall ▸ he)
  have hlines := Wiki.forall₂_filterMap_ofEvent? hfree
  rw [splitOn_join]
  · exact hlines
  · intro hnil
    rw [hnil, List.forall₂_nil_right_iff] at hlines
    obtain ⟨e, he, hshown⟩ := h
    exact absurd (List.mem_filter.2 ⟨he, hshown⟩) (hlines ▸ List.not_mem_nil)
  · intro line hline
    obtain ⟨e, he, heq⟩ := List.mem_filterMap.1 hline
    exact hfree e he line heq

/-- A list with a break and a checkbox, and code that is not closed. -/
theorem lines_ofMarkdown_list_and_code :
    let markdown := "- **a**  \n  - [x] _b_\n```py\n# c".toList
    let events := [.listItem ⟨1, false, "**a**  ".toList, none⟩,
      .listItem ⟨2, false, "[x] _b_".toList, some ⟨true, "_b_".toList⟩⟩,
      .codeStart (some "python".toList), .codeLine "# c".toList, .codeEnd]
    let lines := ["* *a*\\\\".toList, "** (/) _b_".toList, "\x7bcode:python\x7d".toList,
      "# c".toList, "\x7bcode\x7d".toList]
    (∃ e ∈ (classify markdown).map NumberedEvent.event, e.hasLine) ∧
      List.Forall₂ Wiki.IsLineOf events lines := by
  intro markdown events lines
  have h : ∃ e ∈ (classify markdown).map NumberedEvent.event, e.hasLine := by decide
  have hevents : ((classify markdown).map NumberedEvent.event).filter Event.hasLine = events := by
    decide
  have hlines : splitOn '\n' (Wiki.ofMarkdown markdown) = lines := by decide +kernel
  have hcut := lines_ofMarkdown h
  rw [hevents, hlines] at hcut
  exact ⟨h, hcut⟩

end TicketMarkup
