import TicketMarkup.Proofs.Contexts
import TicketMarkup.Proofs.EventTexts

/-!
# The lines of the source

`exists_own_event`: no line of a Markdown text is lost and none counts twice. Line numbers do not
decrease along the events, and each line has one event of its own: the last one with its number, the
events that close the construct left open at the very end aside.

1. A reading has at most one event of its own (`Context.own?`), behind events that only close and
   open constructs (`exists_step_eq_append`).
2. Which lines have none, or the bounds of a fence in its place, is said by the line and the context
   alone: `Context.OpensFence`, `Context.ClosesFence`, `Context.SkipsSeparator`.
3. The events with the number of a line are those of its reading in the context that the lines
   before it leave (`eventsOn_classifyFrom`).
-/

namespace TicketMarkup

open Text

/-- An event that shows what a line holds, and does not only open or close a construct. -/
def Event.isContent : Event → Bool
  | blank | leaf _ | listItem _ | codeLine _ | quoteLine _ | tableRow _ => true
  | listEnd | codeStart _ | codeEnd | quoteStart | quoteEnd | tableStart | tableEnd => false

namespace Context

/-! ## Lines without content -/

/-- The line opens a fence. -/
def OpensFence (c : Context) (line : Text) : Prop :=
  c ≠ fenced ∧ (Line.openingFence? line).isSome

/-- The line closes the open fence. -/
def ClosesFence (c : Context) (line : Text) : Prop := c = fenced ∧ Line.isClosingFence line

/-- The line is taken as code because a fence is open or because of its indentation; an indented
list item inside a list is none. -/
def TakesAsCode (c : Context) (line : Text) : Prop :=
  c = fenced ∨ (Line.indentedCode? line).isSome ∧ ¬(c.inList ∧ (Line.listItem? line).isSome)

/-- The line is a separator where a table row can stand. -/
def SkipsSeparator (c : Context) (line : Text) : Prop :=
  Line.isSeparator line ∧ Line.isTableRow line (c = table) ∧ ¬c.TakesAsCode line

/-- What the event of its own is for a line in a context: the bounds of a fence, nothing for a
separator, and for any other line an event that shows a part of it. -/
structure OwnEvent (c : Context) (line : Text) (own : Option Event) : Prop where
  opens : c.OpensFence line → ∃ language, own = some (.codeStart language)
  closes : c.ClosesFence line → own = some .codeEnd
  skips : c.SkipsSeparator line → own = none
  content : ¬c.OpensFence line → ¬c.ClosesFence line → ¬c.SkipsSeparator line →
    ∃ e, own = some e ∧ e.isContent ∧ e.LiesIn line

/-! ## Readings -/

/-- The event of its own that a reading gives. -/
def own? (c : Context) : Reading → Option Event
  | .openingFence language => some (.codeStart language)
  | .closingFence => some .codeEnd
  | .fencedCode text | .indentedCode text => some (.codeLine text)
  | .quote text => some (.quoteLine text)
  | .separator => none
  | .row row => some (.tableRow row)
  | .blank => some .blank
  | .item indent ordered text => some (.listItem (c.item indent ordered text))
  | .leaf leaf => some (.leaf leaf)

theorem isContent_of_mem_closing {c : Context} {e : Event} (h : e ∈ c.closing) :
    e.isContent = false := by
  cases c <;> simp_all [closing, Event.isContent]

theorem isContent_of_mem_entering {c target : Context} {start e : Event}
    (hstart : start.isContent = false) (h : e ∈ c.entering target start) : e.isContent = false := by
  unfold entering at h
  split_ifs at h
  · simp at h
  · rcases List.mem_append.1 h with h | h
    · exact isContent_of_mem_closing h
    · exact List.mem_singleton.1 h ▸ hstart

/-- The events of a reading: those that close and open constructs, then the one of its own. -/
theorem exists_step_eq_append {c : Context} {r : Reading} (h : r = .closingFence → c = fenced) :
    ∃ before, (c.step r).1 = before ++ (c.own? r).toList ∧ ∀ e ∈ before, e.isContent = false := by
  have hclosing : ∀ e ∈ c.closing, e.isContent = false := fun _ => isContent_of_mem_closing
  cases r with
  | openingFence language => exact ⟨c.closing, rfl, hclosing⟩
  | closingFence =>
    obtain rfl := h rfl
    exact ⟨[], rfl, by simp⟩
  | fencedCode text => exact ⟨[], rfl, by simp⟩
  | indentedCode text => exact ⟨_, rfl, fun _ => isContent_of_mem_entering rfl⟩
  | quote text => exact ⟨_, rfl, fun _ => isContent_of_mem_entering rfl⟩
  | row row => exact ⟨_, rfl, fun _ => isContent_of_mem_entering rfl⟩
  | separator =>
    rw [step]
    split_ifs
    · exact ⟨c.closing, by simp [own?], hclosing⟩
    · exact ⟨[], rfl, by simp⟩
  | blank =>
    rw [step]
    split_ifs
    · exact ⟨[], rfl, by simp⟩
    · exact ⟨c.closing, rfl, hclosing⟩
  | item indent ordered text =>
    refine ⟨_, rfl, ?_⟩
    split_ifs
    · simp
    · exact hclosing
  | leaf leaf => exact ⟨c.closing, rfl, hclosing⟩

/-- An event with content is the one of its own. -/
theorem own?_of_mem_step {c : Context} {r : Reading} {e : Event} (hr : r = .closingFence → c = fenced)
    (he : e.isContent) (h : e ∈ (c.step r).1) : c.own? r = some e := by
  obtain ⟨before, hstep, hbefore⟩ := exists_step_eq_append hr
  rw [hstep, List.mem_append] at h
  rcases h with h | h
  · exact absurd (hbefore e h) (by simp [he])
  · exact Option.mem_toList.1 h

end Context

/-! ## Which lines are read how -/

namespace Line

variable {line : Text}

variable {c : Char} {rest : Text}

theorem openingFence?_of_trimStart (h : line.trimStart = c :: rest) (hc : c ≠ '`') :
    openingFence? line = none := by
  simp [openingFence?, h, hc]

theorem quote?_of_trimStart (h : line.trimStart = c :: rest) (hc : c ≠ '>') :
    quote? line = none := by
  unfold quote?
  rw [h]
  split <;> simp_all

/-- A separator is not empty, and its first character that is not blank is one of its marks. -/
theorem exists_head_of_isSeparator (h : isSeparator line) :
    ∃ c rest, line.trimStart = c :: rest ∧ c ∈ ['|', '-', ':', ' ', '\t'] := by
  simp only [isSeparator, Bool.and_eq_true, List.contains_iff_mem, List.all_eq_true,
    decide_eq_true_eq] at h
  obtain ⟨⟨hpipe, -⟩, hall⟩ := h
  cases htrim : line.trim with
  | nil =>
    rw [htrim] at hpipe
    simp at hpipe
  | cons c rest =>
    obtain ⟨tail, htail⟩ := trimEnd_isPrefix line.trimStart
    rw [← trim, htrim] at htail
    exact ⟨c, rest ++ tail, htail.symm, hall c (htrim ▸ List.mem_cons_self ..)⟩

theorem openingFence?_of_isSeparator (h : isSeparator line) : openingFence? line = none := by
  obtain ⟨c, rest, hstart, hc⟩ := exists_head_of_isSeparator h
  refine openingFence?_of_trimStart hstart ?_
  rintro rfl
  simp at hc

theorem quote?_of_isSeparator (h : isSeparator line) : quote? line = none := by
  obtain ⟨c, rest, hstart, hc⟩ := exists_head_of_isSeparator h
  refine quote?_of_trimStart hstart ?_
  rintro rfl
  simp at hc

theorem openingFence?_of_isBlank (h : line.isBlank) : openingFence? line = none := by
  simp [openingFence?, trimStart_of_isBlank h]

theorem quote?_of_isBlank (h : line.isBlank) : quote? line = none := by
  rw [quote?, trimStart_of_isBlank h]

theorem indentedCode?_of_isBlank (h : line.isBlank) : indentedCode? line = none := if_pos h

theorem isTableRow_of_isBlank (h : line.isBlank) (tableOpen : Bool) :
    isTableRow line tableOpen = false := by
  have hpipe : '|' ∉ line := fun hmem => absurd (List.all_eq_true.1 h _ hmem) (by decide)
  simp [isTableRow, hpipe]

end Line

theorem Reading.ofPlainLine_ne (line : Text) :
    (∀ language, ofPlainLine line ≠ .openingFence language) ∧ ofPlainLine line ≠ .closingFence ∧
      ofPlainLine line ≠ .separator := by
  unfold ofPlainLine
  repeat' split
  all_goals simp

theorem Reading.ofLine_ne_fence (tableOpen : Bool) (line : Text) (behind : Option Text) :
    (∀ language, ofLine tableOpen line behind ≠ .openingFence language) ∧
      ofLine tableOpen line behind ≠ .closingFence := by
  unfold ofLine
  split
  · simp
  · split_ifs
    · simp
    · simp
    · exact ⟨(ofPlainLine_ne line).1, (ofPlainLine_ne line).2.1⟩

theorem Reading.ofLine_eq_separator_iff {tableOpen : Bool} {line : Text} {behind : Option Text} :
    ofLine tableOpen line behind = .separator ↔
      Line.isSeparator line ∧ Line.isTableRow line tableOpen := by
  constructor
  · intro h
    unfold ofLine at h
    split at h
    · simp at h
    · split_ifs at h with hrow hsep
      · exact ⟨hsep, hrow⟩
      · exact absurd h (ofPlainLine_ne line).2.2
  · rintro ⟨hsep, hrow⟩
    rw [ofLine, Line.quote?_of_isSeparator hsep]
    simp [hrow, hsep]

theorem Reading.ofLine_eq_blank_iff {tableOpen : Bool} {line : Text} {behind : Option Text} :
    ofLine tableOpen line behind = .blank ↔ line.isBlank := by
  constructor
  · intro h
    unfold ofLine at h
    split at h
    · simp at h
    · split_ifs at h
      unfold ofPlainLine at h
      split at h
      · assumption
      · repeat' split at h
        all_goals simp at h
  · intro h
    rw [ofLine, Line.quote?_of_isBlank h, Line.isTableRow_of_isBlank h]
    exact if_pos h

namespace Context

variable {c : Context} {line : Text} {behind : Option Text}

/-- How a line is read: inside a fence, as an opening fence, as code for its indentation, or as a
line on its own. -/
theorem read_cases (c : Context) (line : Text) (behind : Option Text) :
    c = fenced ∧
        c.read line behind =
            (if Line.isClosingFence line then .closingFence else .fencedCode line) ∨
      c ≠ fenced ∧ (∃ tag, Line.openingFence? line = some tag ∧
        c.read line behind = .openingFence (Reading.languageOfTag tag)) ∨
      c ≠ fenced ∧ Line.openingFence? line = none ∧ c.TakesAsCode line ∧
        (∃ code, c.read line behind = .indentedCode code) ∨
      Line.openingFence? line = none ∧ ¬c.TakesAsCode line ∧
        c.read line behind = Reading.ofLine (c = table) line behind := by
  unfold read
  by_cases hc : c = fenced
  · exact .inl ⟨hc, if_pos hc⟩
  · rw [if_neg hc]
    cases hfence : Line.openingFence? line with
    | some tag => exact .inr (.inl ⟨hc, tag, rfl, rfl⟩)
    | none =>
      cases hcode : Line.indentedCode? line with
      | none => exact .inr (.inr (.inr ⟨rfl, by simp [TakesAsCode, hc, hcode], rfl⟩))
      | some code =>
        by_cases hitem : c.inList ∧ (Line.listItem? line).isSome
        · have htable : c ≠ table := by
            rintro rfl
            simp [inList] at hitem
          refine .inr (.inr (.inr ⟨rfl, by simp [TakesAsCode, hc, hitem], ?_⟩))
          simp [hitem, htable]
        · exact .inr (.inr (.inl ⟨hc, rfl, .inr ⟨by simp [hcode], hitem⟩, code, by simp [hitem]⟩))

/-- Outside code, a line that opens no fence is read on its own. -/
theorem read_eq_ofLine (hfence : Line.openingFence? line = none) (hcode : ¬c.TakesAsCode line)
    (behind : Option Text) : c.read line behind = Reading.ofLine (c = table) line behind := by
  rcases c.read_cases line behind with ⟨hc, -⟩ | ⟨-, tag, htag, -⟩ | ⟨-, -, hcode', -⟩ |
    ⟨-, -, hread⟩
  · exact absurd (.inl hc) hcode
  · simp [hfence] at htag
  · exact absurd hcode' hcode
  · exact hread

/-- No construct of several lines claims the line: no fence is open and the line opens none, it is
not taken as code, and it is neither quoted nor the row of a table. -/
structure Unclaimed (c : Context) (line : Text) : Prop where
  no_fence : Line.openingFence? line = none
  no_code : ¬c.TakesAsCode line
  no_quote : Line.quote? line = none
  no_row : Line.isTableRow line (c = table) = false

/-- A line that no construct of several lines claims is read as it stands. -/
theorem read_of_unclaimed (h : c.Unclaimed line) (behind : Option Text) :
    c.read line behind = Reading.ofPlainLine line := by
  rw [read_eq_ofLine h.no_fence h.no_code, Reading.ofLine, h.no_quote]
  simp [h.no_row]

theorem unclaimed_of_read {leaf : Leaf} (h : c.read line behind = .leaf leaf) :
    c.Unclaimed line := by
  rcases c.read_cases line behind with ⟨-, hread⟩ | ⟨-, tag, -, hread⟩ | ⟨-, -, -, code, hread⟩ |
    ⟨hfence, hcode, hread⟩
  · rw [hread] at h
    split_ifs at h
  · simp [hread] at h
  · simp [hread] at h
  · rw [hread, Reading.ofLine] at h
    split at h
    · simp at h
    · next hquote =>
      split_ifs at h with hrow
      exact ⟨hfence, hcode, Option.eq_none_iff_forall_ne_some.2 hquote, by simpa using hrow⟩

theorem eq_fenced_of_read_closingFence (h : c.read line behind = .closingFence) : c = fenced := by
  rcases c.read_cases line behind with ⟨hc, -⟩ | ⟨-, tag, -, hread⟩ | ⟨-, -, -, code, hread⟩ |
    ⟨-, -, hread⟩
  · exact hc
  · simp [hread] at h
  · simp [hread] at h
  · exact absurd (hread ▸ h) (Reading.ofLine_ne_fence _ line behind).2

/-- A line is read as a separator exactly if it is one where a row of a table can stand. -/
theorem read_eq_separator_iff : c.read line behind = .separator ↔ c.SkipsSeparator line := by
  constructor
  · intro h
    rcases c.read_cases line behind with ⟨-, hread⟩ | ⟨-, tag, -, hread⟩ | ⟨-, -, -, code, hread⟩ |
      ⟨-, hcode, hread⟩
    · rw [hread] at h
      split_ifs at h
    · simp [hread] at h
    · simp [hread] at h
    · obtain ⟨hsep, hrow⟩ := Reading.ofLine_eq_separator_iff.1 (hread ▸ h)
      exact ⟨hsep, hrow, hcode⟩
  · rintro ⟨hsep, hrow, hcode⟩
    rw [read_eq_ofLine (Line.openingFence?_of_isSeparator hsep) hcode]
    exact Reading.ofLine_eq_separator_iff.2 ⟨hsep, hrow⟩

/-- Outside fences the blank lines are read as such, and no others. -/
theorem read_eq_blank_iff : c.read line behind = .blank ↔ c ≠ fenced ∧ line.isBlank := by
  rcases c.read_cases line behind with ⟨rfl, hread⟩ | ⟨-, tag, htag, hread⟩ |
    ⟨hc, -, hcode, code, hread⟩ | ⟨-, hcode, hread⟩
  · rw [hread]
    split_ifs <;> simp
  · have hblank : ¬line.isBlank := by
      intro hblank
      simp [Line.openingFence?_of_isBlank hblank] at htag
    simp [hread, hblank]
  · have hblank : ¬line.isBlank := by
      intro hblank
      simp [TakesAsCode, hc, Line.indentedCode?_of_isBlank hblank] at hcode
    simp [hread, hblank]
  · have hc : c ≠ fenced := fun h => hcode (.inl h)
    rw [hread, Reading.ofLine_eq_blank_iff]
    exact ⟨fun h => ⟨hc, h⟩, fun h => h.2⟩

/-- A reading that is neither the bound of a fence nor a separator gives an event that shows a part
of the line. -/
theorem exists_own?_eq_some {r : Reading} (hr : r.LiesIn line)
    (hopening : ∀ language, r ≠ .openingFence language) (hclosing : r ≠ .closingFence)
    (hseparator : r ≠ .separator) : ∃ e, c.own? r = some e ∧ e.isContent ∧ e.LiesIn line := by
  obtain ⟨before, hstep, -⟩ := exists_step_eq_append (c := c) (r := r) (absurd · hclosing)
  have hlies : ∀ e ∈ (c.own? r).toList, e.LiesIn line :=
    fun e he => liesIn_step c hr e (hstep ▸ List.mem_append_right _ he)
  cases r with
  | openingFence language => exact absurd rfl (hopening language)
  | closingFence => exact absurd rfl hclosing
  | separator => exact absurd rfl hseparator
  | _ => exact ⟨_, rfl, rfl, hlies _ (List.mem_singleton.2 rfl)⟩

/-- The event of its own that a reading gives is that of the line. -/
theorem ownEvent_read (c : Context) (line : Text) (behind : Option Text) :
    c.OwnEvent line (c.own? (c.read line behind)) := by
  have hlies := liesIn_read c line behind
  rcases c.read_cases line behind with ⟨rfl, hread⟩ | ⟨hc, tag, htag, hread⟩ |
    ⟨hc, hnone, hcode, code, hread⟩ | ⟨hnone, hcode, hread⟩
  · rw [hread] at hlies ⊢
    by_cases hclose : Line.isClosingFence line
    · rw [if_pos hclose]
      exact ⟨fun h => absurd rfl h.1, fun _ => rfl, fun h => absurd (.inl rfl) h.2.2,
        fun _ h _ => absurd ⟨rfl, hclose⟩ h⟩
    · rw [if_neg hclose] at hlies ⊢
      exact ⟨fun h => absurd rfl h.1, fun h => absurd h.2 hclose,
        fun h => absurd (.inl rfl) h.2.2, fun _ _ _ => ⟨_, rfl, rfl, hlies⟩⟩
  · rw [hread]
    refine ⟨fun _ => ⟨_, rfl⟩, fun h => absurd h.1 hc, fun h => ?_,
      fun h _ _ => absurd ⟨hc, by simp [htag]⟩ h⟩
    rw [Line.openingFence?_of_isSeparator h.1] at htag
    simp at htag
  · rw [hread] at hlies ⊢
    exact ⟨fun h => by simp [OpensFence, hnone] at h, fun h => absurd h.1 hc,
      fun h => absurd hcode h.2.2, fun _ _ _ => ⟨_, rfl, rfl, hlies⟩⟩
  · have hc : c ≠ fenced := fun h => hcode (.inl h)
    rw [hread] at hlies ⊢
    have hfence := Reading.ofLine_ne_fence (c = table) line behind
    refine ⟨fun h => by simp [OpensFence, hnone] at h, fun h => absurd h.1 hc, fun h => ?_,
      fun _ _ h => exists_own?_eq_some hlies hfence.1 hfence.2 fun hsep => h ?_⟩
    · rw [Reading.ofLine_eq_separator_iff.2 ⟨h.1, h.2.1⟩]
      rfl
    · obtain ⟨hsep, hrow⟩ := Reading.ofLine_eq_separator_iff.1 hsep
      exact ⟨hsep, hrow, hcode⟩

end Context

/-! ## Line numbers -/

section

variable {c : Context} {count : Nat} {lines : List Text}

/-- The events of lines are numbered from the first of these lines to the last; only what closes the
open construct where no line is left has the number of the line before. -/
theorem line_of_mem_classifyFrom {e : NumberedEvent} (h : e ∈ classifyFrom c count lines) :
    e.line ≤ count + lines.length ∧ (count < e.line ∨ lines = [] ∧ e.line = count) := by
  induction lines generalizing c count with
  | nil =>
    obtain ⟨event, -, rfl⟩ := List.mem_map.1 h
    exact ⟨Nat.le_refl _, .inr ⟨rfl, rfl⟩⟩
  | cons line rest ih =>
    rw [classifyFrom_cons] at h
    rw [List.length_cons]
    rcases List.mem_append.1 h with h | h
    · obtain ⟨event, -, rfl⟩ := List.mem_map.1 h
      exact ⟨by show count + 1 ≤ _; omega, .inl (Nat.lt_succ_self count)⟩
    · obtain ⟨hle, hlow⟩ := ih h
      exact ⟨by omega, .inl (by omega)⟩

theorem pairwise_line_map (number : Nat) (events : List Event) :
    ((events.map (⟨number, ·⟩)).map NumberedEvent.line).Pairwise (· ≤ ·) := by
  rw [List.map_map, List.pairwise_map]
  exact List.pairwise_of_forall fun _ _ => Nat.le_refl number

theorem pairwise_line_classifyFrom (c : Context) (count : Nat) (lines : List Text) :
    ((classifyFrom c count lines).map NumberedEvent.line).Pairwise (· ≤ ·) := by
  induction lines generalizing c count with
  | nil => exact pairwise_line_map count c.closing
  | cons line rest ih =>
    rw [classifyFrom_cons, List.map_append, List.pairwise_append]
    refine ⟨pairwise_line_map _ _, ih _ _, ?_⟩
    intro a ha b hb
    obtain ⟨e, he, rfl⟩ := List.mem_map.1 ha
    obtain ⟨e', he', rfl⟩ := List.mem_map.1 hb
    obtain ⟨event, -, rfl⟩ := List.mem_map.1 he
    obtain ⟨-, hlow⟩ := line_of_mem_classifyFrom he'
    show count + 1 ≤ e'.line
    omega

end

/-- The events with the number of a line. -/
def eventsOn (number : Nat) (events : List NumberedEvent) : List Event :=
  (events.filter (·.line = number)).map NumberedEvent.event

theorem eventsOn_append (number : Nat) (front back : List NumberedEvent) :
    eventsOn number (front ++ back) = eventsOn number front ++ eventsOn number back := by
  simp [eventsOn]

theorem eventsOn_eq_nil {number : Nat} {events : List NumberedEvent}
    (h : ∀ e ∈ events, e.line ≠ number) : eventsOn number events = [] := by
  simpa [eventsOn] using h

theorem eventsOn_map (number : Nat) (events : List Event) :
    eventsOn number (events.map (⟨number, ·⟩)) = events := by
  simp [eventsOn, List.filter_map, Function.comp_def]

/-- The events on a line are those of its reading in the context that the lines before it leave;
those on the last line close in addition what is open then. -/
theorem eventsOn_classifyFrom (c : Context) (count : Nat) {lines : List Text} {i : Nat}
    (h : i < lines.length) :
    eventsOn (count + i + 1) (classifyFrom c count lines) =
      ((c.after (lines.take i)).step
          ((c.after (lines.take i)).read lines[i] lines[i + 1]?)).1 ++
        if i + 1 = lines.length then (c.after lines).closing else [] := by
  induction lines generalizing c count i with
  | nil => simp at h
  | cons line rest ih =>
    rw [classifyFrom_cons, eventsOn_append]
    cases i with
    | zero =>
      rw [Nat.add_zero, eventsOn_map]
      congr 1
      · simp [Context.after, List.head?_eq_getElem?]
      · cases rest with
        | nil => exact eventsOn_map _ _
        | cons line' rest =>
          rw [if_neg (by simp)]
          refine eventsOn_eq_nil fun e he => ?_
          obtain ⟨-, hlow | ⟨hnil, -⟩⟩ := line_of_mem_classifyFrom he
          · omega
          · simp at hnil
    | succ i =>
      have hfront : eventsOn (count + (i + 1) + 1)
          ((c.step (c.read line rest.head?)).1.map (⟨count + 1, ·⟩)) = [] := by
        refine eventsOn_eq_nil fun e he => ?_
        obtain ⟨event, -, rfl⟩ := List.mem_map.1 he
        show count + 1 ≠ _
        omega
      have hrest := ih (c.next line) (count + 1) (Nat.lt_of_succ_lt_succ h)
      rw [show count + 1 + i = count + (i + 1) by omega] at hrest
      rw [hfront, List.nil_append, hrest]
      simp [Context.after]

/-- An event with content is the own event of the line with its number. -/
theorem exists_read_of_mem_classify {markdown : Text} {e : NumberedEvent}
    (h : e ∈ classify markdown) (he : e.event.isContent) :
    ∃ i, ∃ hi : i < markdown.lines.length, e.line = i + 1 ∧
      (Context.idle.after (markdown.lines.take i)).own?
        ((Context.idle.after (markdown.lines.take i)).read markdown.lines[i]
          markdown.lines[i + 1]?) = some e.event := by
  obtain ⟨hle, hlow⟩ := line_of_mem_classifyFrom h
  have hpos : 0 < e.line := by
    rcases hlow with hlow | ⟨hnil, -⟩
    · exact hlow
    · simp [classify, hnil, classifyFrom, Context.closing] at h
  obtain ⟨i, hline⟩ : ∃ i, e.line = i + 1 := ⟨e.line - 1, by omega⟩
  have hi : i < markdown.lines.length := by omega
  have hmem : e.event ∈ eventsOn (i + 1) (classify markdown) :=
    List.mem_map.2 ⟨e, List.mem_filter.2 ⟨h, by simp [hline]⟩, rfl⟩
  have hevents := eventsOn_classifyFrom .idle 0 hi
  rw [Nat.zero_add] at hevents
  rw [classify, hevents, List.mem_append] at hmem
  refine ⟨i, hi, hline, ?_⟩
  rcases hmem with hmem | hmem
  · exact Context.own?_of_mem_step Context.eq_fenced_of_read_closingFence he hmem
  · split_ifs at hmem
    · exact absurd (Context.isContent_of_mem_closing hmem) (by simp [he])
    · simp at hmem

/-- **No line is lost.** The line numbers of the events do not decrease and are those of lines. The
events on a line end with the one of its own, behind events without content; behind it only the last
line has further events, which close what is open at the end and have no content either. The own
event is an event with content that shows a part of the line, except for the bounds of fences and
for separators. -/
theorem exists_own_event (markdown : Text) :
    ((classify markdown).map NumberedEvent.line).Pairwise (· ≤ ·) ∧
      (∀ e ∈ classify markdown, 1 ≤ e.line ∧ e.line ≤ markdown.lines.length) ∧
      ∀ (i : Nat) (hi : i < markdown.lines.length), ∃ before own after,
        eventsOn (i + 1) (classify markdown) = before ++ own.toList ++ after ∧
          (∀ e ∈ before ++ after, e.isContent = false) ∧
          (after = if i + 1 = markdown.lines.length
            then (Context.idle.after markdown.lines).closing else []) ∧
          (Context.idle.after (markdown.lines.take i)).OwnEvent markdown.lines[i] own := by
  refine ⟨pairwise_line_classifyFrom _ _ _, ?_, ?_⟩
  · intro e he
    obtain ⟨hle, hlow | ⟨hnil, -⟩⟩ := line_of_mem_classifyFrom he
    · exact ⟨hlow, by omega⟩
    · simp [classify, hnil, classifyFrom, Context.closing] at he
  · intro i hi
    have hevents := eventsOn_classifyFrom .idle 0 hi
    rw [Nat.zero_add] at hevents
    generalize hc : Context.idle.after (markdown.lines.take i) = c at hevents
    obtain ⟨before, hstep, hbefore⟩ :=
      Context.exists_step_eq_append (Context.eq_fenced_of_read_closingFence (c := c))
    rw [hstep] at hevents
    refine ⟨before, _, _, hevents, ?_, rfl, c.ownEvent_read _ _⟩
    intro e he
    rcases List.mem_append.1 he with he | he
    · exact hbefore e he
    · split_ifs at he
      · exact Context.isContent_of_mem_closing he
      · simp at he

end TicketMarkup
