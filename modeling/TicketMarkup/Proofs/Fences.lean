import TicketMarkup.Proofs.BlockNodes
import TicketMarkup.Proofs.SourceLines

/-!
# Fences isolate

`fence_isolates`: a fenced block in a text has the events of a code block, whose lines stand as they
are, and the lines before and behind it have the events that they have on their own. So the document
is that of the lines before, the code block, and that of the lines behind.

The opening fence closes whatever is open before it, as the end of the text would, and being no
separator it makes no header row of the line before it. The closing fence leaves nothing open, so
the lines behind it are read as at the start of a text.
-/

namespace TicketMarkup

open Text

namespace Context

variable {line : Text}

theorem events_openingFence {c : Context} {tag : Text} (hc : c ≠ fenced)
    (h : Line.openingFence? line = some tag) (rest : List Text) :
    c.events (line :: rest) =
      c.closing ++ .codeStart (Reading.languageOfTag tag) :: fenced.events rest := by
  have hread (behind : Option Text) :
      c.read line behind = .openingFence (Reading.languageOfTag tag) := by simp [read, hc, h]
  rw [events, next, hread, hread]
  simp [step]

/-- Inside a fence lines are taken as they stand. -/
theorem events_fencedCode {code : List Text} (h : ∀ line ∈ code, ¬Line.isClosingFence line)
    (rest : List Text) :
    fenced.events (code ++ rest) = code.map .codeLine ++ fenced.events rest := by
  induction code with
  | nil => rfl
  | cons line code ih =>
    rw [List.forall_mem_cons] at h
    have hread (behind : Option Text) : fenced.read line behind = .fencedCode line := by
      simp [read, h.1]
    rw [List.cons_append, events, next, hread, hread]
    exact congrArg _ (ih h.2)

theorem events_closingFence (h : Line.isClosingFence line) (rest : List Text) :
    fenced.events (line :: rest) = .codeEnd :: idle.events rest := by
  have hread (behind : Option Text) : fenced.read line behind = .closingFence := by
    simp [read, h]
  rw [events, next, hread, hread]
  rfl

end Context

/-- The events of a text, numbers aside. -/
def eventsOf (markdown : Text) : List Event := (classify markdown).map NumberedEvent.event

theorem eventsOf_terminate {lines : List Text} (h : ∀ line ∈ lines, line.IsLine) :
    eventsOf (terminate lines) = Context.idle.events lines := by
  rw [eventsOf, classify, lines_terminate h, events_classifyFrom]

section

variable {before code behind : List Text} {opening closing tag : Text}

theorem events_fenced (hbefore : Context.idle.after before ≠ .fenced)
    (hopening : Line.openingFence? opening = some tag)
    (hcode : ∀ line ∈ code, ¬Line.isClosingFence line) (hclosing : Line.isClosingFence closing) :
    Context.idle.events (before ++ opening :: (code ++ closing :: behind)) =
      Context.idle.events before ++
        .codeStart (Reading.languageOfTag tag) ::
          (code.map .codeLine ++ .codeEnd :: Context.idle.events behind) := by
  have hseparator : (some opening).any Line.isSeparator = none.any Line.isSeparator := by
    rw [Option.any_some, Option.any_none, ← Bool.not_eq_true]
    intro h
    rw [Line.openingFence?_of_isSeparator h] at hopening
    simp at hopening
  rw [Context.events_append, List.head?_cons, Context.eventsBefore_congr _ hseparator,
    Context.events_openingFence hbefore hopening, Context.events_fencedCode hcode,
    Context.events_closingFence hclosing, Context.events_eq_eventsBefore _ before,
    List.append_assoc]

/-- **Fences isolate.** Where no fence is open, a fenced block adds the events of a code block with
its lines as they stand, between the events of the lines before it and of the lines behind it, each
on their own; and likewise the document. -/
theorem fence_isolates
    (hlines : ∀ line ∈ before ++ opening :: (code ++ closing :: behind), line.IsLine)
    (hbefore : Context.idle.after before ≠ .fenced)
    (hopening : Line.openingFence? opening = some tag)
    (hcode : ∀ line ∈ code, ¬Line.isClosingFence line) (hclosing : Line.isClosingFence closing) :
    eventsOf (terminate (before ++ opening :: (code ++ closing :: behind))) =
        eventsOf (terminate before) ++
          .codeStart (Reading.languageOfTag tag) ::
            (code.map .codeLine ++ .codeEnd :: eventsOf (terminate behind)) ∧
      (Document.ofMarkdown
          (terminate (before ++ opening :: (code ++ closing :: behind)))).content =
        (Document.ofMarkdown (terminate before)).content ++
          .codeBlock (Reading.languageOfTag tag) [.plain (unlines code)] ::
            (Document.ofMarkdown (terminate behind)).content := by
  have hlinesBefore : ∀ line ∈ before, line.IsLine :=
    fun line h => hlines line (List.mem_append_left _ h)
  have hlinesBehind : ∀ line ∈ behind, line.IsLine := fun line h => hlines line (by simp [h])
  have hevents : eventsOf (terminate (before ++ opening :: (code ++ closing :: behind))) =
      eventsOf (terminate before) ++ ((Block.code (Reading.languageOfTag tag) code).events ++
        eventsOf (terminate behind)) := by
    rw [eventsOf_terminate hlines, eventsOf_terminate hlinesBefore,
      eventsOf_terminate hlinesBehind, events_fenced hbefore hopening hcode hclosing]
    simp [Block.events]
  constructor
  · simpa [Block.events] using hevents
  · have hcomplete : Complete (eventsOf (terminate before)) := complete_classify _
    show OpenBlock.none.blocks (eventsOf _) = _
    rw [hevents, OpenBlock.blocks_append hcomplete, OpenBlock.blocks_events_append]
    rfl

end

/-- A fence behind a nested list and in front of a quote, around lines that would be a heading and
the row of a table elsewhere. -/
theorem fence_isolates_list_and_quote :
    Context.idle.after ["- a".toList, "  - b".toList] ≠ .fenced ∧
      eventsOf (terminate ["- a".toList, "  - b".toList, "```py".toList, "# c".toList,
          "| d |".toList, " ````".toList, "> e".toList]) =
        eventsOf (terminate ["- a".toList, "  - b".toList]) ++
          .codeStart (Reading.languageOfTag "py".toList) ::
            (["# c".toList, "| d |".toList].map .codeLine ++
              .codeEnd :: eventsOf (terminate ["> e".toList])) ∧
      (Document.ofMarkdown (terminate ["- a".toList, "  - b".toList, "```py".toList, "# c".toList,
          "| d |".toList, " ````".toList, "> e".toList])).content =
        (Document.ofMarkdown (terminate ["- a".toList, "  - b".toList])).content ++
          .codeBlock (Reading.languageOfTag "py".toList)
              [.plain (unlines ["# c".toList, "| d |".toList])] ::
            (Document.ofMarkdown (terminate ["> e".toList])).content :=
  ⟨by decide, @fence_isolates ["- a".toList, "  - b".toList] ["# c".toList, "| d |".toList]
    ["> e".toList] "```py".toList " ````".toList "py".toList (by decide) (by decide) (by decide)
    (by decide) (by decide)⟩

end TicketMarkup
