import TicketMarkup.Block.Classify
import Mathlib.Tactic.SplitIfs

/-!
# Contexts along the lines

The context in which a line is read is found by going through the lines before it
(`Context.after`). The line behind it tells header rows from other rows and nothing else
(`read_congr`), so it has no part in the contexts (`step_read_snd`). The events of lines are those
of the first lines followed by those that the other lines have in the context left by them
(`events_append`).
-/

namespace TicketMarkup

namespace Context

/-- The context after a line. -/
def next (c : Context) (line : Text) : Context := (c.step (c.read line none)).2

/-- The context after lines. -/
def after (c : Context) (lines : List Text) : Context := lines.foldl next c

theorem after_take_succ (c : Context) {lines : List Text} {i : Nat} (h : i < lines.length) :
    c.after (lines.take (i + 1)) = (c.after (lines.take i)).next lines[i] := by
  rw [List.take_succ_eq_append_getElem h, after, List.foldl_append]
  rfl

/-- Of the line behind a line it matters only whether it is a separator. -/
theorem read_congr (c : Context) (line : Text) {behind behind' : Option Text}
    (h : behind.any Line.isSeparator = behind'.any Line.isSeparator) :
    c.read line behind = c.read line behind' := by
  simp only [read, Reading.ofLine, h]

theorem step_ofLine_snd (c : Context) (tableOpen : Bool) (line : Text)
    (behind behind' : Option Text) :
    (c.step (Reading.ofLine tableOpen line behind)).2 =
      (c.step (Reading.ofLine tableOpen line behind')).2 := by
  unfold Reading.ofLine
  split
  · rfl
  · split_ifs <;> rfl

theorem step_read_snd (c : Context) (line : Text) (behind : Option Text) :
    (c.step (c.read line behind)).2 = c.next line := by
  unfold next read
  split
  · rfl
  · split
    · rfl
    · split
      · split
        · exact c.step_ofLine_snd false line behind none
        · rfl
      · exact c.step_ofLine_snd _ line behind none

/-- The events of lines, and of the end of what they leave open. -/
def events (c : Context) : List Text → List Event
  | [] => c.closing
  | line :: rest => (c.step (c.read line rest.head?)).1 ++ (c.next line).events rest

/-- The events of lines that the line `behind` follows: nothing is closed at their end. -/
def eventsBefore (c : Context) (behind : Option Text) : List Text → List Event
  | [] => []
  | line :: rest =>
    (c.step (c.read line (rest.head?.or behind))).1 ++ (c.next line).eventsBefore behind rest

theorem events_append (c : Context) (front back : List Text) :
    c.events (front ++ back) =
      c.eventsBefore back.head? front ++ (c.after front).events back := by
  induction front generalizing c with
  | nil => rfl
  | cons line rest ih =>
    rw [List.cons_append, events, List.head?_append, ih, eventsBefore, List.append_assoc]
    rfl

theorem events_eq_eventsBefore (c : Context) (lines : List Text) :
    c.events lines = c.eventsBefore none lines ++ (c.after lines).closing := by
  simpa [events] using c.events_append lines []

theorem eventsBefore_congr (c : Context) {behind behind' : Option Text}
    (h : behind.any Line.isSeparator = behind'.any Line.isSeparator) (lines : List Text) :
    c.eventsBefore behind lines = c.eventsBefore behind' lines := by
  induction lines generalizing c with
  | nil => rfl
  | cons line rest ih =>
    have hread : c.read line (rest.head?.or behind) = c.read line (rest.head?.or behind') := by
      cases rest with
      | nil => exact c.read_congr line h
      | cons => rfl
    rw [eventsBefore, eventsBefore, hread, ih]

end Context

theorem classifyFrom_cons (c : Context) (count : Nat) (line : Text) (rest : List Text) :
    classifyFrom c count (line :: rest) =
      (c.step (c.read line rest.head?)).1.map (⟨count + 1, ·⟩) ++
        classifyFrom (c.next line) (count + 1) rest := by
  rw [← c.step_read_snd line rest.head?]
  rfl

theorem events_classifyFrom (c : Context) (count : Nat) (lines : List Text) :
    (classifyFrom c count lines).map NumberedEvent.event = c.events lines := by
  induction lines generalizing c count with
  | nil =>
    rw [classifyFrom, List.map_map]
    exact List.map_id _
  | cons line rest ih =>
    rw [classifyFrom_cons, List.map_append, ih, List.map_map, Context.events]
    congr 1
    exact List.map_id _

end TicketMarkup
