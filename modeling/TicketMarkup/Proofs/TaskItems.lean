import TicketMarkup.Proofs.BlockTranslation
import TicketMarkup.Proofs.Escapes
import TicketMarkup.Proofs.MarkedText
import TicketMarkup.Proofs.SourceLines
import TicketMarkup.Wiki

/-!
# Items with a checkbox

`task_item_text`: the text of a task item is its checkbox, blanks and the body of the task; its runs
are those of the body with the checkbox as plain text in front. So the item of a document shows the
checkbox and then what the wiki markup of the item renders.

1. A checkbox looks like the label of a link, but blanks stand behind its bracket. The attempt to
   read a link there rules out openings up to that bracket only, so nothing is ruled out behind the
   blanks (`pieces_checkbox_append`).
2. What can start after a blank can start at the head of a text, and nothing else can
   (`piecesFrom_blanks_append`).
3. The body starts with a character that is not blank, so the checkbox plays no part in the break at
   the end of the line (`Run.ofLine_checkbox_append`).
-/

namespace TicketMarkup

open Text

/-- A checkbox as it is written: its mark between brackets, and the blanks behind it. -/
structure Checkbox where
  mark : Char
  gap : Text
  mark_mem : mark ∈ [' ', 'x', 'X']
  gap_ne_nil : gap ≠ []
  gap_blank : gap.isBlank

namespace Checkbox

/-- The text of a checkbox. -/
def text (box : Checkbox) : Text := '[' :: box.mark :: ']' :: box.gap

/-- A box with any mark but a space is checked. -/
def isChecked (box : Checkbox) : Bool := box.mark != ' '

theorem text_ne_nil (box : Checkbox) : box.text ≠ [] := List.cons_ne_nil _ _

end Checkbox

/-- A task is read off a checkbox with its body behind it, which does not start with a blank. -/
theorem Line.exists_checkbox_of_task? {text : Text} {task : Task} (h : task? text = some task) :
    ∃ box : Checkbox, task.checked = box.isChecked ∧ text = box.text ++ task.body ∧
      ∀ c ∈ task.body.head?, ¬TicketMarkup.isBlank c := by
  unfold task? at h
  split at h
  · next mark rest =>
    split_ifs at h with hbox
    obtain rfl := Option.some.inj h
    obtain ⟨hmark, hgap⟩ := hbox
    have hne : rest.takeWhile TicketMarkup.isBlank ≠ [] := by
      cases rest with
      | nil => simp at hgap
      | cons c rest => simpa using hgap
    let box : Checkbox :=
      ⟨mark, rest.takeWhile TicketMarkup.isBlank, hmark, hne, List.all_takeWhile⟩
    refine ⟨box, rfl, ?_, ?_⟩
    · show _ = '[' :: mark :: ']' :: (rest.takeWhile _ ++ rest.dropWhile _)
      rw [List.takeWhile_append_dropWhile]
    · exact fun c hc => not_of_mem_head?_dropWhile hc
  · simp at h

/-! ## The pieces behind a checkbox -/

section

variable {prev prev' : Option Char}

theorem Piece.firstDelimited?_congr_prev
    (h : ∀ d : Delimiter, prev.any d.bindsTo = prev'.any d.bindsTo) (m : Memory) (t : Text)
    (ds : List Delimiter) : firstDelimited? m prev t ds = firstDelimited? m prev' t ds := by
  induction ds generalizing m with
  | nil => rfl
  | cons d rest ih =>
    have hattempt : delimited? m prev t d = delimited? m prev' t d := by
      rw [delimited?, delimited?, Delimiter.opens, Delimiter.opens, h d]
    rw [firstDelimited?, firstDelimited?, hattempt]
    split
    · rfl
    · exact ih _

theorem Piece.markup?_congr_prev (h : ∀ d : Delimiter, prev.any d.bindsTo = prev'.any d.bindsTo)
    (m : Memory) (t : Text) : markup? m prev t = markup? m prev' t := by
  unfold markup?
  split
  · rfl
  · rfl
  · rfl
  · rfl
  · exact firstDelimited?_congr_prev h m _ _
  · rfl

/-- Of the character before a text it matters only which delimiters it keeps from opening. -/
theorem piecesFrom_congr_prev (h : ∀ d : Delimiter, prev.any d.bindsTo = prev'.any d.bindsTo)
    (m : Memory) (t : Text) : piecesFrom m prev t = piecesFrom m prev' t := by
  cases t with
  | nil => rw [piecesFrom, piecesFrom]
  | cons c rest =>
    have hfirst : Piece.first m prev c rest = Piece.first m prev' c rest := by
      rw [Piece.first, Piece.first, Piece.markup?_congr_prev h]
    rw [piecesFrom, piecesFrom, hfirst]

end

/-- Characters that are no punctuation are pieces of their own. -/
theorem piecesFrom_append_of_not_isPunctuation {s : Text} (hs : ∀ c ∈ s, ¬isPunctuation c)
    (m : Memory) (prev : Option Char) (t : Text) :
    piecesFrom m prev (s ++ t) =
      s.map .literal ++ piecesFrom (m.advance s.length) (s.getLast?.or prev) t := by
  have hescape : escape s = s := by
    induction s with
    | nil => rfl
    | cons c s ih =>
      rw [List.forall_mem_cons] at hs
      rw [escape_cons_of_not_isPunctuation hs.1, ih hs.2]
  have hpieces : s.map Piece.ofEscaped = s.map .literal :=
    List.map_congr_left fun c hc => if_neg (hs c hc)
  have happend := piecesFrom_escape_append m prev s t
  rwa [hescape, hpieces] at happend

/-- Behind blanks pieces are cut as at the head of a text. -/
theorem piecesFrom_blanks_append {blanks : Text} (hne : blanks ≠ []) (hblank : blanks.isBlank)
    (m : Memory) (prev : Option Char) (t : Text) :
    piecesFrom m prev (blanks ++ t) =
      blanks.map .literal ++ piecesFrom (m.advance blanks.length) none t := by
  have hblanks := List.all_eq_true.1 hblank
  have hprev (d : Delimiter) :
      (blanks.getLast?.or prev).any d.bindsTo = (none : Option Char).any d.bindsTo := by
    obtain ⟨last, hlast⟩ : ∃ last, blanks.getLast? = some last :=
      ⟨_, List.getLast?_eq_some_getLast hne⟩
    rw [hlast, Option.some_or, Option.any_some, Option.any_none]
    exact Delimiter.bindsTo_eq_false fun h =>
      not_isBlank_of_isAlphanumeric h (hblanks last (List.mem_of_getLast? hlast))
  rw [piecesFrom_append_of_not_isPunctuation, piecesFrom_congr_prev hprev]
  exact fun c hc hpunctuation => not_isBlank_of_isPunctuation hpunctuation (hblanks c hc)

/-- The bracket of a checkbox opens no link, and rules out openings up to the other bracket. -/
theorem Piece.first_checkbox {mark gap : Char} (hmark : mark ≠ ']') (hgap : gap ≠ '(') (t : Text) :
    first .empty none '[' (mark :: ']' :: gap :: t) =
      (.literal '[', Memory.empty.fail .link 2) := by
  have hread : Reference.read? .link ('[' :: mark :: ']' :: gap :: t) = none := by
    simp [Reference.read?, hmark, hgap]
  have hlength : Reference.failureLength ('[' :: mark :: ']' :: gap :: t) = 2 := by
    simp [Reference.failureLength, hmark, hgap]
  rw [first, markup?, reference?]
  simp [Memory.empty, Memory.dead, ReferenceKind.mark, hread, hlength]

theorem piecesFrom_of_first_literal {m m' : Memory} {prev : Option Char} {c : Char} {rest : Text}
    (h : Piece.first m prev c rest = (.literal c, m')) :
    piecesFrom m prev (c :: rest) = .literal c :: piecesFrom (m'.advance 1) (some c) rest := by
  rw [piecesFrom, h]
  rfl

/-- The characters of a checkbox are pieces of their own, and the pieces behind it are those of the
text behind it. -/
theorem pieces_checkbox_append (box : Checkbox) (t : Text) :
    pieces (box.text ++ t) = box.text.map .literal ++ pieces t := by
  obtain ⟨mark, gap, hmark, hne, hblank⟩ := box
  obtain ⟨g, gap, rfl⟩ := List.exists_cons_of_ne_nil hne
  have hplain : ¬isPunctuation mark ∧ mark ≠ ']' := by
    simp only [List.mem_cons, List.not_mem_nil, or_false] at hmark
    rcases hmark with rfl | rfl | rfl <;> decide
  have hparenthesis : g ≠ '(' := by
    rintro rfl
    exact absurd (List.all_eq_true.1 hblank '(' List.mem_cons_self) (by decide)
  have hbracket (m : Memory) (prev : Option Char) (rest : Text) :
      Piece.first m prev ']' rest = (.literal ']', m) := rfl
  have hmarkPieces (m : Memory) (prev : Option Char) (rest : Text) :
      Piece.first m prev mark rest = (.literal mark, m) :=
    Piece.first_of_not_isPunctuation hplain.1 m prev rest
  have hmemory : ((((Memory.empty.fail .link 2).advance 1).advance 1).advance 1).advance
      (g :: gap).length = .empty := by simp [Memory.advance, Memory.fail, Memory.empty]
  have hfirst : Piece.first .empty none '[' (mark :: ']' :: (g :: gap ++ t)) =
      (.literal '[', Memory.empty.fail .link 2) :=
    Piece.first_checkbox hplain.2 hparenthesis (gap ++ t)
  show piecesFrom .empty none ('[' :: mark :: ']' :: (g :: gap ++ t)) = _
  rw [piecesFrom_of_first_literal hfirst, piecesFrom_of_first_literal (hmarkPieces _ _ _),
    piecesFrom_of_first_literal (hbracket _ _ _), piecesFrom_blanks_append hne hblank, hmemory]
  rfl

/-! ## The runs behind a checkbox -/

namespace Run

/-- Puts a text in front of runs, into their first text if they start with one. -/
def consText (t : Text) : List Run → List Run
  | text u :: rest => text (t ++ u) :: rest
  | runs => text t :: runs

theorem foldr_consChar_eq_consText {t : Text} (ht : t ≠ []) (runs : List Run) :
    t.foldr consChar runs = consText t runs := by
  induction t with
  | nil => exact absurd rfl ht
  | cons c t ih =>
    cases t with
    | nil => rcases runs with _ | ⟨_ | _, runs⟩ <;> rfl
    | cons d t =>
      rw [List.foldr_cons, ih (List.cons_ne_nil d t)]
      rcases runs with _ | ⟨_ | _, runs⟩ <;> rfl

theorem consText_append_lineBreak (t : Text) (runs : List Run) :
    consText t (runs ++ [lineBreak]) = consText t runs ++ [lineBreak] := by
  rcases runs with _ | ⟨_ | _, runs⟩ <;> rfl

theorem ofText_checkbox_append (box : Checkbox) (t : Text) :
    ofText (box.text ++ t) = consText box.text (ofText t) := by
  rw [ofText_eq, pieces_checkbox_append, List.foldr_append, List.foldr_map, ← ofText_eq]
  exact foldr_consChar_eq_consText box.text_ne_nil _

/-- A checkbox in front of a body that does not start with a blank is plain text in front of its
runs. -/
theorem ofLine_checkbox_append (box : Checkbox) {body : Text}
    (hbody : ∃ c ∈ body.head?, ¬TicketMarkup.isBlank c) :
    ofLine (box.text ++ body) = consText box.text (ofLine body) := by
  obtain ⟨c, hc, hunblank⟩ := hbody
  have hmem : c ∈ body := List.mem_of_mem_head? hc
  have hblank (front : Text) : ¬(front ++ body).isBlank :=
    fun h => hunblank (List.all_eq_true.1 h c (List.mem_append_right _ hmem))
  have hbody : ¬body.isBlank := hblank []
  have hsuffix : [' ', ' '] <:+ box.text ++ body ↔ [' ', ' '] <:+ body := by
    constructor
    · intro h
      rcases List.suffix_or_suffix_of_suffix h (List.suffix_append box.text body) with h | h
      · exact h
      · -- A shorter body would start with one of the spaces.
        have hspace : c = ' ' := by simpa using h.subset hmem
        exact absurd (hspace ▸ by decide) hunblank
    · exact fun h => h.trans (List.suffix_append _ _)
  have hbreak : ([' ', ' '].isSuffixOf (box.text ++ body) && !(box.text ++ body).isBlank) =
      ([' ', ' '].isSuffixOf body && !body.isBlank) := by
    rw [Bool.eq_false_iff.2 (hblank box.text), Bool.eq_false_iff.2 hbody, Bool.eq_iff_iff]
    simpa [List.isSuffixOf_iff_suffix] using hsuffix
  unfold ofLine
  rw [hbreak, trimEnd_append_of_not_isBlank box.text hbody, ofText_checkbox_append,
    ofText_checkbox_append]
  split
  · rw [consText_append_lineBreak]
  · rfl

end Run

/-! ## Both targets -/

namespace Node

theorem consJoined_consJoined {t : Text} (ht : t ≠ []) (u : Text) (marks : List Mark)
    (rest : List Node) :
    consJoined (text t marks) (consJoined (text u marks) rest) =
      consJoined (text (t ++ u) marks) rest := by
  obtain ⟨c, t, rfl⟩ := List.exists_cons_of_ne_nil ht
  cases u with
  | nil => rw [List.append_nil]; rfl
  | cons d u =>
    by_cases hjoins : ∃ v more, rest = text v marks :: more
    · obtain ⟨v, more, rfl⟩ := hjoins
      rw [consJoined_text (List.cons_ne_nil d u), consJoined_text ht,
        consJoined_text (List.append_ne_nil_of_left_ne_nil ht _), List.append_assoc]
    · have hapart : ∀ v marks', rest.head? = some (text v marks') → marks ≠ marks' := by
        rintro v _ hhead rfl
        exact hjoins ⟨v, rest.tail, (List.cons_head?_tail hhead).symm⟩
      rw [consJoined_of_apart (List.cons_ne_nil d u) hapart, consJoined_text ht,
        consJoined_of_apart (by simp) hapart]

/-- A text in front of runs is a text node in front of theirs, joined with the first of them if that
is a text without marks. -/
theorem ofRuns_consText {t : Text} (ht : t ≠ []) (runs : List Run) :
    ofRuns (Run.consText t runs) = consJoined (plain t) (ofRuns runs) := by
  rcases runs with _ | ⟨run, runs⟩
  · rfl
  · cases run with
    | text u => exact (consJoined_consJoined ht u [] _).symm
    | _ => rfl

theorem consJoined_ne_nil {t : Text} (ht : t ≠ []) (marks : List Mark) (rest : List Node) :
    consJoined (text t marks) rest ≠ [] := by
  obtain ⟨c, t, rfl⟩ := List.exists_cons_of_ne_nil ht
  unfold consJoined
  split
  · next heq => simp at heq
  · split_ifs <;> simp
  · simp

end Node

/-- The task of an item is the one that is read off its text; numbered items have none. -/
theorem task_of_mem_classify {markdown : Text} {number : Nat} {item : ListItem} {task : Task}
    (h : ⟨number, .listItem item⟩ ∈ classify markdown) (htask : item.task = some task) :
    item.ordered = false ∧ Line.task? item.text = some task := by
  obtain ⟨i, hi, -, hown⟩ := exists_read_of_mem_classify h rfl
  generalize Context.idle.after (markdown.lines.take i) = c at hown
  cases hread : c.read markdown.lines[i] markdown.lines[i + 1]? with
  | item indent ordered text =>
    rw [hread] at hown
    obtain rfl : c.item indent ordered text = item := by simpa [Context.own?] using hown
    simp only [Context.item] at htask ⊢
    split_ifs at htask with hordered
    exact ⟨by simpa using hordered, htask⟩
  | _ => simp [hread, Context.own?] at hown

/-- **Task items.** The text of a task item is a checkbox with the body behind it, and its runs are
those of the body with the checkbox as plain text in front. So an item of a document shows the
checkbox and then the runs of the body, and these are what the item renders in wiki markup. -/
theorem task_item_text {markdown : Text} {number : Nat} {item : ListItem} {task : Task}
    (h : ⟨number, .listItem item⟩ ∈ classify markdown) (htask : item.task = some task)
    (hbody : task.body ≠ []) :
    ∃ box : Checkbox, task.checked = box.isChecked ∧ item.text = box.text ++ task.body ∧
      Run.ofLine item.text = Run.consText box.text (Run.ofLine task.body) ∧
      (∀ lists, item.node lists = .container .listItem (.container .paragraph
          (Node.consJoined (.plain box.text) (Node.ofRuns (Run.ofLine task.body))) :: lists)) ∧
      Wiki.ofListItem item = List.replicate item.depth '*' ++ [' '] ++
        (if task.checked then "(/) ".toList else []) ++ Wiki.ofRuns (Run.ofLine task.body) := by
  obtain ⟨hordered, hread⟩ := task_of_mem_classify h htask
  obtain ⟨box, hchecked, htext, hhead⟩ := Line.exists_checkbox_of_task? hread
  obtain ⟨c, body, hcons⟩ := List.exists_cons_of_ne_nil hbody
  have hruns : Run.ofLine item.text = Run.consText box.text (Run.ofLine task.body) := by
    have hfirst : c ∈ task.body.head? := by rw [hcons]; rfl
    rw [htext, Run.ofLine_checkbox_append box ⟨c, hfirst, hhead c hfirst⟩]
  have hnodes : Node.ofLine item.text =
      Node.consJoined (.plain box.text) (Node.ofRuns (Run.ofLine task.body)) := by
    rw [Node.ofLine, hruns, Node.ofRuns_consText box.text_ne_nil, Node.orEmptyText, if_neg]
    simpa [Node.plain] using Node.consJoined_ne_nil box.text_ne_nil [] _
  refine ⟨box, hchecked, htext, hruns, fun lists => ?_, ?_⟩
  · rw [ListItem.node, Node.paragraphOfLine, hnodes]
  · obtain ⟨checked, body⟩ := task
    cases checked <;> simp [Wiki.ofListItem, htask, hordered, Wiki.ofInline]

/-- The body of a task that starts and ends with markup, with a break at the end of the line. -/
theorem task_item_text_with_markup :
    ⟨1, .listItem ⟨1, false, "[X]  _a_ [b](c)  ".toList, some ⟨true, "_a_ [b](c)  ".toList⟩⟩⟩ ∈
        classify "- [X]  _a_ [b](c)  ".toList ∧
      ∃ box : Checkbox, "[X]  _a_ [b](c)  ".toList = box.text ++ "_a_ [b](c)  ".toList ∧
        Run.ofLine "[X]  _a_ [b](c)  ".toList =
          Run.consText box.text (Run.ofLine "_a_ [b](c)  ".toList) := by
  have h : ⟨1, .listItem ⟨1, false, "[X]  _a_ [b](c)  ".toList,
      some ⟨true, "_a_ [b](c)  ".toList⟩⟩⟩ ∈ classify "- [X]  _a_ [b](c)  ".toList := by
    decide +kernel
  obtain ⟨box, -, htext, hruns, -⟩ := task_item_text h rfl (by decide)
  exact ⟨h, box, htext, hruns⟩

end TicketMarkup
