import TicketMarkup.Text.Lines
import Mathlib.Data.List.DropRight
import Mathlib.Data.List.Infix
import Mathlib.Data.List.TakeWhile
import Mathlib.Tactic.SplitIfs

/-!
# Parts of texts

Trimming and cutting lose characters only at the ends of a piece and at the separators: every
result is a contiguous part of its text. What is cut at a character does not contain it, so no
line has a line feed; what is trimmed does not end in a blank.
-/

namespace TicketMarkup.Text

section

variable {α : Type} {p : α → Bool} {front : List α} {a : α}

/-- A list is cut behind the part that has a property, in front of a member that has not. -/
theorem takeWhile_append_cons (hfront : ∀ b ∈ front, p b) (ha : ¬p a) (rest : List α) :
    (front ++ a :: rest).takeWhile p = front := by
  rw [List.takeWhile_append_of_pos hfront, List.takeWhile_cons_of_neg ha, List.append_nil]

theorem dropWhile_append_cons (hfront : ∀ b ∈ front, p b) (ha : ¬p a) (rest : List α) :
    (front ++ a :: rest).dropWhile p = a :: rest := by
  rw [List.dropWhile_append_of_pos hfront, List.dropWhile_cons_of_neg ha]

theorem not_of_mem_head?_dropWhile {l : List α} (h : a ∈ (l.dropWhile p).head?) : ¬p a := by
  have hnot := List.head?_dropWhile_not p l
  rw [Option.mem_def.1 h] at hnot
  simpa using hnot

end

variable {t piece : Text}

/-! ## Trimming -/

theorem trimStart_isSuffix (t : Text) : t.trimStart <:+ t := List.dropWhile_suffix _

theorem dropEndWhile_isPrefix (p : Char → Bool) (t : Text) : dropEndWhile p t <+: t := by
  rw [← List.reverse_suffix, dropEndWhile, List.reverse_reverse]
  exact List.dropWhile_suffix p

theorem trimEnd_isPrefix (t : Text) : t.trimEnd <+: t := dropEndWhile_isPrefix _ t

theorem trim_isInfix (t : Text) : t.trim <:+: t :=
  (trimEnd_isPrefix _).isInfix.trans (trimStart_isSuffix t).isInfix

theorem dropSuffix_isPrefix (ending t : Text) : dropSuffix ending t <+: t := by
  unfold dropSuffix
  split_ifs
  · exact List.take_prefix _ t
  · exact List.prefix_rfl

/-- A text whose last character, if any, is not blank. -/
def EndsUnblank (t : Text) : Prop := ∀ c ∈ t.getLast?, ¬TicketMarkup.isBlank c

theorem endsUnblank_trimEnd (t : Text) : EndsUnblank t.trimEnd := by
  intro c hc
  rw [trimEnd, dropEndWhile, List.getLast?_reverse] at hc
  exact not_of_mem_head?_dropWhile hc

theorem endsUnblank_trim (t : Text) : EndsUnblank t.trim := endsUnblank_trimEnd _

/-- Only characters with the property are dropped at the end. -/
theorem exists_dropEndWhile_append (p : Char → Bool) (t : Text) :
    ∃ ending : Text, (∀ c ∈ ending, p c) ∧ dropEndWhile p t ++ ending = t :=
  ⟨t.rtakeWhile p, fun _ => List.mem_rtakeWhile_imp, List.rdropWhile_append_rtakeWhile⟩

/-- Only blanks are trimmed at the end. -/
theorem exists_trimEnd_append (t : Text) : ∃ blanks, isBlank blanks ∧ t.trimEnd ++ blanks = t := by
  obtain ⟨blanks, hblanks, heq⟩ := exists_dropEndWhile_append TicketMarkup.isBlank t
  exact ⟨blanks, List.all_eq_true.2 hblanks, heq⟩

theorem trimEnd_of_endsUnblank (h : EndsUnblank t) : t.trimEnd = t :=
  List.rdropWhile_eq_self_iff.2 fun hne => h _ (List.getLast?_eq_some_getLast hne)

theorem trimStart_of_head_unblank (h : ∀ c ∈ t.head?, ¬TicketMarkup.isBlank c) :
    t.trimStart = t := by
  cases t with
  | nil => rfl
  | cons c rest => exact List.dropWhile_cons_of_neg (h c rfl)

theorem trimStart_of_isBlank (h : isBlank t) : t.trimStart = [] :=
  List.dropWhile_eq_nil_iff.2 (List.all_eq_true.1 h)

theorem dropEndWhile_append_of_forall {p : Char → Bool} (t : Text) {ending : Text}
    (h : ∀ c ∈ ending, p c) : dropEndWhile p (t ++ ending) = dropEndWhile p t := by
  rw [dropEndWhile, List.reverse_append,
    List.dropWhile_append_of_pos fun c hc => h c (List.mem_reverse.1 hc)]
  rfl

theorem trimEnd_append_of_isBlank (t : Text) {blanks : Text} (h : isBlank blanks) :
    trimEnd (t ++ blanks) = t.trimEnd :=
  dropEndWhile_append_of_forall t (List.all_eq_true.1 h)

/-- What stands before a text that is not blank is not trimmed at the end. -/
theorem trimEnd_append_of_not_isBlank (front : Text) (h : ¬isBlank t) :
    trimEnd (front ++ t) = front ++ t.trimEnd := by
  obtain ⟨blanks, hblanks, heq⟩ := exists_trimEnd_append t
  have hend : EndsUnblank (front ++ t.trimEnd) := by
    rw [EndsUnblank, List.getLast?_append]
    cases hlast : t.trimEnd.getLast? with
    | none =>
      rw [List.getLast?_eq_none_iff.1 hlast, List.nil_append] at heq
      exact absurd (heq ▸ hblanks) h
    | some last => exact fun d hd => endsUnblank_trimEnd t d (hlast.trans hd)
  conv_lhs => rw [← heq, ← List.append_assoc, trimEnd_append_of_isBlank _ hblanks]
  exact trimEnd_of_endsUnblank hend

/-- Blanks behind a text are trimmed. -/
theorem trim_append_of_isBlank (t : Text) {blanks : Text} (h : isBlank blanks) :
    trim (t ++ blanks) = t.trim := by
  unfold trim trimStart
  rw [List.dropWhile_append]
  split_ifs with hempty
  · have hblanks : (blanks ++ []).dropWhile TicketMarkup.isBlank = [] :=
      List.dropWhile_append_of_pos (List.all_eq_true.1 h)
    rw [List.append_nil] at hblanks
    rw [List.isEmpty_iff.1 hempty, hblanks]
  · exact trimEnd_append_of_isBlank _ h

/-- What is trimmed does not start with a blank. -/
theorem not_isBlank_of_mem_head?_trim {c : Char} (h : c ∈ t.trim.head?) :
    ¬TicketMarkup.isBlank c := by
  obtain ⟨rest, heq⟩ := trimEnd_isPrefix t.trimStart
  have hhead : t.trimStart.head? = some c := by
    rw [← heq, List.head?_append, ← trim, Option.mem_def.1 h, Option.some_or]
  exact not_of_mem_head?_dropWhile hhead

theorem trim_of_unblank (hhead : ∀ c ∈ t.head?, ¬TicketMarkup.isBlank c) (hend : EndsUnblank t) :
    t.trim = t := by
  rw [trim, trimStart_of_head_unblank hhead, trimEnd_of_endsUnblank hend]

theorem trim_trim (t : Text) : t.trim.trim = t.trim :=
  trim_of_unblank (fun _ => not_isBlank_of_mem_head?_trim) (endsUnblank_trim t)

/-! ## Cutting at a separator -/

/-- Cutting gives at least one piece; the first is the beginning of the text, the others lie
further on in it. -/
theorem exists_splitOn_eq_cons (sep : Char) (t : Text) :
    ∃ first rest, splitOn sep t = first :: rest ∧ first <+: t ∧ ∀ p ∈ rest, p <:+: t := by
  induction t with
  | nil => exact ⟨[], [], rfl, List.prefix_rfl, by simp⟩
  | cons c t ih =>
    obtain ⟨first, rest, heq, hfirst, hrest⟩ := ih
    have hlater (p : Text) (hp : p <:+: t) : p <:+: c :: t :=
      hp.trans (List.suffix_cons c t).isInfix
    rw [splitOn, heq]
    split_ifs
    · refine ⟨[], first :: rest, rfl, List.nil_prefix, fun p hp => hlater p ?_⟩
      rcases List.mem_cons.1 hp with rfl | hp
      · exact hfirst.isInfix
      · exact hrest p hp
    · exact ⟨c :: first, rest, rfl, List.cons_prefix_cons.2 ⟨rfl, hfirst⟩,
        fun p hp => hlater p (hrest p hp)⟩

theorem splitOn_ne_nil (sep : Char) (t : Text) : splitOn sep t ≠ [] := by
  obtain ⟨first, rest, heq, -⟩ := exists_splitOn_eq_cons sep t
  simp [heq]

theorem infix_of_mem_splitOn {sep : Char} (h : piece ∈ splitOn sep t) : piece <:+: t := by
  obtain ⟨first, rest, heq, hfirst, hrest⟩ := exists_splitOn_eq_cons sep t
  rw [heq] at h
  rcases List.mem_cons.1 h with rfl | h
  · exact hfirst.isInfix
  · exact hrest piece h

theorem not_mem_of_mem_splitOn {sep : Char} (h : piece ∈ splitOn sep t) : sep ∉ piece := by
  induction t generalizing piece with
  | nil =>
    rw [splitOn, List.mem_singleton] at h
    simp [h]
  | cons c t ih =>
    obtain ⟨first, rest, heq, -⟩ := exists_splitOn_eq_cons sep t
    rw [splitOn] at h
    split_ifs at h with hc
    · rcases List.mem_cons.1 h with rfl | h
      · simp
      · exact ih h
    · rw [heq, consFirst] at h
      rw [heq] at ih
      rcases List.mem_cons.1 h with rfl | h
      · have := ih (List.mem_cons_self ..)
        simp [Ne.symm hc, this]
      · exact ih (List.mem_cons_of_mem _ h)

/-! ## Lines -/

theorem newline_not_mem_ofNat (n : Nat) : '\n' ∉ ofNat n := fun hmem =>
  absurd (Nat.isDigit_of_mem_toDigits (by decide) (by decide) hmem) (by decide)

theorem exists_prefix_of_mem_closeLines {pieces : List Text} {line : Text}
    (h : line ∈ closeLines pieces) : ∃ p ∈ pieces, line <+: p := by
  fun_induction closeLines pieces with
  | case1 => simp at h
  | case2 last => exact absurd h (by simp)
  | case3 last hlast => exact ⟨last, by simp, by simp [List.mem_singleton.1 h]⟩
  | case4 p rest hrest ih =>
    rcases List.mem_cons.1 h with rfl | h
    · exact ⟨p, List.mem_cons_self .., dropSuffix_isPrefix _ p⟩
    · obtain ⟨q, hq, hpre⟩ := ih h
      exact ⟨q, List.mem_cons_of_mem _ hq, hpre⟩

theorem newline_not_mem_of_mem_lines {line : Text} (h : line ∈ lines t) : '\n' ∉ line := by
  obtain ⟨p, hp, hpre⟩ := exists_prefix_of_mem_closeLines h
  exact fun hline => not_mem_of_mem_splitOn hp (hpre.subset hline)

/-- A text that can be a line: it has no line feed and does not end in a carriage return, which
would belong to the line's end. -/
def IsLine (line : Text) : Prop := '\n' ∉ line ∧ line.getLast? ≠ some '\r'

instance : DecidablePred IsLine := fun line => by unfold IsLine; infer_instance

theorem isLine_trim {body : Text} (h : '\n' ∉ body) : IsLine body.trim := by
  refine ⟨fun hmem => h ((trim_isInfix body).subset hmem), fun hlast => ?_⟩
  exact endsUnblank_trim body '\r' hlast (by decide)

/-- What can be a line can also be the end of a line behind a space. -/
theorem isLine_append {front body : Text} (hfront : '\n' ∉ front) (hbody : body.IsLine) :
    IsLine (front ++ ' ' :: body) := by
  constructor
  · rw [List.mem_append, List.mem_cons, not_or, not_or]
    exact ⟨hfront, by decide, hbody.1⟩
  · rw [List.getLast?_append, List.getLast?_cons, Option.some_or]
    intro hlast
    cases hbodyLast : body.getLast? with
    | none =>
      rw [hbodyLast] at hlast
      exact absurd hlast (by decide)
    | some c =>
      rw [hbodyLast, Option.getD_some] at hlast
      exact hbody.2 (hbodyLast.trans hlast)

/-- A text behind a space is the end of a line if it is trimmed. -/
theorem isLine_append_trim {front body : Text} (hfront : '\n' ∉ front) (hbody : '\n' ∉ body) :
    IsLine (front ++ ' ' :: body.trim) :=
  isLine_append hfront (isLine_trim hbody)

/-- Lines with a line feed behind each. -/
def terminate (ls : List Text) : Text := ls.flatMap (· ++ ['\n'])

theorem splitOn_append_cons {sep : Char} {front : Text} (h : sep ∉ front) (back : Text) :
    splitOn sep (front ++ sep :: back) = front :: splitOn sep back := by
  induction front with
  | nil => simp [splitOn]
  | cons c front ih =>
    rw [List.mem_cons, not_or] at h
    rw [List.cons_append, splitOn, if_neg (Ne.symm h.1), ih h.2, consFirst]

theorem splitOn_of_not_mem {sep : Char} (h : sep ∉ t) : splitOn sep t = [t] := by
  induction t with
  | nil => rfl
  | cons c t ih =>
    rw [List.mem_cons, not_or] at h
    rw [splitOn, if_neg (Ne.symm h.1), ih h.2, consFirst]

theorem join_cons (sep t : Text) {rest : List Text} (h : rest ≠ []) :
    join sep (t :: rest) = t ++ sep ++ join sep rest := by
  cases rest with
  | nil => exact absurd rfl h
  | cons u rest => rfl

theorem mem_join {sep : Text} {pieces : List Text} {c : Char} (h : c ∈ join sep pieces) :
    c ∈ sep ∨ ∃ p ∈ pieces, c ∈ p := by
  induction pieces with
  | nil => exact absurd h List.not_mem_nil
  | cons piece rest ih =>
    by_cases hrest : rest = []
    · rw [hrest] at h
      exact .inr ⟨piece, List.mem_cons_self, h⟩
    · rw [join_cons _ _ hrest, List.mem_append, List.mem_append] at h
      rcases h with (h | h) | h
      · exact .inr ⟨piece, List.mem_cons_self, h⟩
      · exact .inl h
      · exact (ih h).imp_right fun ⟨p, hp, hc⟩ => ⟨p, List.mem_cons_of_mem piece hp, hc⟩

theorem flatMap_append_eq_join (sep : Text) {pieces : List Text} (hne : pieces ≠ []) :
    pieces.flatMap (· ++ sep) = join sep pieces ++ sep := by
  induction pieces with
  | nil => exact absurd rfl hne
  | cons piece rest ih =>
    by_cases hrest : rest = []
    · simp [hrest, join]
    · rw [List.flatMap_cons, ih hrest, join_cons sep piece hrest]
      simp only [List.append_assoc]

/-- Pieces without the separator are cut apart again. -/
theorem splitOn_join {sep : Char} {pieces : List Text} (hne : pieces ≠ [])
    (h : ∀ p ∈ pieces, sep ∉ p) : splitOn sep (join [sep] pieces) = pieces := by
  induction pieces with
  | nil => exact absurd rfl hne
  | cons p rest ih =>
    rw [List.forall_mem_cons] at h
    by_cases hrest : rest = []
    · rw [hrest]
      exact splitOn_of_not_mem h.1
    · rw [join_cons _ _ hrest, List.append_assoc, List.singleton_append,
        splitOn_append_cons h.1, ih hrest h.2]

theorem join_consFirst (sep : Text) (c : Char) (pieces : List Text) :
    join sep (consFirst c pieces) = c :: join sep pieces := by
  rcases pieces with _ | ⟨piece, _ | ⟨next, rest⟩⟩ <;> rfl

/-- Putting the separator back between the pieces gives the text back. -/
theorem join_splitOn (sep : Char) (t : Text) : join [sep] (splitOn sep t) = t := by
  induction t with
  | nil => rfl
  | cons c t ih =>
    rw [splitOn]
    split_ifs with hc
    · rw [join_cons _ _ (splitOn_ne_nil sep t), ih, hc]
      rfl
    · rw [join_consFirst, ih]

theorem dropSuffix_append (ending t : Text) : dropSuffix ending (t ++ ending) = t := by
  simp [dropSuffix]

/-- A text is what is left without an ending, with the ending behind it if it had one. -/
theorem eq_dropSuffix_or (ending t : Text) :
    t = dropSuffix ending t ∨ t = dropSuffix ending t ++ ending := by
  by_cases hsuffix : ending.isSuffixOf t
  · obtain ⟨front, rfl⟩ := List.isSuffixOf_iff_suffix.1 hsuffix
    rw [dropSuffix_append]
    exact .inr rfl
  · rw [dropSuffix, if_neg hsuffix]
    exact .inl rfl

theorem dropSuffix_return {line : Text} (h : line.getLast? ≠ some '\r') :
    dropSuffix ['\r'] line = line := by
  refine if_neg fun hsuffix => h ?_
  obtain ⟨front, rfl⟩ := List.isSuffixOf_iff_suffix.1 hsuffix
  exact List.getLast?_concat

theorem closeLines_cons (line : Text) {rest : List Text} (h : rest ≠ []) :
    closeLines (line :: rest) = dropSuffix ['\r'] line :: closeLines rest := by
  cases rest with
  | nil => exact absurd rfl h
  | cons next rest => rfl

theorem lines_append_newline {line : Text} (h : line.IsLine) (t : Text) :
    lines (line ++ '\n' :: t) = line :: lines t := by
  rw [lines, splitOn_append_cons h.1, lines, closeLines_cons line (splitOn_ne_nil '\n' t),
    dropSuffix_return h.2]

/-- Terminated lines are read back. -/
theorem lines_terminate {ls : List Text} (h : ∀ line ∈ ls, line.IsLine) :
    lines (terminate ls) = ls := by
  induction ls with
  | nil => rfl
  | cons line rest ih =>
    rw [List.forall_mem_cons] at h
    rw [terminate, List.flatMap_cons, List.append_assoc, List.singleton_append,
      lines_append_newline h.1]
    exact congrArg _ (ih h.2)

theorem closeLines_of_isLine {ls : List Text} (h : ∀ line ∈ ls, line.IsLine ∧ line ≠ []) :
    closeLines ls = ls := by
  induction ls with
  | nil => rfl
  | cons line rest ih =>
    rw [List.forall_mem_cons] at h
    obtain ⟨⟨hline, hne⟩, hrest⟩ := h
    cases rest with
    | nil => rw [closeLines, if_neg (by rwa [List.isEmpty_iff])]
    | cons line' rest =>
      rw [closeLines_cons line (List.cons_ne_nil line' rest), dropSuffix_return hline.2, ih hrest]

/-- Lines one under the other are read back; none is empty, for an empty last line would be lost. -/
theorem lines_unlines {ls : List Text} (h : ∀ line ∈ ls, line.IsLine ∧ line ≠ []) :
    lines (unlines ls) = ls := by
  by_cases hnil : ls = []
  · rw [hnil]
    rfl
  · rw [lines, unlines, splitOn_join hnil fun line hline => (h line hline).1.1,
      closeLines_of_isLine h]

end TicketMarkup.Text
