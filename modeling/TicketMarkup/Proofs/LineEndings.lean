import TicketMarkup.Document.Build
import TicketMarkup.Proofs.TextParts
import TicketMarkup.Wiki

/-!
# Line endings

`readAlike_lineEndings`: how the lines of a Markdown text end does not matter. With a carriage return
in front of every line feed, or with a line feed behind the last line, the text has the same events
at the same lines, the same wiki markup and the same document.

A text is read by its lines alone (`readAlike_of_lines`), so both are facts on lines:

1. A carriage return in front of a line feed stands at the end of a piece between line feeds, where
   it is dropped (`Text.splitOn_crlf`, `Text.lines_crlf`).
2. A line feed behind a text adds an empty piece, which is no line (`Text.splitOn_concat`). The piece
   before it loses a carriage return at its end, and nothing else (`Text.lines_concat_newline_iff`).
-/

namespace TicketMarkup

namespace Text

variable {t : Text}

/-! ## Carriage returns -/

/-- The text with a carriage return in front of every line feed. -/
def crlf (t : Text) : Text := t.flatMap fun c => if c = '\n' then ['\r', '\n'] else [c]

theorem crlf_newline (t : Text) : crlf ('\n' :: t) = '\r' :: '\n' :: crlf t := rfl

theorem crlf_cons {c : Char} (hc : c ≠ '\n') (t : Text) : crlf (c :: t) = c :: crlf t := by
  simp [crlf, hc]

/-- The pieces with a carriage return behind each but the last. -/
def returned : List Text → List Text
  | [] => []
  | [last] => [last]
  | piece :: rest => (piece ++ ['\r']) :: returned rest

theorem splitOn_crlf (t : Text) : splitOn '\n' (crlf t) = returned (splitOn '\n' t) := by
  induction t with
  | nil => rfl
  | cons c t ih =>
    obtain ⟨piece, pieces, hsplit⟩ := List.exists_cons_of_ne_nil (splitOn_ne_nil '\n' t)
    by_cases hc : c = '\n'
    · rw [hc, crlf_newline, splitOn, splitOn, if_pos rfl, ih, splitOn, if_pos rfl, hsplit]
      rfl
    · rw [crlf_cons hc, splitOn, if_neg hc, ih, splitOn, if_neg hc, hsplit]
      cases pieces <;> rfl

theorem closeLines_returned {pieces : List Text} (h : ∀ piece ∈ pieces, '\r' ∉ piece) :
    closeLines (returned pieces) = closeLines pieces := by
  fun_induction returned pieces with
  | case1 | case2 => rfl
  | case3 piece rest hrest ih =>
    rw [List.forall_mem_cons] at h
    have hreturned : returned rest ≠ [] := by
      obtain ⟨next, rest, rfl⟩ := List.exists_cons_of_ne_nil hrest
      cases rest <;> simp [returned]
    rw [closeLines_cons _ hreturned, closeLines_cons _ hrest, ih h.2, dropSuffix_append,
      dropSuffix_return fun hlast => h.1 (List.mem_of_mem_getLast? hlast)]

theorem return_not_mem_splitOn (h : '\r' ∉ t) : ∀ piece ∈ splitOn '\n' t, '\r' ∉ piece :=
  fun _ hpiece hmem => h ((infix_of_mem_splitOn hpiece).subset hmem)

theorem lines_crlf (h : '\r' ∉ t) : (crlf t).lines = t.lines := by
  rw [lines, splitOn_crlf, lines]
  exact closeLines_returned (return_not_mem_splitOn h)

/-! ## The last line -/

theorem splitOn_concat (sep : Char) (t : Text) :
    splitOn sep (t ++ [sep]) = splitOn sep t ++ [[]] := by
  induction t with
  | nil => simp [splitOn]
  | cons c t ih =>
    rw [List.cons_append, splitOn, splitOn, ih]
    obtain ⟨piece, pieces, hsplit⟩ := List.exists_cons_of_ne_nil (splitOn_ne_nil sep t)
    split_ifs
    · rfl
    · rw [hsplit]
      rfl

/-- Only the last piece is a line as it stands, if it is one. -/
theorem closeLines_concat (front : List Text) (last : Text) :
    closeLines (front ++ [last]) =
      front.map (dropSuffix ['\r']) ++ if last.isEmpty then [] else [last] := by
  induction front with
  | nil => rfl
  | cons piece front ih =>
    rw [List.cons_append, closeLines_cons _ (by simp), ih]
    rfl

theorem join_concat (sep last : Text) (front : List Text) :
    join sep (front ++ [last]) = front.flatMap (· ++ sep) ++ last := by
  induction front with
  | nil => rfl
  | cons piece front ih =>
    rw [List.cons_append, join_cons _ _ (by simp), ih, List.flatMap_cons, List.append_assoc _ _ last]

/-- The last piece is the end of the text. It is empty only if the text is, or ends in the
separator. -/
theorem exists_last_splitOn (sep : Char) (hne : t ≠ []) (hsep : t.getLast? ≠ some sep) :
    ∃ front last, splitOn sep t = front ++ [last] ∧ last ≠ [] ∧ last.getLast? = t.getLast? := by
  obtain ⟨front, last, hsplit⟩ := (List.eq_nil_or_concat' (splitOn sep t)).resolve_left
    (splitOn_ne_nil sep t)
  have ht : t = front.flatMap (· ++ [sep]) ++ last := by
    rw [← join_concat, ← hsplit, join_splitOn]
  have hlast : last ≠ [] := by
    rintro rfl
    rw [List.append_nil] at ht
    by_cases hfront : front = []
    · exact hne (by rw [ht, hfront]; rfl)
    · rw [flatMap_append_eq_join _ hfront] at ht
      exact hsep (by rw [ht, List.getLast?_concat])
  refine ⟨front, last, hsplit, hlast, ?_⟩
  rw [ht, List.getLast?_append_of_ne_nil _ hlast]

/-- A line feed behind the last line keeps the lines exactly if the line does not end in a carriage
return, which would belong to the line's end then. -/
theorem lines_concat_newline_iff (hne : t ≠ []) (hnewline : t.getLast? ≠ some '\n') :
    (t ++ ['\n']).lines = t.lines ↔ t.getLast? ≠ some '\r' := by
  obtain ⟨front, last, hsplit, hlast, hend⟩ := exists_last_splitOn '\n' hne hnewline
  have hempty : last.isEmpty = false := by simpa using hlast
  have hwith : (t ++ ['\n']).lines = front.map (dropSuffix ['\r']) ++ [dropSuffix ['\r'] last] := by
    rw [lines, splitOn_concat, hsplit, closeLines_concat]
    simp
  have hwithout : t.lines = front.map (dropSuffix ['\r']) ++ [last] := by
    rw [lines, hsplit, closeLines_concat, hempty]
    rfl
  rw [hwith, hwithout, List.append_cancel_left_eq, List.cons_eq_cons, ← hend]
  constructor
  · rintro ⟨hdrop, -⟩ hreturn
    obtain ⟨body, rfl⟩ := List.getLast?_eq_some_iff.1 hreturn
    rw [dropSuffix_append] at hdrop
    simp at hdrop
  · exact fun hreturn => ⟨dropSuffix_return hreturn, rfl⟩

end Text

/-! ## What is read -/

/-- Two texts are read alike: they have the same events at the same lines, the same wiki markup and
the same document. -/
structure ReadAlike (s t : Text) : Prop where
  events : classify s = classify t
  wiki : Wiki.ofMarkdown s = Wiki.ofMarkdown t
  document : Document.ofMarkdown s = Document.ofMarkdown t

theorem readAlike_of_lines {s t : Text} (h : s.lines = t.lines) : ReadAlike s t := by
  have hevents : classify s = classify t := by rw [classify, h, classify]
  refine ⟨hevents, ?_, ?_⟩
  · rw [Wiki.ofMarkdown, hevents, Wiki.ofMarkdown]
  · rw [Document.ofMarkdown, hevents, Document.ofMarkdown]

/-- **Line endings.** A text without carriage returns is read as it is with one in front of every
line feed. A text whose last line has no end is read as it is with a line feed behind it; only a
carriage return there would be lost. -/
theorem readAlike_lineEndings (t : Text) :
    ('\r' ∉ t → ReadAlike t.crlf t) ∧
      (t ≠ [] → t.getLast? ≠ some '\n' → t.getLast? ≠ some '\r' → ReadAlike (t ++ ['\n']) t) :=
  ⟨fun h => readAlike_of_lines (Text.lines_crlf h),
    fun hne hnewline hreturn =>
      readAlike_of_lines ((Text.lines_concat_newline_iff hne hnewline).2 hreturn)⟩

/-- A fence that stays open, around lines that are empty or blank, behind a table. -/
theorem readAlike_lineEndings_fence :
    let t : Text := "| a |\n|---|\n\n```\n  \n\n# b  ".toList
    '\r' ∉ t ∧ t ≠ [] ∧ t.getLast? = some ' ' ∧ ReadAlike t.crlf t ∧ ReadAlike (t ++ ['\n']) t := by
  intro t
  have hreturn : '\r' ∉ t := by decide
  have hlast : t.getLast? = some ' ' := by decide
  have hne : t ≠ [] := by decide
  exact ⟨hreturn, hne, hlast, (readAlike_lineEndings t).1 hreturn,
    (readAlike_lineEndings t).2 hne (by rw [hlast]; decide) (by rw [hlast]; decide)⟩

example : classify "a\r\n".toList ≠ classify "a\r".toList := by decide

end TicketMarkup
