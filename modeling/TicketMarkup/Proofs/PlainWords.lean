import TicketMarkup.Proofs.PlainParagraphs
import TicketMarkup.Request
import Mathlib.Data.List.DropRight

/-!
# Words of plain text

`words_ofPlainText`: a plain text that is sent as a document and read back keeps its words in order,
but the lines of a paragraph are run together, so where no blank stands between two of them the last
word of one and the first word of the other become one word.

1. Words end at blanks only. Texts have their own words side by side where one of them has a blank
   at the joint (`Text.words_append_of_apart`); elsewhere they share a word
   (`Text.exists_words_append`).
2. Lines and paragraphs are cut at blanks, so a text has the words of its lines
   (`Text.words_eq_flatMap_shownLines`).
3. A paragraph is drawn as its lines with nothing between them (`Node.render_paragraph_plain`).
-/

namespace TicketMarkup

namespace Text

variable {s t : Text}

/-! ## Words -/

/-- The longest stretches of a text without blanks. -/
def words (t : Text) : List Text := (t.splitOnP TicketMarkup.isBlank).filter (!·.isEmpty)

theorem words_nil : words [] = [] := rfl

theorem words_append_cons {c : Char} (hc : TicketMarkup.isBlank c) (s t : Text) :
    words (s ++ c :: t) = words s ++ words t := by
  rw [words, List.splitOnP_append_cons s t hc, List.filter_append]
  rfl

theorem words_cons {c : Char} (hc : TicketMarkup.isBlank c) (t : Text) :
    words (c :: t) = words t := words_append_cons hc [] t

theorem words_of_unblank {w : Text} (hne : w ≠ []) (h : ∀ c ∈ w, ¬TicketMarkup.isBlank c) :
    words w = [w] := by
  have hone := List.splitOnP_eq_singleton fun c hc => Bool.eq_false_iff.2 (h c hc)
  simp [words, hone, hne]

theorem words_isBlank_append (h : isBlank s) (t : Text) : words (s ++ t) = words t := by
  induction s with
  | nil => rfl
  | cons c s ih =>
    obtain ⟨hc, hs⟩ : TicketMarkup.isBlank c ∧ isBlank s := by simpa [isBlank] using h
    rw [List.cons_append, words_cons hc, ih hs]

theorem words_of_isBlank (h : isBlank t) : words t = [] := by
  simpa [words_nil] using words_isBlank_append h []

/-- A blank at the joint, or an end of the text there, keeps the words of two texts apart. -/
def Apart (s t : Text) : Prop :=
  (∀ c ∈ s.getLast?, TicketMarkup.isBlank c) ∨ ∀ c ∈ t.head?, TicketMarkup.isBlank c

theorem words_append_of_apart (h : Apart s t) : words (s ++ t) = words s ++ words t := by
  rcases h with h | h
  · rcases List.eq_nil_or_concat s with rfl | ⟨front, c, rfl⟩
    · rfl
    · have hc : TicketMarkup.isBlank c := h c (by simp)
      rw [List.concat_eq_append, List.append_assoc, List.singleton_append, words_append_cons hc,
        words_append_cons hc, words_nil, List.append_nil]
  · cases t with
    | nil => simp [words_nil]
    | cons c t =>
      have hc : TicketMarkup.isBlank c := h c rfl
      rw [words_append_cons hc, words_cons hc]

/-- A text is cut behind its first word, which is empty if the text begins with a blank. -/
theorem exists_first_word (t : Text) :
    ∃ w back, t = w ++ back ∧ (∀ c ∈ w, ¬TicketMarkup.isBlank c) ∧
      ∀ c ∈ back.head?, TicketMarkup.isBlank c := by
  let unblank (c : Char) : Bool := !TicketMarkup.isBlank c
  refine ⟨t.takeWhile unblank, t.dropWhile unblank, List.takeWhile_append_dropWhile.symm,
    fun c hc => by simpa [unblank] using List.mem_takeWhile_imp hc, ?_⟩
  exact fun c hc => by simpa [unblank] using not_of_mem_head?_dropWhile hc

/-- A text is cut in front of its last word, which is empty if the text ends in a blank. -/
theorem exists_last_word (t : Text) :
    ∃ front w, t = front ++ w ∧ (∀ c ∈ w, ¬TicketMarkup.isBlank c) ∧
      ∀ c ∈ front.getLast?, TicketMarkup.isBlank c := by
  obtain ⟨w, back, heq, hw, hback⟩ := exists_first_word t.reverse
  refine ⟨back.reverse, w.reverse, ?_, by simpa using hw, by simpa using hback⟩
  rw [← List.reverse_append, ← heq, List.reverse_reverse]

/-- Where no blank keeps them apart, the last word of a text and the first of the next are one. -/
theorem exists_words_append (h : ¬Apart s t) :
    ∃ front w v back, words s = front ++ [w] ∧ words t = v :: back ∧
      words (s ++ t) = front ++ (w ++ v) :: back := by
  obtain ⟨front, w, rfl, hw, hfront⟩ := exists_last_word s
  obtain ⟨v, back, rfl, hv, hback⟩ := exists_first_word t
  have hwne : w ≠ [] := by
    rintro rfl
    exact h (.inl (by simpa using hfront))
  have hvne : v ≠ [] := by
    rintro rfl
    exact h (.inr (by simpa using hback))
  refine ⟨words front, w, v, words back, ?_, ?_, ?_⟩
  · rw [words_append_of_apart (.inl hfront), words_of_unblank hwne hw]
  · rw [words_append_of_apart (.inr hback), words_of_unblank hvne hv]
    rfl
  · have hboth : ∀ c ∈ w ++ v, ¬TicketMarkup.isBlank c := List.forall_mem_append.2 ⟨hw, hv⟩
    rw [List.append_assoc, ← List.append_assoc w, words_append_of_apart (.inl hfront),
      words_append_of_apart (.inr hback), words_of_unblank (by simp [hwne]) hboth]
    rfl

theorem length_words_append_le (s t : Text) :
    (words (s ++ t)).length ≤ (words s).length + (words t).length := by
  by_cases h : Apart s t
  · rw [words_append_of_apart h, List.length_append]
  · obtain ⟨front, w, v, back, hs, ht, hboth⟩ := exists_words_append h
    simp only [hs, ht, hboth, List.length_append, List.length_cons, List.length_nil]
    omega

theorem words_append_isBlank (s : Text) (h : isBlank t) : words (s ++ t) = words s := by
  have hapart : Apart s t :=
    .inr fun c hc => List.all_eq_true.1 h c (List.mem_of_mem_head? hc)
  rw [words_append_of_apart hapart, words_of_isBlank h, List.append_nil]

/-- Trimming keeps the words. -/
theorem words_trim (t : Text) : words t.trim = words t := by
  have hstart : words t.trimStart = words t := by
    conv_rhs => rw [← List.takeWhile_append_dropWhile (p := TicketMarkup.isBlank) (l := t)]
    exact (words_isBlank_append List.all_takeWhile t.trimStart).symm
  have hend (s : Text) : words s.trimEnd = words s := by
    obtain ⟨blanks, hblanks, heq⟩ := exists_trimEnd_append s
    conv_rhs => rw [← heq]
    exact (words_append_isBlank s.trimEnd hblanks).symm
  exact (hend _).trans hstart

/-- Words have all characters of a text that are not blank. -/
theorem flatten_words (t : Text) : (words t).flatten = t.ink := by
  rw [words, List.flatten_filter_not_isEmpty]
  induction t with
  | nil => rfl
  | cons c t ih =>
    rw [List.splitOnP_cons_eq_if_modifyHead]
    split_ifs with hc
    · rw [ink_cons_of_isBlank hc]
      exact ih
    · obtain ⟨piece, rest, hsplit⟩ :=
        List.exists_cons_of_ne_nil (List.splitOnP_ne_nil TicketMarkup.isBlank t)
      rw [hsplit] at ih ⊢
      rw [List.modifyHead_cons, List.flatten_cons, List.cons_append, ← List.flatten_cons, ih, ink,
        ink, List.filter_cons_of_pos (by simpa using hc)]

theorem words_eq_nil_iff : words t = [] ↔ t.isBlank := by
  refine ⟨fun h => ?_, words_of_isBlank⟩
  rw [← ink_eq_nil_iff, ← flatten_words, h, List.flatten_nil]

/-! ## Texts in a row -/

theorem length_words_flatten_le (ls : List Text) :
    (words ls.flatten).length ≤ (ls.flatMap words).length := by
  induction ls with
  | nil => exact Nat.le_refl _
  | cons l rest ih =>
    have hle := length_words_append_le l rest.flatten
    rw [List.flatten_cons, List.flatMap_cons, List.length_append]
    omega

/-- Texts that are run together keep their words exactly if they are apart at every joint. -/
theorem words_flatten_eq_iff {ls : List Text} (hne : [] ∉ ls) :
    words ls.flatten = ls.flatMap words ↔ ls.IsChain Apart := by
  induction ls with
  | nil => simp [words_nil]
  | cons l rest ih =>
    rw [List.mem_cons, not_or] at hne
    have ih := ih hne.2
    cases rest with
    | nil => simp
    | cons next rest =>
      have hnext : next ≠ [] := fun h => hne.2 (h ▸ List.mem_cons_self ..)
      have hhead : Apart l (next :: rest).flatten ↔ Apart l next := by
        obtain ⟨c, next, rfl⟩ := List.exists_cons_of_ne_nil hnext
        rfl
      rw [List.isChain_cons_cons, List.flatten_cons, List.flatMap_cons, ← ih, ← hhead]
      by_cases hapart : Apart l (next :: rest).flatten
      · rw [words_append_of_apart hapart, List.append_right_inj]
        exact (and_iff_right hapart).symm
      · -- One word is lost at this joint, and none comes up further on.
        obtain ⟨front, w, v, back, hl, hrest, hboth⟩ := exists_words_append hapart
        have hle := length_words_flatten_le (next :: rest)
        refine iff_of_false (fun heq => ?_) (fun h => hapart h.1)
        have hlength := congrArg List.length heq
        rw [hrest] at hle
        simp only [hl, hboth, List.length_append, List.length_cons, List.length_nil] at hlength hle
        omega

theorem words_flatten_eq_nil_iff (ls : List Text) :
    words ls.flatten = [] ↔ ls.flatMap words = [] := by
  simp [words_eq_nil_iff, isBlank, List.flatMap_eq_nil_iff]

section

variable {α β : Type} {f g : α → List β} {l : List α}

theorem length_flatMap_le (h : ∀ a ∈ l, (f a).length ≤ (g a).length) :
    (l.flatMap f).length ≤ (l.flatMap g).length := by
  induction l with
  | nil => exact Nat.le_refl _
  | cons a rest ih =>
    rw [List.forall_mem_cons] at h
    rw [List.flatMap_cons, List.flatMap_cons, List.length_append, List.length_append]
    exact Nat.add_le_add h.1 (ih h.2)

/-- Lists in a row that are at most as long as others are the same in a row only one by one. -/
theorem flatMap_eq_iff (h : ∀ a ∈ l, (f a).length ≤ (g a).length) :
    l.flatMap f = l.flatMap g ↔ ∀ a ∈ l, f a = g a := by
  refine ⟨fun heq => ?_, fun heq => List.flatMap_congr heq⟩
  induction l with
  | nil => simp
  | cons a rest ih =>
    rw [List.forall_mem_cons] at h ⊢
    have hrest := length_flatMap_le h.2
    have hlength := congrArg List.length heq
    rw [List.flatMap_cons, List.flatMap_cons, List.length_append, List.length_append] at hlength
    obtain ⟨hfirst, hrest⟩ := List.append_inj heq (by omega)
    exact ⟨hfirst, ih h.2 hrest⟩

end

/-- Texts that are joined by blanks keep their words. -/
theorem words_join {sep : Text} (hne : sep ≠ []) (hsep : isBlank sep) (ls : List Text) :
    words (join sep ls) = ls.flatMap words := by
  fun_induction join sep ls with
  | case1 => rfl
  | case2 t => simp
  | case3 t rest hrest ih =>
    obtain ⟨c, sep, rfl⟩ := List.exists_cons_of_ne_nil hne
    obtain ⟨hc, hsep⟩ : TicketMarkup.isBlank c ∧ isBlank sep := by simpa [isBlank] using hsep
    rw [List.append_assoc, List.cons_append, words_append_cons hc, words_isBlank_append hsep, ih,
      List.flatMap_cons]

/-! ## Lines and paragraphs -/

theorem paragraphs_ne_nil (t : Text) : paragraphs t ≠ [] := by
  fun_induction paragraphs t with
  | case3 c rest _ ih => cases hrest : paragraphs rest <;> simp [consFirst]
  | _ => simp

theorem join_paragraphs (t : Text) : join ['\n', '\n'] (paragraphs t) = t := by
  fun_induction paragraphs t with
  | case1 => rfl
  | case2 rest ih =>
    rw [join_cons _ _ (paragraphs_ne_nil rest), ih]
    rfl
  | case3 c rest _ ih => rw [join_consFirst, ih]

theorem words_dropSuffix_return (t : Text) : words (dropSuffix ['\r'] t) = words t := by
  rcases eq_dropSuffix_or ['\r'] t with h | h
  · rw [← h]
  · conv_rhs => rw [h, words_append_isBlank _ (by decide)]

theorem flatMap_words_closeLines (pieces : List Text) :
    (closeLines pieces).flatMap words = pieces.flatMap words := by
  fun_induction closeLines pieces with
  | case1 => rfl
  | case2 last hlast => simp [List.isEmpty_iff.1 hlast, words_nil]
  | case3 last hlast => rfl
  | case4 p rest hrest ih => rw [List.flatMap_cons, List.flatMap_cons, ih, words_dropSuffix_return]

theorem nil_not_mem_shownLines (t : Text) : [] ∉ t.shownLines := by
  simp [shownLines, isBlank]

/-- Blank lines have no words. -/
theorem flatMap_words_filter (ls : List Text) :
    (ls.filter (!·.isBlank)).flatMap words = ls.flatMap words := by
  induction ls with
  | nil => rfl
  | cons l rest ih =>
    by_cases hl : l.isBlank
    · rw [List.filter_cons_of_neg (by simp [hl]), ih, List.flatMap_cons, words_of_isBlank hl]
      rfl
    · rw [List.filter_cons_of_pos (by simp [hl]), List.flatMap_cons, List.flatMap_cons, ih]

theorem words_eq_flatMap_shownLines (t : Text) : words t = t.shownLines.flatMap words := by
  have hjoin := words_join (List.cons_ne_nil '\n' []) (by decide) (splitOn '\n' t)
  rw [shownLines, flatMap_words_filter, lines, flatMap_words_closeLines, ← hjoin, join_splitOn]

end Text

open Text Element

/-! ## Documents of plain text -/

namespace Node

theorem renderAll_plain (depth : Nat) (ls : List Text) :
    renderAll depth ((ls.map plain).map element) = ls.flatten := by
  induction ls with
  | nil => rfl
  | cons l rest ih =>
    rw [List.map_cons, List.map_cons, renderAll, ih, element_eq]
    rfl

/-- A paragraph of plain texts is drawn as these with nothing between them, and one line feed. -/
theorem render_paragraph_plain (ls : List Text) :
    (container .paragraph (ls.map plain)).element.render 0 = some (ls.flatten ++ ['\n']) := by
  rw [element_eq]
  show some (renderAll 0 ((ls.map plain).map element) ++ ['\n']) = _
  rw [renderAll_plain]

end Node

/-- What the paragraphs of plain text show. -/
def drawn (paragraphs : List Text) : Text :=
  ((((paragraphs.map Document.plainTexts).filter (!·.isEmpty)).map
    (Node.container .paragraph)).map Node.element |>.filterMap (render 0)).flatMap endLine

theorem drawn_cons (p : Text) (rest : List Text) :
    drawn (p :: rest) =
      (if p.shownLines.isEmpty then [] else p.shownLines.flatten ++ ['\n']) ++ drawn rest := by
  have hplain : Document.plainTexts p = p.shownLines.map Node.plain := rfl
  have hempty : (Document.plainTexts p).isEmpty = p.shownLines.isEmpty := List.isEmpty_map
  rw [drawn, List.map_cons, List.filter_cons, hempty]
  by_cases hp : p.shownLines.isEmpty
  · simp [hp, drawn]
  · have hend : endLine (p.shownLines.flatten ++ ['\n']) = p.shownLines.flatten ++ ['\n'] := by
      simp [endLine]
    have hrender := Node.render_paragraph_plain p.shownLines
    simp only [hp, hplain, Bool.not_false, if_true, List.map_cons]
    rw [List.filterMap_cons_some hrender, List.flatMap_cons, hend]
    rfl

theorem words_drawn (paragraphs : List Text) :
    words (drawn paragraphs) = paragraphs.flatMap fun p => words p.shownLines.flatten := by
  induction paragraphs with
  | nil => rfl
  | cons p rest ih =>
    rw [drawn_cons, List.flatMap_cons]
    split_ifs with hp
    · rw [List.isEmpty_iff.1 hp]
      exact ih
    · rw [List.append_assoc, List.singleton_append, words_append_cons (by decide), ih]

theorem ofField_ofPlainText (t : Text) :
    Readable.ofField (Request.ofPlainText .v3 t) =
      if Text.isBlank (drawn (paragraphs t)) then none else some (trim (drawn (paragraphs t))) := by
  show Element.renderDocument (Element.ofJson (Document.ofPlainText t).toJson) = _
  rw [renderDocument, element_document]
  rfl

/-- Each paragraph shows its lines run together. -/
theorem words_ofField_ofPlainText (t : Text) :
    words ((Readable.ofField (Request.ofPlainText .v3 t)).getD []) =
      (paragraphs t).flatMap fun p => words p.shownLines.flatten := by
  rw [ofField_ofPlainText, ← words_drawn]
  split_ifs with hblank
  · exact (words_of_isBlank hblank).symm
  · exact words_trim _

theorem words_eq_flatMap_paragraphs (t : Text) :
    words t = (paragraphs t).flatMap fun p => p.shownLines.flatMap words := by
  have hjoin := words_join (List.cons_ne_nil '\n' ['\n']) (by decide) (paragraphs t)
  rw [join_paragraphs] at hjoin
  rw [hjoin]
  exact List.flatMap_congr fun p _ => words_eq_flatMap_shownLines p

/-- **Words of plain text.** A plain text that is sent as a document and read back shows, paragraph by
paragraph, the words of the lines that are not blank run together. These are the words of the text
exactly if in every paragraph neighbouring lines have a blank at their joint. Only a blank text shows
nothing. -/
theorem words_ofPlainText (t : Text) :
    let readable := Readable.ofField (Request.ofPlainText .v3 t)
    words (readable.getD []) = (paragraphs t).flatMap (fun p => words p.shownLines.flatten) ∧
      (words (readable.getD []) = words t ↔ ∀ p ∈ paragraphs t, p.shownLines.IsChain Apart) ∧
      (readable = none ↔ t.isBlank) := by
  refine ⟨words_ofField_ofPlainText t, ?_, ?_⟩
  · rw [words_ofField_ofPlainText, words_eq_flatMap_paragraphs,
      flatMap_eq_iff fun p _ => length_words_flatten_le p.shownLines]
    exact forall₂_congr fun p _ => words_flatten_eq_iff p.nil_not_mem_shownLines
  · have hnone : Readable.ofField (Request.ofPlainText .v3 t) = none ↔
        Text.isBlank (drawn (paragraphs t)) := by
      rw [ofField_ofPlainText]
      split_ifs with hblank <;> simp [hblank]
    rw [hnone, ← words_eq_nil_iff, words_drawn, ← words_eq_nil_iff, words_eq_flatMap_paragraphs,
      List.flatMap_eq_nil_iff, List.flatMap_eq_nil_iff]
    exact forall₂_congr fun p _ => words_flatten_eq_nil_iff p.shownLines

/-- The words of two lines become one. -/
theorem words_ofPlainText_lines :
    let t : Text := "a\nb".toList
    words t = [['a'], ['b']] ∧
      words ((Readable.ofField (Request.ofPlainText .v3 t)).getD []) = [['a', 'b']] := by
  refine ⟨by decide, ?_⟩
  rw [words_ofField_ofPlainText]
  decide

end TicketMarkup
