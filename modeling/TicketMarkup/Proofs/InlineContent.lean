import TicketMarkup.Document.Inline
import TicketMarkup.Proofs.TextParts
import TicketMarkup.Proofs.Tiling

/-!
# Inline content

What a paragraph or a heading may hold (`InlineContent`), and the proof that the nodes of a line
are such content: the pieces of the line give text nodes whose characters stand in the line, the
joining of neighbours drops the empty ones, and only two spaces at the line's end add a break.
-/

namespace TicketMarkup

/-- Texts and breaks, as a paragraph holds them: an empty text stands alone, no text has a line
feed, and a break comes last. -/
structure InlineContent (content : List Node) : Prop where
  nonempty : content ≠ []
  inline : ∀ n ∈ content, n = .hardBreak ∨ ∃ t marks, n = .text t marks
  alone_of_empty : ∀ marks, .text [] marks ∈ content → content = [.text [] marks]
  no_newline : ∀ t marks, .text t marks ∈ content → '\n' ∉ t
  break_last : .hardBreak ∉ content.dropLast

/-- The mark of a link. -/
def Mark.isLink : Mark → Bool
  | link _ _ => true
  | _ => false

/-! ## The texts of runs -/

theorem Piece.inner_subset_source (piece : Piece) : piece.inner ⊆ piece.source := by
  cases piece with
  | delimited d inner =>
    intro c hc
    simp only [source, List.mem_append]
    exact .inl (.inr hc)
  | _ => exact List.nil_subset _

namespace Node

/-- A text node with no other characters than those of a line. -/
def IsTextOf (line : Text) (n : Node) : Prop := ∃ t marks, n = .text t marks ∧ t ⊆ line

variable {line : Text}

theorem shown_subset (s : Reference.Spelling) : shown s.reference ⊆ s.text := by
  intro c hc
  unfold shown at hc
  split at hc <;> simp_all [Reference.Spelling.text, Reference.Spelling.reference]

theorem isTextOf_consChar {marks : List Mark} {c : Char} {runs : List Run} (hc : c ∈ line)
    (h : ∀ n ∈ fragmentsAll marks runs, n.IsTextOf line) :
    ∀ n ∈ fragmentsAll marks (Run.consChar c runs), n.IsTextOf line := by
  have hsingle : (text [c] marks).IsTextOf line := ⟨[c], marks, rfl, by simpa using hc⟩
  cases runs with
  | nil => exact List.forall_mem_singleton.2 hsingle
  | cons run rest =>
    cases run with
    | text t =>
      rw [fragmentsAll, fragments, List.singleton_append, List.forall_mem_cons] at h
      obtain ⟨⟨_, _, heq, hsub⟩, hrest⟩ := h
      obtain ⟨rfl, rfl⟩ := text.inj heq
      exact List.forall_mem_cons.2 ⟨⟨c :: t, marks, rfl, List.cons_subset.2 ⟨hc, hsub⟩⟩, hrest⟩
    | _ => exact List.forall_mem_cons.2 ⟨hsingle, h⟩

/-- A piece of the line in front of runs, where the texts of the piece's inner runs stand in the
line. -/
theorem isTextOf_consPiece {marks : List Mark} {piece : Piece} {inner rest : List Run}
    (hsource : piece.source ⊆ line)
    (hinner : ∀ marks, ∀ n ∈ fragmentsAll marks inner, n.IsTextOf line)
    (hrest : ∀ n ∈ fragmentsAll marks rest, n.IsTextOf line) :
    ∀ n ∈ fragmentsAll marks (Run.consPiece piece inner rest), n.IsTextOf line := by
  cases piece with
  | literal c => exact isTextOf_consChar (hsource (by simp [Piece.source])) hrest
  | escaped c => exact isTextOf_consChar (hsource (by simp [Piece.source])) hrest
  | delimited d _ =>
    refine List.forall_mem_append.2 ⟨?_, hrest⟩
    cases d <;> simp only [Delimiter.run, fragments, fragmentsAll, List.append_nil] <;>
      exact hinner _
  | code ticks t =>
    refine List.forall_mem_cons.2 ⟨⟨t, _, rfl, fun c hc => hsource ?_⟩, hrest⟩
    simp [Piece.source, hc]
  | reference kind spelling =>
    have hshown : shown spelling.reference ⊆ line :=
      fun c hc => hsource (List.mem_append_right _ (shown_subset spelling hc))
    cases kind <;> exact List.forall_mem_cons.2 ⟨⟨_, _, rfl, hshown⟩, hrest⟩

/-- The runs of a line show its characters only, and none of them breaks the line. -/
theorem isTextOf_ofText (t : Text) (marks : List Mark) :
    ∀ n ∈ fragmentsAll marks (Run.ofText t), n.IsTextOf t := by
  refine Run.ofText_induction
    (motive := fun t runs => ∀ marks, ∀ n ∈ fragmentsAll marks runs, n.IsTextOf t) ?_ ?_ t marks
  · exact fun _ _ _ hn => absurd hn List.not_mem_nil
  · intro t piece hpiece rest hinner hrest marks
    have hsource := (source_infix_of_mem_pieces hpiece).subset
    refine isTextOf_consPiece hsource (fun marks n hn => ?_) (hrest marks)
    obtain ⟨u, marks', rfl, hu⟩ := hinner marks n hn
    have hpart : u ⊆ piece.source := List.Subset.trans hu piece.inner_subset_source
    exact ⟨u, marks', rfl, List.Subset.trans hpart hsource⟩

/-! ## Joining neighbours -/

/-- Joining texts in front of nodes that do not start with a text gives nonempty texts in front of
the same nodes. -/
theorem exists_foldr_consJoined {nodes tail : List Node} (hnodes : ∀ n ∈ nodes, n.IsTextOf line)
    (htail : ∀ t marks, tail.head? ≠ some (.text t marks)) :
    ∃ texts, nodes.foldr consJoined tail = texts ++ tail ∧
      ∀ n ∈ texts, n.IsTextOf line ∧ ∀ marks, n ≠ .text [] marks := by
  induction nodes with
  | nil => exact ⟨[], rfl, by simp⟩
  | cons n rest ih =>
    obtain ⟨⟨t, marks, rfl, ht⟩, hrest⟩ := List.forall_mem_cons.1 hnodes
    obtain ⟨texts, heq, htexts⟩ := ih hrest
    rw [List.foldr_cons, heq]
    cases t with
    | nil => exact ⟨texts, rfl, htexts⟩
    | cons c t =>
      have hfirst : (text (c :: t) marks).IsTextOf line ∧
          ∀ marks', text (c :: t) marks ≠ .text [] marks' := ⟨⟨_, _, rfl, ht⟩, by simp⟩
      cases texts with
      | nil =>
        refine ⟨[text (c :: t) marks], ?_, List.forall_mem_singleton.2 hfirst⟩
        cases tail with
        | nil => rfl
        | cons m tail =>
          cases m with
          | text u marks' => exact absurd rfl (htail u marks')
          | _ => rfl
      | cons m more =>
        obtain ⟨⟨⟨u, marks', rfl, hu⟩, hne⟩, hmore⟩ := List.forall_mem_cons.1 htexts
        rw [List.cons_append, consJoined]
        · split_ifs with hmarks
          · exact ⟨text (c :: t ++ u) marks :: more, rfl, List.forall_mem_cons.2
              ⟨⟨⟨_, _, rfl, List.append_subset.2 ⟨ht, hu⟩⟩, by simp⟩, hmore⟩⟩
          · exact ⟨text (c :: t) marks :: text u marks' :: more, rfl,
              List.forall_mem_cons.2 ⟨hfirst, htexts⟩⟩
        · simp

/-! ## The nodes of a line -/

theorem fragmentsAll_append (marks : List Mark) (runs runs' : List Run) :
    fragmentsAll marks (runs ++ runs') = fragmentsAll marks runs ++ fragmentsAll marks runs' := by
  induction runs with
  | nil => rfl
  | cons run rest ih => rw [List.cons_append, fragmentsAll, fragmentsAll, ih, List.append_assoc]

/-- The break at the end of a line that ends in two spaces and is not blank. -/
def lineBreaks (line : Text) : List Node :=
  if [' ', ' '].isSuffixOf line && !line.isBlank then [hardBreak] else []

theorem lineBreaks_cases (line : Text) : lineBreaks line = [] ∨ lineBreaks line = [hardBreak] := by
  unfold lineBreaks
  split_ifs <;> simp

theorem ofRuns_ofLine (line : Text) :
    ∃ t : Text, t ⊆ line ∧
      ofRuns (Run.ofLine line) =
        (fragmentsAll [] (Run.ofText t)).foldr consJoined (lineBreaks line) := by
  unfold ofRuns Run.ofLine lineBreaks
  split_ifs
  · refine ⟨line.trimEnd, (Text.trimEnd_isPrefix line).subset, ?_⟩
    rw [fragmentsAll_append, List.foldr_append]
    rfl
  · exact ⟨line, List.Subset.refl line, rfl⟩

/-- The nodes of a line: nonempty texts, and a break where the line has one. -/
theorem exists_ofLine_eq (line : Text) :
    ∃ texts, ofLine line = orEmptyText (texts ++ lineBreaks line) ∧
      ∀ n ∈ texts, n.IsTextOf line ∧ ∀ marks, n ≠ .text [] marks := by
  obtain ⟨t, ht, heq⟩ := ofRuns_ofLine line
  have hnodes : ∀ n ∈ fragmentsAll [] (Run.ofText t), n.IsTextOf line := by
    intro n hn
    obtain ⟨u, marks, rfl, hu⟩ := isTextOf_ofText t [] n hn
    exact ⟨u, marks, rfl, List.Subset.trans hu ht⟩
  have hhead : ∀ u marks, (lineBreaks line).head? ≠ some (.text u marks) := by
    rcases lineBreaks_cases line with h | h <;> simp [h]
  obtain ⟨texts, hfold, htexts⟩ := exists_foldr_consJoined hnodes hhead
  exact ⟨texts, by rw [ofLine, heq, hfold], htexts⟩

theorem inline_of_mem_ofLine {n : Node} (h : n ∈ ofLine line) :
    n = .hardBreak ∨ ∃ t marks, n = .text t marks := by
  obtain ⟨texts, heq, htexts⟩ := exists_ofLine_eq line
  rw [heq] at h
  unfold orEmptyText at h
  split_ifs at h
  · exact .inr ⟨[], [], List.mem_singleton.1 h⟩
  · rcases List.mem_append.1 h with h | h
    · obtain ⟨⟨t, marks, rfl, _⟩, _⟩ := htexts n h
      exact .inr ⟨t, marks, rfl⟩
    · rcases lineBreaks_cases line with hl | hl <;> simp_all

/-- The nodes of a line are the content of a paragraph. -/
theorem inlineContent_ofLine (h : '\n' ∉ line) : InlineContent (ofLine line) := by
  have hinline : ∀ n ∈ ofLine line, n = .hardBreak ∨ ∃ t marks, n = .text t marks :=
    fun _ => inline_of_mem_ofLine
  obtain ⟨texts, heq, htexts⟩ := exists_ofLine_eq line
  have hbreak : .hardBreak ∉ texts := by
    intro hmem
    obtain ⟨⟨_, _, heq, _⟩, _⟩ := htexts _ hmem
    cases heq
  rw [heq] at hinline ⊢
  by_cases hempty : texts ++ lineBreaks line = []
  · rw [hempty]
    constructor <;> simp [orEmptyText, plain]
  · have hcontent : orEmptyText (texts ++ lineBreaks line) = texts ++ lineBreaks line :=
      if_neg (by rwa [List.isEmpty_iff])
    have htext : ∀ t marks, .text t marks ∈ texts ++ lineBreaks line → .text t marks ∈ texts := by
      intro t marks hmem
      rcases lineBreaks_cases line with hl | hl <;> simpa [hl] using hmem
    rw [hcontent] at hinline ⊢
    refine ⟨hempty, hinline, ?_, ?_, ?_⟩
    · intro marks hmem
      exact absurd rfl ((htexts _ (htext _ _ hmem)).2 marks)
    · intro t marks hmem
      obtain ⟨⟨u, marks', heq, hsub⟩, _⟩ := htexts _ (htext _ _ hmem)
      cases heq
      exact fun hn => h (hsub hn)
    · rcases lineBreaks_cases line with hl | hl
      · rw [hl, List.append_nil]
        exact fun hmem => hbreak (List.mem_of_mem_dropLast hmem)
      · rw [hl, List.dropLast_concat]
        exact hbreak

/-- A line that does not end in a blank has no break. -/
theorem hardBreak_not_mem_ofLine (h : line.EndsUnblank) : .hardBreak ∉ ofLine line := by
  have hsuffix : [' ', ' '].isSuffixOf line = false := by
    rw [← Bool.not_eq_true, List.isSuffixOf_iff_suffix]
    rintro ⟨front, rfl⟩
    exact h ' ' (by simp) (by decide)
  obtain ⟨texts, heq, htexts⟩ := exists_ofLine_eq line
  have hlb : lineBreaks line = [] := by simp [lineBreaks, hsuffix]
  rw [heq, hlb, List.append_nil]
  intro hmem
  unfold orEmptyText at hmem
  split_ifs at hmem
  · simp [plain] at hmem
  · obtain ⟨⟨_, _, heq, _⟩, _⟩ := htexts _ hmem
    cases heq

end Node

end TicketMarkup
