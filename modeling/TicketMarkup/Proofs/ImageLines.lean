import TicketMarkup.Proofs.Escapes
import TicketMarkup.Proofs.Outlines
import TicketMarkup.Proofs.ReadableText
import TicketMarkup.Proofs.TerminalRuns

/-!
# Lines that are images

`image_mem_step_iff`: a line is an image exactly if no construct of several lines claims it and the
text of the line, trimmed, is the run of that image and nothing else.

Both readings accept the same lines, those that write an image (`Reference.Written`):

1. A whole line is matched if an image is read at its head and only blanks stand behind it
   (`Line.image?_eq_some_iff`).
2. A text whose runs are one image has one piece, and that piece takes up the text
   (`Run.ofLine_eq_image_iff`).
3. No other form of a line starts with an exclamation mark (`Reading.ofPlainLine_eq_image_iff`).
-/

namespace TicketMarkup

open Text

variable {r : Reference} {line t : Text}

/-! ## Whole lines -/

namespace Line

/-- A line is matched as an image exactly if its text, trimmed, writes the image. -/
theorem image?_eq_some_iff : image? line = some r ↔ r.Written .image line.trim := by
  constructor
  · intro h
    unfold image? at h
    split at h
    · next t hstart =>
      split at h
      · next s hread =>
        split_ifs at h with hblank
        obtain rfl := Option.some.inj h
        have hwritten : s.reference.Written .image ('!' :: s.text) :=
          Reference.written_of_read? hread
        obtain ⟨rest, rfl⟩ := Reference.read?_isPrefix hread
        rw [List.drop_left] at hblank
        have hend : EndsUnblank ('!' :: s.text) := by
          intro c hc
          rw [hwritten.getLast?, Option.mem_some_iff] at hc
          exact hc ▸ by decide
        rwa [trim, hstart, ← List.cons_append, trimEnd_append_of_isBlank _ hblank,
          trimEnd_of_endsUnblank hend]
      · simp at h
    · simp at h
  · intro h
    obtain ⟨blanks, hblanks, hstart⟩ := exists_trimEnd_append line.trimStart
    obtain ⟨u, s, htrim, hread, rfl, htext⟩ :=
      Reference.exists_read?_of_written h h.target_ne_nil blanks
    have hs : s.text = '[' :: u := by
      rw [htrim] at htext
      exact List.append_cancel_left htext
    have hmark : line.trimStart = '!' :: ('[' :: u ++ blanks) := by
      rw [← hstart, ← trim, htrim]
      rfl
    simp only [image?, hmark, hread, hs, List.drop_left, hblanks, if_true]

end Line

/-! ## Runs of a text -/

theorem ReferenceKind.run_inj {kind kind' : ReferenceKind} {r' : Reference} :
    kind.run r = kind'.run r' ↔ kind = kind' ∧ r = r' := by
  cases kind <;> cases kind' <;> simp [ReferenceKind.run]

/-- A span that stands for a reference writes it. -/
theorem written_of_isSpan {kind : ReferenceKind} (h : IsSpan t (.run (kind.run r))) :
    r.Written kind t := by
  generalize hatom : Atom.run (kind.run r) = atom at h
  cases h with
  | literal | escaped => simp at hatom
  | @delimited d => cases kind <;> cases d <;> simp [ReferenceKind.run, Delimiter.run] at hatom
  | code => cases kind <;> simp [ReferenceKind.run] at hatom
  | reference written =>
    obtain ⟨rfl, rfl⟩ := ReferenceKind.run_inj.1 (Atom.run.inj hatom)
    exact written

/-- A text whose runs are one reference writes it. -/
theorem Run.written_of_ofText {kind : ReferenceKind} (h : ofText t = [kind.run r]) :
    r.Written kind t := by
  have htiles := flatMap_source_pieces t
  rw [ofText_eq] at h
  cases hpieces : pieces t with
  | nil => simp [hpieces] at h
  | cons piece more =>
    have hspan := (spans_of_mem_piecesFrom (hpieces ▸ List.mem_cons_self : piece ∈ pieces t)).2
    rw [hpieces, List.foldr_cons] at h
    rw [hpieces] at htiles
    generalize hrest : more.foldr (fun piece rest => consPiece piece (ofText piece.inner) rest) []
      = rest at h
    cases piece with
    | literal c | escaped c =>
      rcases rest with _ | ⟨_ | _, rest⟩ <;> cases kind <;>
        simp [consPiece, consChar, ReferenceKind.run] at h
    | delimited d inner =>
      cases d <;> cases kind <;> simp [consPiece, Delimiter.run, ReferenceKind.run] at h
    | code ticks code => cases kind <;> simp [consPiece, ReferenceKind.run] at h
    | reference kind' s =>
      obtain ⟨hrun, rfl⟩ := List.cons.inj h
      have hmore : more = [] := by
        cases more with
        | nil => rfl
        | cons => exact absurd hrest (consPiece_ne_nil _ _ _)
      rw [hmore, List.flatMap_singleton] at htiles
      rw [← htiles]
      obtain ⟨rfl, rfl⟩ := ReferenceKind.run_inj.1 hrun
      exact written_of_isSpan hspan

/-- The runs of a line are one image exactly if the line writes the image. -/
theorem Run.ofLine_eq_image_iff : ofLine t = [.image r] ↔ r.Written .image t := by
  constructor
  · intro h
    unfold ofLine at h
    split_ifs at h
    · have hlast := congrArg List.getLast? h
      simp at hlast
    · exact @written_of_ofText _ _ .image h
  · intro h
    exact ofLine_of_written h h.target_ne_nil

/-! ## Lines that no construct of several lines claims -/

namespace Line

variable {c : Char} {rest : Text}

theorem isRule_of_trimStart (h : line.trimStart = c :: rest) (hc : c ∉ ['*', '-', '_']) :
    isRule line = false := by
  have hunblank : ¬TicketMarkup.isBlank c :=
    not_of_mem_head?_dropWhile (l := line) (by rw [← trimStart, h]; rfl)
  have hink : line.filter (!TicketMarkup.isBlank ·) = c :: ink rest := by
    rw [← ink, ← ink_trimStart, h, ink, List.filter_cons_of_pos (by simpa using hunblank), ← ink]
  rw [isRule, hink]
  simp [hc]

theorem listItem?_of_trimStart (h : line.trimStart = c :: rest) (hc : c ∉ ['-', '*', '+'])
    (hdigit : ¬isDigit c) : listItem? line = none := by
  rw [listItem?, h, marker?, if_neg hc, if_neg hdigit]

end Line

/-- On its own a line is read as an image exactly if it is matched as one. -/
theorem Reading.ofPlainLine_eq_image_iff :
    ofPlainLine line = .leaf (.image r) ↔ Line.image? line = some r := by
  constructor
  · intro h
    unfold ofPlainLine at h
    repeat' split at h
    all_goals simp_all
  · intro h
    obtain ⟨t, hstart⟩ : ∃ t, line.trimStart = '!' :: t := by
      unfold Line.image? at h
      split at h
      · next t hstart => exact ⟨t, hstart⟩
      · simp at h
    simp [ofPlainLine, Line.isBlank_of_trimStart hstart,
      Line.heading?_of_trimStart hstart (by decide), Line.isRule_of_trimStart hstart (by decide),
      Line.listItem?_of_trimStart hstart (by decide) (by decide), h]

namespace Context

variable {c : Context}

theorem eq_leaf_of_own? {reading : Reading} {leaf : Leaf} (h : c.own? reading = some (.leaf leaf)) :
    reading = .leaf leaf := by
  cases reading <;> simp_all [own?]

end Context

/-- **Image lines.** In any context, a line has the event of an image exactly if no construct of
several lines claims it and its text, trimmed, has that image for its only run. -/
theorem image_mem_step_iff (c : Context) (line : Text) (behind : Option Text) (r : Reference) :
    .leaf (.image r) ∈ (c.step (c.read line behind)).1 ↔
      c.Unclaimed line ∧ Run.ofLine line.trim = [.image r] := by
  rw [Run.ofLine_eq_image_iff, ← Line.image?_eq_some_iff, ← Reading.ofPlainLine_eq_image_iff]
  constructor
  · intro h
    have hread := Context.eq_leaf_of_own?
      (Context.own?_of_mem_step Context.eq_fenced_of_read_closingFence rfl h)
    have hunclaimed := Context.unclaimed_of_read hread
    exact ⟨hunclaimed, Context.read_of_unclaimed hunclaimed behind ▸ hread⟩
  · rintro ⟨hunclaimed, hplain⟩
    rw [Context.read_of_unclaimed hunclaimed, hplain]
    exact List.mem_append_right _ List.mem_cons_self

end TicketMarkup
