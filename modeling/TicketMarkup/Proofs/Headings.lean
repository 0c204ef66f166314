import TicketMarkup.Proofs.Contexts
import TicketMarkup.Proofs.EventTexts
import TicketMarkup.Proofs.Outlines

/-!
# Headings

`classify_heading`: a text of one line that is not indented as code is a single heading exactly if
the line has the form of one (`Line.IsHeading`); its level is the number of marks, and its text is
what stands behind them, trimmed and without a closing run (`Line.IsClosed`).

1. The recogniser of headings finds the form and nothing else (`heading?_eq_some_iff`).
2. What is left in front of the last marks of a trimmed text ends in a blank exactly if they are a
   closing run; then the run and the blanks before it are cut off (`headingText_of_isClosed`,
   `headingText_of_not_isClosed`).
3. A line with the form of a heading starts with a mark, so no construct of several lines claims it
   (`Context.unclaimed_of_isHeading`).
-/

namespace TicketMarkup

open Text

namespace Line

variable {line t stem rest text : Text} {level : Nat}

/-! ## The form of headings -/

/-- A line of a heading: behind blanks it has one to six marks, then a blank, so that the marks do
not go on, and the rest. -/
inductive IsHeading : Text → Nat → Text → Prop
  | intro {indent : Text} {level : Nat} {c : Char} (rest : Text)
      (indent_blank : Text.isBlank indent) (one_le : 1 ≤ level) (le_six : level ≤ 6)
      (blank : isBlank c) :
      IsHeading (indent ++ (List.replicate level '#' ++ c :: rest)) level rest

/-- A text that is closed by a run of marks: a stem that is not empty and does not end in a blank,
blanks, and the run. -/
structure IsClosed (t stem : Text) : Prop where
  nonempty : stem ≠ []
  endsUnblank : stem.EndsUnblank
  split : ∃ gap run : Text, gap ≠ [] ∧ gap.isBlank ∧ run ≠ [] ∧ (∀ c ∈ run, c = '#') ∧
    t = stem ++ gap ++ run

theorem IsHeading.trimStart_eq (h : IsHeading line level rest) :
    ∃ c, isBlank c ∧ line.trimStart = List.replicate level '#' ++ c :: rest := by
  cases h with
  | @intro indent level c rest hindent hone _ hc =>
    obtain ⟨n, rfl⟩ := Nat.exists_eq_add_of_le' hone
    refine ⟨c, hc, ?_⟩
    rw [trimStart, List.dropWhile_append_of_pos (List.all_eq_true.1 hindent), List.replicate_succ]
    exact List.dropWhile_cons_of_neg (by decide)

theorem IsHeading.bounds (h : IsHeading line level rest) : 1 ≤ level ∧ level ≤ 6 := by
  cases h with
  | intro _ _ hone hsix _ => exact ⟨hone, hsix⟩

theorem IsHeading.exists_trimStart_eq_cons (h : IsHeading line level rest) :
    ∃ more, line.trimStart = '#' :: more := by
  obtain ⟨c, -, hstart⟩ := h.trimStart_eq
  obtain ⟨n, rfl⟩ := Nat.exists_eq_add_of_le' h.bounds.1
  exact ⟨_, hstart⟩

/-! ## Closing runs -/

theorem headingText_cons_of_isBlank {c : Char} (hc : isBlank c) (rest : Text) :
    headingText (c :: rest) = headingText rest := by
  have htrim : trim (c :: rest) = rest.trim := congrArg trimEnd (List.dropWhile_cons_of_pos hc)
  simp only [headingText, htrim]

theorem headingText_of_isClosed (h : IsClosed t.trim stem) : headingText t = stem := by
  obtain ⟨gap, run, hgap, hblank, hrun, hmarks, heq⟩ := h.split
  have hlast : (stem ++ gap).getLast?.any isBlank := by
    rw [List.getLast?_append_of_ne_nil _ hgap, List.getLast?_eq_some_getLast hgap]
    exact List.all_eq_true.1 hblank _ (List.getLast_mem hgap)
  have hfront : dropEndWhile (· == '#') t.trim = stem ++ gap := by
    rw [heq, dropEndWhile_append_of_forall _ (by simpa using hmarks)]
    refine List.rdropWhile_eq_self_iff.2 fun hne hmark => ?_
    rw [List.getLast?_eq_some_getLast hne, Option.any_some, beq_iff_eq.1 hmark] at hlast
    exact absurd hlast (by decide)
  have hlength : (stem ++ gap).length < t.trim.length := by
    have hpos := List.length_pos_iff.2 hrun
    simp only [heq, List.length_append]
    omega
  rw [headingText, hfront, if_pos ⟨hlength, hlast⟩, trimEnd_append_of_isBlank _ hblank,
    trimEnd_of_endsUnblank h.endsUnblank]

theorem headingText_of_not_isClosed (h : ∀ stem, ¬IsClosed t.trim stem) :
    headingText t = t.trim := by
  refine if_neg fun ⟨hlength, hlast⟩ => ?_
  obtain ⟨run, hmarks, heq⟩ := exists_dropEndWhile_append (· == '#') t.trim
  generalize dropEndWhile (· == '#') t.trim = front at hlength hlast heq
  obtain ⟨gap, hblank, hfront⟩ := exists_trimEnd_append front
  refine h front.trimEnd ⟨fun hnil => ?_, endsUnblank_trimEnd front, gap, run, ?_, hblank, ?_,
    by simpa using hmarks, by rw [hfront, heq]⟩
  · -- Then all in front of the marks is blank, but a trimmed text does not start with a blank.
    rw [hnil, List.nil_append] at hfront
    cases hgap : gap with
    | nil => simp [← hfront, hgap] at hlast
    | cons c more =>
      have hc : c ∈ t.trim.head? := by simp [← heq, ← hfront, hgap]
      rw [hgap] at hblank
      exact not_isBlank_of_mem_head?_trim hc (List.all_eq_true.1 hblank c List.mem_cons_self)
  · rintro rfl
    rw [List.append_nil] at hfront
    cases hc : front.getLast? with
    | none => simp [hc] at hlast
    | some c =>
      rw [hc] at hlast
      exact (hfront ▸ endsUnblank_trimEnd front) c hc hlast
  · rintro rfl
    rw [List.append_nil] at heq
    exact absurd hlength (by simp [heq])

/-- The text of a heading is trimmed. -/
theorem trim_headingText (t : Text) : (headingText t).trim = headingText t := by
  by_cases h : ∃ stem, IsClosed t.trim stem
  · obtain ⟨stem, h⟩ := h
    obtain ⟨gap, run, -, -, -, -, heq⟩ := h.split
    rw [headingText_of_isClosed h]
    refine trim_of_unblank (fun c hc => ?_) h.endsUnblank
    have hhead : c ∈ t.trim.head? := by
      rw [heq, List.append_assoc, List.head?_append_of_ne_nil _ h.nonempty]
      exact hc
    exact not_isBlank_of_mem_head?_trim hhead
  · rw [headingText_of_not_isClosed (not_exists.1 h), trim_trim]

/-! ## Recognising headings -/

theorem exists_isHeading_of_heading? (h : heading? line = some (level, text)) :
    ∃ rest, IsHeading line level rest ∧ headingText rest = text := by
  simp only [heading?] at h
  split_ifs at h with hform
  obtain ⟨hone, hsix, hblank⟩ := hform
  obtain ⟨rfl, rfl⟩ := Prod.mk.inj (Option.some.inj h)
  have hmarks : line.trimStart.takeWhile (· == '#') =
      List.replicate (line.trimStart.takeWhile (· == '#')).length '#' :=
    List.eq_replicate_length.2 fun c hc => by simpa using List.mem_takeWhile_imp hc
  have hstart := List.takeWhile_append_dropWhile (p := (· == '#')) (l := line.trimStart)
  cases hrest : line.trimStart.dropWhile (· == '#') with
  | nil => simp [hrest] at hblank
  | cons c rest =>
    rw [hrest] at hblank
    refine ⟨rest, ?_, (headingText_cons_of_isBlank hblank rest).symm⟩
    have hindent : Text.isBlank (line.takeWhile isBlank) := List.all_takeWhile
    have hheading := IsHeading.intro rest hindent hone hsix hblank
    rwa [← hmarks, ← hrest, hstart, trimStart, List.takeWhile_append_dropWhile] at hheading

theorem IsHeading.heading?_eq (h : IsHeading line level rest) :
    heading? line = some (level, headingText rest) := by
  obtain ⟨c, hc, hstart⟩ := h.trimStart_eq
  have hmarks : ∀ d ∈ List.replicate level '#', d == '#' :=
    fun d hd => beq_iff_eq.2 (List.eq_of_mem_replicate hd)
  have hmark : ¬(c == '#') := by
    rw [beq_iff_eq]
    rintro rfl
    exact absurd hc (by decide)
  simp only [heading?, hstart, takeWhile_append_cons hmarks hmark,
    dropWhile_append_cons hmarks hmark, List.length_replicate]
  rw [if_pos ⟨h.bounds.1, h.bounds.2, hc⟩, headingText_cons_of_isBlank hc]

/-- The recogniser finds the lines of headings. -/
theorem heading?_eq_some_iff :
    heading? line = some (level, text) ↔
      ∃ rest, IsHeading line level rest ∧ headingText rest = text := by
  constructor
  · exact exists_isHeading_of_heading?
  · rintro ⟨rest, h, rfl⟩
    exact h.heading?_eq

theorem indentedCode?_eq_none (hspaces : ¬List.replicate 4 ' ' <+: line)
    (htab : ¬['\t'] <+: line) : indentedCode? line = none := by
  unfold indentedCode?
  split_ifs
  · rfl
  · split
    · exact absurd ⟨_, rfl⟩ hspaces
    · exact absurd ⟨_, rfl⟩ htab
    · rfl

end Line

/-! ## Texts of one line -/

variable {line text : Text} {level : Nat}

theorem Reading.ofPlainLine_eq_heading_iff :
    ofPlainLine line = .leaf (.heading level text) ↔ Line.heading? line = some (level, text) := by
  constructor
  · intro h
    unfold ofPlainLine at h
    repeat' split at h
    all_goals simp_all
  · intro h
    obtain ⟨rest, hform, -⟩ := Line.heading?_eq_some_iff.1 h
    obtain ⟨more, hstart⟩ := hform.exists_trimStart_eq_cons
    simp [ofPlainLine, Line.isBlank_of_trimStart hstart, h]

namespace Context

/-- A line with the form of a heading starts with a mark, so no construct of several lines claims
it, unless it is taken as code. -/
theorem unclaimed_of_isHeading {rest : Text} (h : Line.IsHeading line level rest)
    (hcode : Line.indentedCode? line = none) : idle.Unclaimed line := by
  obtain ⟨more, hstart⟩ := h.exists_trimStart_eq_cons
  exact ⟨Line.openingFence?_of_trimStart hstart (by decide), by simp [TakesAsCode, hcode],
    Line.quote?_of_trimStart hstart (by decide), Line.isTableRow_of_trimStart hstart (by decide)⟩

/-- Outside constructs of several lines, only a line that is read as a leaf has the leaf as its
single event. -/
theorem events_singleton_eq_leaf_iff {l : Leaf} :
    idle.events [line] = [.leaf l] ↔ idle.read line none = .leaf l := by
  rw [events, next, List.head?_nil]
  cases idle.read line none <;> simp [events, step, entering, closing, inList]

theorem events_singleton_eq_heading_iff (hcode : Line.indentedCode? line = none) :
    idle.events [line] = [.leaf (.heading level text)] ↔
      Line.heading? line = some (level, text) := by
  rw [events_singleton_eq_leaf_iff, ← Reading.ofPlainLine_eq_heading_iff]
  constructor
  · intro h
    rwa [read_of_unclaimed (unclaimed_of_read h)] at h
  · intro h
    obtain ⟨rest, hform, -⟩ :=
      Line.heading?_eq_some_iff.1 (Reading.ofPlainLine_eq_heading_iff.1 h)
    rwa [read_of_unclaimed (unclaimed_of_isHeading hform hcode)]

end Context

/-- The events of a text of one line. -/
theorem classify_of_newline_not_mem (hne : line ≠ []) (hline : '\n' ∉ line) :
    classify line = (Context.idle.events [line]).map (⟨1, ·⟩) := by
  have hlines : line.lines = [line] := by
    rw [lines, splitOn_of_not_mem hline, closeLines, if_neg (by rwa [List.isEmpty_iff])]
  rw [classify, hlines, classifyFrom_cons, Context.events, List.map_append]
  rfl

/-- A text of one line is a single heading exactly if the recogniser finds one in it. -/
theorem classify_eq_heading_iff (hline : '\n' ∉ line) (hcode : Line.indentedCode? line = none)
    {number : Nat} :
    classify line = [⟨number, .leaf (.heading level text)⟩] ↔
      number = 1 ∧ Line.heading? line = some (level, text) := by
  by_cases hne : line = []
  · rw [hne]
    simp [classify, lines, splitOn, closeLines, classifyFrom, Context.closing, Line.heading?,
      trimStart]
  · rw [classify_of_newline_not_mem hne hline, List.map_eq_singleton_iff,
      ← Context.events_singleton_eq_heading_iff hcode]
    constructor
    · rintro ⟨e, he, heq⟩
      obtain ⟨rfl, rfl⟩ := NumberedEvent.mk.inj heq
      exact ⟨rfl, he⟩
    · rintro ⟨rfl, he⟩
      exact ⟨_, he, rfl⟩

/-- **Headings.** A text of one line that starts neither with four spaces nor with a tab is a single
heading exactly if it is a line of a heading. The level is the number of its marks; the text is what
stands behind them, trimmed and, where a closing run ends it, without the run, and trimmed again. -/
theorem classify_heading (hline : '\n' ∉ line) (hspaces : ¬List.replicate 4 ' ' <+: line)
    (htab : ¬['\t'] <+: line) :
    ((∃ number level text, classify line = [⟨number, .leaf (.heading level text)⟩]) ↔
        ∃ level rest, Line.IsHeading line level rest) ∧
      ∀ level rest, Line.IsHeading line level rest →
        ∃ text, classify line = [⟨1, .leaf (.heading level text)⟩] ∧
          (∀ stem, Line.IsClosed rest.trim stem → text = stem) ∧
          ((∀ stem, ¬Line.IsClosed rest.trim stem) → text = rest.trim) ∧
          text.trim = text := by
  have hcode := Line.indentedCode?_eq_none hspaces htab
  simp only [classify_eq_heading_iff hline hcode, Line.heading?_eq_some_iff, true_and]
  refine ⟨⟨?_, ?_⟩, ?_⟩
  · rintro ⟨number, level, text, -, rest, hform, -⟩
    exact ⟨level, rest, hform⟩
  · rintro ⟨level, rest, hform⟩
    exact ⟨1, level, Line.headingText rest, rfl, rest, hform, rfl⟩
  · intro level rest hform
    exact ⟨Line.headingText rest, ⟨rest, hform, rfl⟩,
      fun stem => Line.headingText_of_isClosed, Line.headingText_of_not_isClosed,
      Line.trim_headingText rest⟩

/-- Marks as the text of a heading, in front of a closing run. -/
theorem classify_heading_of_marks :
    let line := "  ##  # \t#".toList
    ('\n' ∉ line ∧ ¬List.replicate 4 ' ' <+: line ∧ ¬['\t'] <+: line) ∧
      Line.IsHeading line 2 " # \t#".toList ∧ Line.IsClosed (trim " # \t#".toList) ['#'] ∧
      classify line = [⟨1, .leaf (.heading 2 ['#'])⟩] := by
  intro line
  have hline : '\n' ∉ line ∧ ¬List.replicate 4 ' ' <+: line ∧ ¬['\t'] <+: line := by decide
  have hform : Line.IsHeading line 2 " # \t#".toList :=
    @Line.IsHeading.intro [' ', ' '] 2 ' ' _ (by decide) (by decide) (by decide) (by decide)
  have hend : EndsUnblank ['#'] := by simp [EndsUnblank, show ¬isBlank '#' by decide]
  have hclosed : Line.IsClosed (trim " # \t#".toList) ['#'] :=
    ⟨by decide, hend, [' ', '\t'], ['#'], by decide, by decide, by decide, by simp, by decide⟩
  obtain ⟨text, hclassify, htext, -⟩ := (classify_heading hline.1 hline.2.1 hline.2.2).2 2 _ hform
  rw [htext _ hclosed] at hclassify
  exact ⟨hline, hform, hclosed, hclassify⟩

end TicketMarkup
