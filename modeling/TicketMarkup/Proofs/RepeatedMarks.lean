import TicketMarkup.Proofs.InlineContent
import TicketMarkup.Proofs.NestedDelimiters

/-!
# Repeated marks

`count_marks_ofLine_le`: a text of a line carries the marks of delimiters that are all different, and
at most one mark of its own. So it is struck, code or a link at most once; it may be strong or
emphasised more than once, for several delimiters give these marks, but at most four times.
-/

namespace TicketMarkup

namespace Node

/-- The marks that a text has of its own: none, or the one of code or of a link. -/
inductive OwnMarks : List Mark → Prop
  | none : OwnMarks []
  | code : OwnMarks [.code]
  | link (href : Text) (title : Option Text) : OwnMarks [.link href title]

variable {t : Text} {marks outer : List Mark}

/-! ## Fragments -/

theorem exists_mem_fragments {runs : List Run} {n : Node} (h : n ∈ fragmentsAll outer runs) :
    ∃ run ∈ runs, n ∈ fragments outer run := by
  induction runs with
  | nil => exact absurd h List.not_mem_nil
  | cons run rest ih =>
    rcases List.mem_append.1 h with h | h
    · exact ⟨run, List.mem_cons_self, h⟩
    · obtain ⟨run', hmem, hrun⟩ := ih h
      exact ⟨run', List.mem_cons_of_mem _ hmem, hrun⟩

/-- The texts of a delimiter's run are those of the runs inside, under the marks of the delimiter. -/
theorem fragments_run (outer : List Mark) (d : Delimiter) (runs : List Run) :
    fragments outer (d.run runs) = fragmentsAll (outer ++ d.marks) runs := by
  cases d with
  | strongEmphasis mark =>
    simp [Delimiter.run, Delimiter.marks, fragments, fragmentsAll]
  | _ => rfl

theorem exists_ownMarks_of_isLeaf {run : Run} (hleaf : run.IsLeaf)
    (h : text t marks ∈ fragments outer run) : ∃ own, OwnMarks own ∧ marks = outer ++ own := by
  obtain ⟨-, hmark⟩ := hleaf
  cases run with
  | text u =>
    obtain ⟨-, rfl⟩ := text.inj (List.mem_singleton.1 h)
    exact ⟨[], .none, (List.append_nil _).symm⟩
  | code u =>
    obtain ⟨-, rfl⟩ := text.inj (List.mem_singleton.1 h)
    exact ⟨_, .code, rfl⟩
  | link r | image r =>
    obtain ⟨-, rfl⟩ := text.inj (List.mem_singleton.1 h)
    exact ⟨_, .link r.target r.title, rfl⟩
  | lineBreak => cases List.mem_singleton.1 h
  | strong _ | emphasis _ | strike _ => cases hmark

/-- The marks of a text come from delimiters that are read one inside the other, and from the text
itself. -/
theorem exists_reads_of_mem_fragmentsAll {u : Text}
    (h : text t marks ∈ fragmentsAll outer (Run.ofText u)) :
    ∃ ds u' own, Run.Reads u ds u' ∧ OwnMarks own ∧
      marks = outer ++ (ds.flatMap Delimiter.marks ++ own) := by
  induction hlength : u.length using Nat.strong_induction_on generalizing u outer with
  | _ n ih =>
    obtain ⟨run, hmem, hrun⟩ := exists_mem_fragments h
    rcases Run.isLeaf_or_of_mem_ofText hmem with hleaf | ⟨d, inner, hpiece, rfl⟩
    · obtain ⟨own, hown, heq⟩ := exists_ownMarks_of_isLeaf hleaf hrun
      exact ⟨[], u, own, .here u, hown, heq⟩
    · rw [fragments_run] at hrun
      have hlt : inner.length < n := hlength ▸ length_inner_lt_of_mem_pieces hpiece
      obtain ⟨ds, u', own, hreads, hown, heq⟩ := ih inner.length hlt hrun rfl
      refine ⟨d :: ds, u', own, .through hpiece hreads, hown, ?_⟩
      rw [heq, List.flatMap_cons, List.append_assoc, List.append_assoc]

/-! ## Joined texts -/

/-- Joining neighbours gives a text no other marks than it had. -/
theorem exists_text_of_mem_consJoined {n : Node} {rest : List Node}
    (h : text t marks ∈ consJoined n rest) : ∃ u, text u marks ∈ n :: rest := by
  unfold consJoined at h
  split at h
  · exact ⟨t, List.mem_cons_of_mem _ h⟩
  · next t' marks' u marks'' more _ =>
    split at h
    · rcases List.mem_cons.1 h with h | h
      · obtain ⟨-, rfl⟩ := text.inj h
        exact ⟨t', List.mem_cons_self⟩
      · exact ⟨t, List.mem_cons_of_mem _ (List.mem_cons_of_mem _ h)⟩
    · exact ⟨t, h⟩
  · exact ⟨t, h⟩

theorem exists_text_of_mem_foldr_consJoined {nodes tail : List Node}
    (h : text t marks ∈ nodes.foldr consJoined tail) : ∃ u, text u marks ∈ nodes ++ tail := by
  induction nodes generalizing t with
  | nil => exact ⟨t, h⟩
  | cons n rest ih =>
    obtain ⟨u, hu⟩ := exists_text_of_mem_consJoined h
    rcases List.mem_cons.1 hu with rfl | hu
    · exact ⟨u, List.mem_cons_self⟩
    · obtain ⟨u', hu'⟩ := ih hu
      exact ⟨u', List.mem_cons_of_mem _ hu'⟩

/-- The marks of a text of a line. -/
theorem exists_marks_eq_of_mem_ofLine {line : Text} (h : text t marks ∈ ofRuns (Run.ofLine line)) :
    ∃ (ds : List Delimiter) (own : List Mark), ds.Nodup ∧ OwnMarks own ∧
      marks = ds.flatMap Delimiter.marks ++ own := by
  obtain ⟨u, -, heq⟩ := ofRuns_ofLine line
  rw [heq] at h
  obtain ⟨t', hmem⟩ := exists_text_of_mem_foldr_consJoined h
  have hfragment : text t' marks ∈ fragmentsAll [] (Run.ofText u) := by
    rcases List.mem_append.1 hmem with hmem | hmem
    · exact hmem
    · rcases lineBreaks_cases line with hbreaks | hbreaks <;> simp [hbreaks] at hmem
  obtain ⟨ds, u', own, hreads, hown, hmarks⟩ := exists_reads_of_mem_fragmentsAll hfragment
  exact ⟨ds, own, hreads.nodup, hown, hmarks⟩

/-! ## Counting -/

/-- No mark of its own is one that delimiters give, and there is at most one. -/
theorem OwnMarks.counts {own : List Mark} (h : OwnMarks own) :
    own.count .strike = 0 ∧ own.count .strong = 0 ∧ own.count .em = 0 ∧ own.length ≤ 1 := by
  cases h <;> simp

/-- Delimiters give neither the mark of code nor that of a link. -/
theorem not_isLink_of_mem_marks {d : Delimiter} {mark : Mark} (h : mark ∈ d.marks) :
    mark ≠ .code ∧ ¬mark.isLink := by
  cases d <;> simp only [Delimiter.marks, List.mem_cons, List.not_mem_nil, or_false] at h
  · rcases h with rfl | rfl <;> simp [Mark.isLink]
  all_goals simp [h, Mark.isLink]

/-- **Repeated marks.** The marks of a text of a line are those of delimiters that are all different,
and at most one of its own, for code or a link. So no text is struck, code or a link twice, and none
is strong or emphasised more than four times. -/
theorem count_marks_ofLine_le {line : Text} (h : text t marks ∈ ofRuns (Run.ofLine line)) :
    (∃ (ds : List Delimiter) (own : List Mark), ds.Nodup ∧ OwnMarks own ∧
        marks = ds.flatMap Delimiter.marks ++ own) ∧
      marks.count .strike ≤ 1 ∧ marks.count .code ≤ 1 ∧ marks.countP Mark.isLink ≤ 1 ∧
        marks.count .strong ≤ 4 ∧ marks.count .em ≤ 4 := by
  obtain ⟨ds, own, hnodup, hown, rfl⟩ := exists_marks_eq_of_mem_ofLine h
  obtain ⟨hstrike, hstrong, hem, hlength⟩ := hown.counts
  have hlink : (ds.flatMap Delimiter.marks).countP Mark.isLink = 0 := by
    simp only [List.countP_eq_zero, List.mem_flatMap]
    rintro mark ⟨d, -, hd⟩
    exact (not_isLink_of_mem_marks hd).2
  have hcode : (ds.flatMap Delimiter.marks).count .code = 0 := by
    simp only [List.count_eq_zero, List.mem_flatMap]
    rintro ⟨d, -, hd⟩
    exact (not_isLink_of_mem_marks hd).1 rfl
  refine ⟨⟨ds, own, hnodup, hown, rfl⟩, ?_, ?_, ?_, ?_, ?_⟩
  · rw [List.count_append, hstrike]
    exact Delimiter.count_marks_le hnodup .strike
  · rw [List.count_append, hcode, Nat.zero_add]
    exact List.count_le_length.trans hlength
  · rw [List.countP_append, hlink, Nat.zero_add]
    exact List.countP_le_length.trans hlength
  · rw [List.count_append, hstrong]
    exact Delimiter.count_marks_le hnodup .strong
  · rw [List.count_append, hem]
    exact Delimiter.count_marks_le hnodup .em

/-! ## Delimiters that give the same mark -/

theorem ofText_of_delimited {u : Text} (d : Delimiter) (inner : Text)
    (h : pieces u = [.delimited d inner]) : Run.ofText u = [d.run (Run.ofText inner)] := by
  rw [Run.ofText_eq, h]
  rfl

theorem ofText_of_literal {u : Text} (c : Char) (h : pieces u = [.literal c]) :
    Run.ofText u = [.text [c]] := by
  rw [Run.ofText_eq, h]
  rfl

/-- All delimiters one inside the other make a text strong four times and emphasised four times. -/
theorem count_marks_ofLine_le_seven_delimiters :
    ∃ marks, text ['a'] marks ∈ ofRuns (Run.ofLine "*__***___**_~~a~~_**___***__*".toList) ∧
      marks.count .strong = 4 ∧ marks.count .em = 4 ∧
        ∃ (ds : List Delimiter) (own : List Mark), ds.Nodup ∧ OwnMarks own ∧
          marks = ds.flatMap Delimiter.marks ++ own := by
  have h : text ['a'] [.em, .strong, .strong, .em, .strong, .em, .strong, .em, .strike] ∈
      ofRuns (Run.ofLine "*__***___**_~~a~~_**___***__*".toList) := by
    rw [Run.ofLine, if_neg (by decide),
      ofText_of_delimited (.emphasis .star) "__***___**_~~a~~_**___***__".toList
        (by decide +kernel),
      ofText_of_delimited (.strong .underscore) "***___**_~~a~~_**___***".toList
        (by decide +kernel),
      ofText_of_delimited (.strongEmphasis .star) "___**_~~a~~_**___".toList (by decide +kernel),
      ofText_of_delimited (.strongEmphasis .underscore) "**_~~a~~_**".toList (by decide +kernel),
      ofText_of_delimited (.strong .star) "_~~a~~_".toList (by decide +kernel),
      ofText_of_delimited (.emphasis .underscore) "~~a~~".toList (by decide +kernel),
      ofText_of_delimited .strike ['a'] (by decide +kernel),
      ofText_of_literal 'a' (by decide +kernel)]
    exact List.mem_singleton_self _
  exact ⟨_, h, rfl, rfl, (count_marks_ofLine_le h).1⟩

/-- A strong run inside a strong run of another delimiter. -/
theorem mem_ofLine_strong_strong :
    text ['a'] [.strong, .strong] ∈ ofRuns (Run.ofLine "**__a__**".toList) := by
  rw [Run.ofLine, if_neg (by decide),
    ofText_of_delimited (.strong .star) "__a__".toList (by decide +kernel),
    ofText_of_delimited (.strong .underscore) ['a'] (by decide +kernel),
    ofText_of_literal 'a' (by decide +kernel)]
  exact List.mem_singleton_self _

end Node

end TicketMarkup
