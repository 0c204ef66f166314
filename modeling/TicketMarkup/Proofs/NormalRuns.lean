import TicketMarkup.Proofs.Escapes
import TicketMarkup.Proofs.TerminalRuns
import TicketMarkup.Proofs.TextParts

/-!
# Runs in normal form

`normal_ofLine`: the runs of a line are in normal form, at every depth: no text is empty or stands
beside another text, delimiters hold at least one run, code is not empty, and targets have neither
blanks nor closing parentheses. The one break that a line can have comes behind all of them.

1. `Run.IsNormal` and `Run.Normal` say what normal form is, for a run and for neighbouring runs. No
   run with a break in it is normal.
2. Each piece of the scan holds what normal form asks of it (`Piece.WellFormed`), because each attempt
   succeeds on such pieces only (`wellFormed_of_mem_piecesFrom`).
3. A well-formed piece in front of normal runs gives normal runs (`normal_consPiece`), so the runs of
   a text are normal (`normal_ofText`).
-/

namespace TicketMarkup

/-! ## Normal form -/

namespace Run

/-- The run is a plain text. -/
def isText : Run → Bool
  | text _ => true
  | _ => false

/-- No two texts are neighbours. -/
def Apart (runs : List Run) : Prop := runs.IsChain fun a b => ¬(a.isText ∧ b.isText)

mutual

/-- A run in normal form. -/
inductive IsNormal : Run → Prop
  | text {t : Text} (nonempty : t ≠ []) : IsNormal (.text t)
  | strong {inner : List Run} (nonempty : inner ≠ []) (h : Normal inner) : IsNormal (.strong inner)
  | emphasis {inner : List Run} (nonempty : inner ≠ []) (h : Normal inner) :
      IsNormal (.emphasis inner)
  | strike {inner : List Run} (nonempty : inner ≠ []) (h : Normal inner) : IsNormal (.strike inner)
  | code {t : Text} (nonempty : t ≠ []) : IsNormal (.code t)
  | link {r : Reference} (target : ∀ c ∈ r.target, ¬isBlank c ∧ c ≠ ')') : IsNormal (.link r)
  | image {r : Reference} (nonempty : r.target ≠ [])
      (target : ∀ c ∈ r.target, ¬isBlank c ∧ c ≠ ')') : IsNormal (.image r)

/-- Neighbouring runs in normal form. -/
inductive Normal : List Run → Prop
  | intro {runs : List Run} (apart : Apart runs) (h : ∀ r ∈ runs, IsNormal r) : Normal runs

end

theorem not_isNormal_lineBreak : ¬IsNormal lineBreak := nofun

theorem Normal.apart {runs : List Run} : Normal runs → Apart runs
  | intro h _ => h

theorem Normal.isNormal {runs : List Run} : Normal runs → ∀ r ∈ runs, r.IsNormal
  | intro _ h => h

theorem Normal.lineBreak_not_mem {runs : List Run} (h : Normal runs) : lineBreak ∉ runs :=
  fun hmem => not_isNormal_lineBreak (h.isNormal _ hmem)

theorem normal_nil : Normal [] := ⟨List.isChain_nil, nofun⟩

/-- A run that is no text can stand in front of any runs. -/
theorem Normal.cons {r : Run} {runs : List Run} (h : Normal runs) (hr : r.IsNormal)
    (htext : r.isText = false) : Normal (r :: runs) := by
  refine ⟨List.isChain_cons.2 ⟨fun next _ hboth => ?_, h.apart⟩,
    List.forall_mem_cons.2 ⟨hr, h.isNormal⟩⟩
  rw [htext] at hboth
  exact Bool.false_ne_true hboth.1

theorem normal_singleton {r : Run} (h : r.IsNormal) : Normal [r] :=
  ⟨List.isChain_singleton r, List.forall_mem_singleton.2 h⟩

theorem Normal.consChar {runs : List Run} (h : Normal runs) (c : Char) :
    Normal (consChar c runs) := by
  have hsingle : (text [c]).IsNormal := .text (List.cons_ne_nil c [])
  cases runs with
  | nil => exact normal_singleton hsingle
  | cons r rest =>
    have hchain := List.isChain_cons.1 h.apart
    obtain ⟨hr, hrest⟩ := List.forall_mem_cons.1 h.isNormal
    cases r with
    | text t =>
      -- The longer text takes the place of the first one, and is a text as well.
      exact ⟨List.isChain_cons.2 hchain,
        List.forall_mem_cons.2 ⟨.text (List.cons_ne_nil c t), hrest⟩⟩
    | _ =>
      refine ⟨List.isChain_cons.2 ⟨fun next hnext hboth => ?_, h.apart⟩,
        List.forall_mem_cons.2 ⟨hsingle, h.isNormal⟩⟩
      obtain rfl := Option.some.inj hnext
      exact Bool.false_ne_true hboth.2

/-- The run of a delimiter is normal if it holds normal runs. -/
theorem Normal.isNormal_run {inner : List Run} (h : Normal inner) (hne : inner ≠ [])
    (d : Delimiter) : (d.run inner).IsNormal := by
  cases d with
  | strongEmphasis mark =>
    exact .strong (List.cons_ne_nil _ _) (normal_singleton (.emphasis hne h))
  | strong mark => exact .strong hne h
  | emphasis mark => exact .emphasis hne h
  | strike => exact .strike hne h

theorem isText_run (d : Delimiter) (inner : List Run) : (d.run inner).isText = false := by
  cases d <;> rfl

end Run

/-! ## Well-formed pieces -/

/-- A written target has neither blanks nor closing parentheses. -/
theorem Reference.Written.forall_mem_target {kind : ReferenceKind} {r : Reference} {t : Text}
    (h : r.Written kind t) : ∀ c ∈ r.target, ¬isBlank c ∧ c ≠ ')' := by
  obtain ⟨-, -, htarget, -, -⟩ := h
  exact htarget

/-- In front of a text stand backticks and then other characters, so code in it is not empty. -/
theorem CodeSpan.ne_nil_of_inner? {t inner : Text} (ht : 0 < tickCount t)
    (h : inner? (tickCount t) true (t.drop (tickCount t)) = some inner) : inner ≠ [] := by
  have hnext := (tickCount_eq_iff.1 (rfl : tickCount t = _)).2
  cases hafter : t.drop (tickCount t) with
  | nil => simp [hafter, inner?] at h
  | cons c rest =>
    rw [hafter] at h hnext
    have hc : c ≠ '`' := by simpa using hnext
    have hcount : tickCount (c :: rest) = 0 := by simp [tickCount, hc]
    rw [inner?, hcount, Bool.true_and, beq_eq_false_iff_ne.2 (Nat.ne_of_lt ht)] at h
    obtain ⟨rest', -, rfl⟩ := Option.map_eq_some_iff.1 h
    exact List.cons_ne_nil c rest'

namespace Piece

/-- The piece holds what normal form asks of it: delimiters and backticks have something between
them, and a target has its characters only. -/
def WellFormed : Piece → Prop
  | literal _ | escaped _ => True
  | delimited _ inner => inner ≠ []
  | code _ t => t ≠ []
  | reference kind spelling =>
    (kind = .image → spelling.target ≠ []) ∧ ∀ c ∈ spelling.target, ¬isBlank c ∧ c ≠ ')'

variable {m : Memory} {prev : Option Char} {t : Text} {piece : Piece}

theorem wellFormed_of_firstDelimited? {ds : List Delimiter}
    (h : (firstDelimited? m prev t ds).1 = some piece) : piece.WellFormed := by
  obtain ⟨d, after, inner, rfl, -, -, hinner⟩ := exists_of_firstDelimited? h
  obtain ⟨k, -, ⟨-, ⟨c, hc, -⟩, -⟩, -, rfl⟩ := Delimiter.inner?_eq_some_iff.1 hinner
  intro hnil
  rw [hnil] at hc
  exact absurd hc (by simp)

theorem wellFormed_of_code? (ht : 0 < CodeSpan.tickCount t) (h : (code? m t).1 = some piece) :
    piece.WellFormed := by
  simp only [code?] at h
  split_ifs at h
  split at h
  · next inner hinner =>
    obtain rfl := Option.some.inj h
    exact CodeSpan.ne_nil_of_inner? ht hinner
  · simp at h

theorem wellFormed_of_reference? {kind : ReferenceKind}
    (h : (reference? m kind t).1 = some piece) : piece.WellFormed := by
  unfold reference? at h
  split_ifs at h
  split at h
  · next spelling hread =>
    obtain rfl := Option.some.inj h
    have hwritten := Reference.written_of_read? hread
    refine ⟨?_, hwritten.forall_mem_target⟩
    rintro rfl
    exact hwritten.target_ne_nil
  · simp at h

theorem wellFormed_of_markup? (h : (markup? m prev t).1 = some piece) : piece.WellFormed := by
  unfold markup? at h
  split at h
  · next c rest =>
    split_ifs at h
    obtain rfl := Option.some.inj h
    trivial
  · exact wellFormed_of_reference? h
  · exact wellFormed_of_reference? h
  · exact wellFormed_of_code? (by simp [CodeSpan.tickCount]) h
  · exact wellFormed_of_firstDelimited? h
  · simp at h

theorem wellFormed_first (m : Memory) (prev : Option Char) (c : Char) (rest : Text) :
    (first m prev c rest).1.WellFormed := by
  unfold first
  split
  · next piece memory hattempt => exact wellFormed_of_markup? (by rw [hattempt])
  · trivial

end Piece

theorem wellFormed_of_mem_piecesFrom {m : Memory} {prev : Option Char} {t : Text} {piece : Piece}
    (h : piece ∈ piecesFrom m prev t) : piece.WellFormed := by
  fun_induction piecesFrom m prev t with
  | case1 => exact absurd h List.not_mem_nil
  | case2 m prev c rest first memory hfirst source ih =>
    have hwell := Piece.wellFormed_first m prev c rest
    rw [hfirst] at hwell
    rcases List.mem_cons.1 h with rfl | h
    · exact hwell
    · exact ih h

/-! ## The runs of a line -/

namespace Run

theorem ofText_ne_nil {t : Text} (h : t ≠ []) : ofText t ≠ [] := by
  rw [ofText_eq]
  cases hpieces : pieces t with
  | nil => exact absurd hpieces (pieces_ne_nil h)
  | cons piece rest => exact consPiece_ne_nil piece _ _

/-- A well-formed piece in front of normal runs, where the runs of its inner text are normal. -/
theorem normal_consPiece {piece : Piece} {rest : List Run} (hpiece : piece.WellFormed)
    (hinner : Normal (ofText piece.inner)) (hrest : Normal rest) :
    Normal (consPiece piece (ofText piece.inner) rest) := by
  cases piece with
  | literal c | escaped c => exact hrest.consChar c
  | delimited d inner =>
    exact hrest.cons (hinner.isNormal_run (ofText_ne_nil hpiece) d) (isText_run d _)
  | code ticks t => exact hrest.cons (.code hpiece) rfl
  | reference kind spelling =>
    obtain ⟨hne, htarget⟩ := hpiece
    cases kind with
    | link => exact hrest.cons (.link htarget) rfl
    | image => exact hrest.cons (.image (hne rfl) htarget) rfl

/-- The runs of a text are in normal form, and so are those inside them. -/
theorem normal_ofText (t : Text) : Normal (ofText t) := by
  refine ofText_induction (motive := fun _ runs => Normal runs) (fun _ => normal_nil) ?_ t
  intro t piece hpiece rest hinner hrest
  exact normal_consPiece (wellFormed_of_mem_piecesFrom hpiece) hinner hrest

/-- A line that ends in two spaces and is not blank is broken there. -/
def Breaks (line : Text) : Prop := [' ', ' '] <:+ line ∧ ∃ c ∈ line, ¬isBlank c

theorem breaks_iff {line : Text} :
    Breaks line ↔ ([' ', ' '].isSuffixOf line && !line.isBlank) = true := by
  simp [Breaks, List.isSuffixOf_iff_suffix, Text.isBlank]

theorem not_breaks_trimEnd (line : Text) : ¬Breaks line.trimEnd := by
  rintro ⟨⟨front, heq⟩, -⟩
  exact Text.endsUnblank_trimEnd line ' ' (by simp [← heq]) (by decide)

theorem ofLine_of_breaks {line : Text} (h : Breaks line) :
    ofLine line = ofText line.trimEnd ++ [lineBreak] := if_pos (breaks_iff.1 h)

theorem ofLine_of_not_breaks {line : Text} (h : ¬Breaks line) : ofLine line = ofText line :=
  if_neg fun hsuffix => h (breaks_iff.2 hsuffix)

/-- **Normal form.** The runs of a line are in normal form, but for a break behind all of them. There
is one exactly if the line ends in two spaces and is not blank, and the other runs are then those of
the line without its trailing blanks. -/
theorem normal_ofLine (line : Text) :
    ∃ runs, Normal runs ∧ (ofLine line = runs ∨ ofLine line = runs ++ [lineBreak]) ∧
      (lineBreak ∈ ofLine line ↔ [' ', ' '] <:+ line ∧ ∃ c ∈ line, ¬isBlank c) ∧
      (lineBreak ∈ ofLine line → runs = ofLine line.trimEnd) := by
  by_cases h : Breaks line
  · have hline := ofLine_of_breaks h
    have hmem : lineBreak ∈ ofLine line := by simp [hline]
    refine ⟨ofText line.trimEnd, normal_ofText _, .inr hline, iff_of_true hmem h, fun _ => ?_⟩
    exact (ofLine_of_not_breaks (not_breaks_trimEnd line)).symm
  · have hline := ofLine_of_not_breaks h
    have hmem : lineBreak ∉ ofLine line := by
      rw [hline]
      exact (normal_ofText line).lineBreak_not_mem
    exact ⟨ofText line, normal_ofText line, .inl hline, iff_of_false hmem h,
      fun hbreak => absurd hbreak hmem⟩

end Run

end TicketMarkup
