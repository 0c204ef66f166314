import TicketMarkup.Inline.Run
import Mathlib.Data.List.Infix

/-!
# Pieces tile the line

The sources of the pieces of a line, one after the other, are the line (`flatMap_source_pieces`):
every attempt that succeeds takes up a beginning of what is left, at least one character of it, so
no character is lost or read twice. The runs of a text are put together from its pieces, so what is
kept when a piece is put in front of runs holds of them (`Run.ofText_induction`).
-/

namespace TicketMarkup

/-! ## Attempts take up what is at the head -/

theorem Delimiter.inner?_append_isPrefix {d : Delimiter} {last : Option Char} {t inner : Text}
    (h : d.inner? last t = some inner) : inner ++ d.text <+: t := by
  induction t generalizing last inner with
  | nil =>
    rw [inner?] at h
    split at h
    · next hcloses =>
      obtain rfl := Option.some.inj h
      simp only [closes, Bool.and_eq_true, List.isPrefixOf_iff_prefix] at hcloses
      exact hcloses.1.1
    · simp at h
  | cons c rest ih =>
    rw [inner?] at h
    split at h
    · next hcloses =>
      obtain rfl := Option.some.inj h
      simp only [closes, Bool.and_eq_true, List.isPrefixOf_iff_prefix] at hcloses
      exact hcloses.1.1
    · obtain ⟨inner', hinner, rfl⟩ := Option.map_eq_some_iff.1 h
      exact List.cons_prefix_cons.2 ⟨rfl, ih hinner⟩

namespace CodeSpan

theorem replicate_tickCount_isPrefix (t : Text) : List.replicate (tickCount t) '`' <+: t :=
  (tickCount_eq_iff.1 rfl).1

theorem inner?_append_isPrefix {ticks : Nat} {fresh : Bool} {t inner : Text}
    (h : inner? ticks fresh t = some inner) : inner ++ List.replicate ticks '`' <+: t := by
  induction t generalizing fresh inner with
  | nil => simp [inner?] at h
  | cons c rest ih =>
    rw [inner?] at h
    split at h
    · next hrun =>
      obtain rfl := Option.some.inj h
      simp only [Bool.and_eq_true, beq_iff_eq] at hrun
      exact hrun.2 ▸ replicate_tickCount_isPrefix (c :: rest)
    · obtain ⟨inner', hinner, rfl⟩ := Option.map_eq_some_iff.1 h
      exact List.cons_prefix_cons.2 ⟨rfl, ih hinner⟩

end CodeSpan

namespace Piece

/-- The piece takes up a beginning of the text, and not an empty one. -/
def Heads (piece : Piece) (t : Text) : Prop := piece.source ≠ [] ∧ piece.source <+: t

variable {m : Memory} {prev : Option Char} {t : Text} {piece : Piece}

theorem heads_of_firstDelimited? {ds : List Delimiter}
    (h : (firstDelimited? m prev t ds).1 = some piece) : piece.Heads t := by
  obtain ⟨d, after, inner, rfl, rfl, -, hinner⟩ := exists_of_firstDelimited? h
  obtain ⟨rest, rfl⟩ := Delimiter.inner?_append_isPrefix hinner
  exact ⟨by simp [source, d.text_ne_nil], ⟨rest, by simp [source]⟩⟩

theorem heads_of_code? (ht : 0 < CodeSpan.tickCount t) (h : (code? m t).1 = some piece) :
    piece.Heads t := by
  simp only [code?] at h
  split at h
  · simp at h
  · split at h
    · next inner hinner =>
      obtain rfl := Option.some.inj h
      obtain ⟨after, hafter⟩ := CodeSpan.replicate_tickCount_isPrefix t
      generalize CodeSpan.tickCount t = ticks at *
      subst hafter
      rw [List.drop_left' List.length_replicate] at hinner
      obtain ⟨rest, rfl⟩ := CodeSpan.inner?_append_isPrefix hinner
      refine ⟨?_, ⟨rest, by simp [source]⟩⟩
      simp [source]
      omega
    · simp at h

theorem heads_of_reference? {kind : ReferenceKind} (hmark : kind.mark <+: t)
    (h : (reference? m kind t).1 = some piece) : piece.Heads t := by
  unfold reference? at h
  split at h
  · simp at h
  · split at h
    · next spelling hread =>
      obtain rfl := Option.some.inj h
      obtain ⟨after, rfl⟩ := hmark
      rw [List.drop_left] at hread
      obtain ⟨rest, rfl⟩ := Reference.read?_isPrefix hread
      exact ⟨by simp [source, Reference.Spelling.text], ⟨rest, by simp [source]⟩⟩
    · simp at h

theorem heads_of_markup? (h : (markup? m prev t).1 = some piece) : piece.Heads t := by
  unfold markup? at h
  split at h
  · next c rest =>
    split at h
    · obtain rfl := Option.some.inj h
      exact ⟨by simp [source], ⟨rest, rfl⟩⟩
    · simp at h
  · next rest => exact heads_of_reference? ⟨'[' :: rest, rfl⟩ h
  · next rest =>
    have hmark : ReferenceKind.link.mark <+: '[' :: rest := List.nil_prefix
    exact heads_of_reference? hmark h
  · exact heads_of_code? (by simp [CodeSpan.tickCount]) h
  · exact heads_of_firstDelimited? h
  · simp at h

theorem first_heads (m : Memory) (prev : Option Char) (c : Char) (rest : Text) :
    (first m prev c rest).1.Heads (c :: rest) := by
  unfold first
  split
  · next piece memory hattempt => exact heads_of_markup? (by rw [hattempt])
  · exact ⟨by simp [source], ⟨rest, rfl⟩⟩

end Piece

/-! ## The whole line -/

theorem flatMap_source_piecesFrom (m : Memory) (prev : Option Char) (t : Text) :
    (piecesFrom m prev t).flatMap Piece.source = t := by
  fun_induction piecesFrom m prev t with
  | case1 => rfl
  | case2 m prev c rest piece memory hfirst source ih =>
    have hheads := Piece.first_heads m prev c rest
    rw [hfirst] at hheads
    obtain ⟨hne, after, hafter⟩ := hheads
    have hlength : source.length - 1 + 1 = source.length :=
      Nat.sub_add_cancel (List.length_pos_of_ne_nil hne)
    have hdrop : rest.drop (source.length - 1) = after := by
      rw [← List.drop_succ_cons (a := c), hlength, ← hafter]
      exact List.drop_left
    rw [List.flatMap_cons, ih, hdrop]
    exact hafter

/-- **Tiling.** The pieces of a line take up the line, one after the other. -/
theorem flatMap_source_pieces (t : Text) : (pieces t).flatMap Piece.source = t :=
  flatMap_source_piecesFrom .empty none t

theorem pieces_ne_nil {t : Text} (h : t ≠ []) : pieces t ≠ [] := by
  intro hnil
  have htiles := flatMap_source_pieces t
  rw [hnil] at htiles
  exact h htiles.symm

/-- What a piece takes up lies in the line. -/
theorem source_infix_of_mem_pieces {t : Text} {piece : Piece} (h : piece ∈ pieces t) :
    piece.source <:+: t := by
  obtain ⟨before, after, heq⟩ := List.append_of_mem h
  refine ⟨before.flatMap Piece.source, after.flatMap Piece.source, ?_⟩
  conv => rhs; rw [← flatMap_source_pieces t, heq]
  simp

/-- **Runs piece by piece.** What holds of no runs, and of a piece in front of runs where it holds of
them and of the runs of the piece's inner text, holds of the runs of a text. -/
theorem Run.ofText_induction {motive : Text → List Run → Prop} (nil : ∀ t, motive t [])
    (cons : ∀ t, ∀ piece ∈ pieces t, ∀ rest, motive piece.inner (ofText piece.inner) →
      motive t rest → motive t (consPiece piece (ofText piece.inner) rest))
    (t : Text) : motive t (ofText t) := by
  have hinner : ∀ piece ∈ pieces t, motive piece.inner (ofText piece.inner) := fun piece hpiece =>
    have := length_inner_lt_of_mem_pieces hpiece
    ofText_induction nil cons piece.inner
  have hcons : ∀ piece ∈ pieces t, ∀ rest, motive t rest →
      motive t (consPiece piece (ofText piece.inner) rest) :=
    fun piece hpiece rest => cons t piece hpiece rest (hinner piece hpiece)
  rw [ofText_eq]
  generalize pieces t = ps at hcons
  induction ps with
  | nil => exact nil t
  | cons piece rest ih =>
    rw [List.forall_mem_cons] at hcons
    exact hcons.1 _ (ih hcons.2)
termination_by t.length

end TicketMarkup
