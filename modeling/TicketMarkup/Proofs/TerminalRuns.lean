import TicketMarkup.Proofs.Spans
import TicketMarkup.Proofs.TextParts
import Mathlib.Data.Bool.AllAny

/-!
# Runs that are taken as they stand

`ofLine_terminal_runs`: code between runs of backticks is read as that code, and a reference as that
reference, whatever other markup stands in their parts.

1. The parts of a written reference are cut apart where they end: each has a character behind it
   that it cannot hold. A target that is not empty leaves only one way to cut
   (`exists_read?_of_written`).
2. No run of `n` backticks ends early in code that has no such run of its own and does not touch the
   run behind it (`inner?_append_ticks`).
3. An attempt at the head of a line that takes up the whole line leaves no other piece
   (`pieces_of_markup?`).
-/

namespace TicketMarkup

/-! ## References are cut apart -/

namespace Reference

open Text (takeWhile_append_cons dropWhile_append_cons)

variable {kind : ReferenceKind} {r : Reference} {t : Text}

/-- The end of a reference is read with any text behind it. -/
theorem Ends.exists_read? {title : Option Text} (h : Ends title t) (more : Text) :
    ∃ e, Ending.read? (t ++ more) = some e ∧ e.title.map Prod.snd = title ∧ e.text = t := by
  have hquote : ¬isBlank '"' := by decide
  have hclose : ¬isBlank ')' := by decide
  cases h with
  | @untitled space hspace =>
    have hblank := List.all_eq_true.1 hspace
    refine ⟨⟨none, space⟩, ?_, rfl, rfl⟩
    rw [List.append_assoc, List.singleton_append]
    simp only [Ending.read?, takeWhile_append_cons hblank hclose,
      dropWhile_append_cons hblank hclose]
  | @titled gap title space hne hgap htitle hspace =>
    have hblank := List.all_eq_true.1 hgap
    have hblank' := List.all_eq_true.1 hspace
    have htitle' : ∀ d ∈ title, (d != '"') = true := by
      intro d hd
      simpa using fun heq : d = '"' => htitle (heq ▸ hd)
    have hnot : ¬('"' != '"') = true := by decide
    refine ⟨⟨some (gap, title), space⟩, ?_, rfl, rfl⟩
    have htext : gap ++ '"' :: title ++ '"' :: space ++ [')'] ++ more =
        gap ++ '"' :: (title ++ '"' :: (space ++ ')' :: more)) := by simp
    rw [htext]
    simp only [Ending.read?, takeWhile_append_cons hblank hquote,
      dropWhile_append_cons hblank hquote, takeWhile_append_cons htitle' hnot,
      dropWhile_append_cons htitle' hnot, takeWhile_append_cons hblank' hclose,
      dropWhile_append_cons hblank' hclose]
    rw [if_neg (by simpa using hne)]

/-- What stands behind a target does not go on with it. -/
theorem Ends.exists_cons {title : Option Text} (h : Ends title t) :
    ∃ c rest, t = c :: rest ∧ ¬isTargetChar c := by
  have hblank {c : Char} (hc : isBlank c) : ¬isTargetChar c := by simp [isTargetChar, hc]
  cases h with
  | @untitled space hspace =>
    cases space with
    | nil => exact ⟨')', [], rfl, by decide⟩
    | cons c space => exact ⟨c, _, rfl, hblank (List.all_eq_true.1 hspace c List.mem_cons_self)⟩
  | @titled gap title space hne hgap =>
    obtain ⟨c, gap, rfl⟩ := List.exists_cons_of_ne_nil hne
    exact ⟨c, _, rfl, hblank (List.all_eq_true.1 hgap c List.mem_cons_self)⟩

theorem readTarget?_append {label lead target rest : Text} {c : Char} {e : Ending}
    (hlead : lead.isBlank) (hne : target ≠ []) (htarget : ∀ d ∈ target, isTargetChar d)
    (hc : ¬isTargetChar c) (he : Ending.read? (c :: rest) = some e) :
    readTarget? kind label (lead ++ (target ++ c :: rest)) = some ⟨label, lead, target, e⟩ := by
  obtain ⟨first, target, rfl⟩ := List.exists_cons_of_ne_nil hne
  have hblank := List.all_eq_true.1 hlead
  have hfirst : ¬isBlank first := by
    have := htarget first List.mem_cons_self
    simp only [isTargetChar, Bool.and_eq_true, Bool.not_eq_true'] at this
    simp [this.1]
  rw [readTarget?, List.cons_append]
  simp only [takeWhile_append_cons hblank hfirst, dropWhile_append_cons hblank hfirst]
  rw [← List.cons_append, takeWhile_append_cons htarget hc, dropWhile_append_cons htarget hc, he,
    if_neg (by simp)]
  rfl

/-- A written reference with a target is read with any text behind it. -/
theorem exists_read?_of_written (h : r.Written kind t) (hne : r.target ≠ []) (more : Text) :
    ∃ u s, t = kind.mark ++ '[' :: u ∧ read? kind ('[' :: u ++ more) = some s ∧ s.reference = r ∧
      kind.mark ++ s.text = t := by
  obtain @⟨label, lead, target, ending, title, hlabel, hlead, htarget, -, hends⟩ := h
  obtain ⟨e, he, htitle, hending⟩ := hends.exists_read? more
  obtain ⟨c, rest, rfl, hc⟩ := hends.exists_cons
  have htargeted : readTarget? kind label (lead ++ (target ++ c :: (rest ++ more))) =
      some ⟨label, lead, target, e⟩ :=
    readTarget?_append hlead hne (by simpa [isTargetChar] using htarget) hc he
  have hlabel' : ∀ d ∈ label, (d != ']') = true := by
    intro d hd
    simpa using fun heq : d = ']' => hlabel (heq ▸ hd)
  have hnot : ¬(']' != ']') = true := by decide
  refine ⟨label ++ ']' :: '(' :: lead ++ target ++ c :: rest, ⟨label, lead, target, e⟩, by simp,
    ?_, ?_, ?_⟩
  · have htext : '[' :: (label ++ ']' :: '(' :: lead ++ target ++ c :: rest) ++ more =
        '[' :: (label ++ ']' :: '(' :: (lead ++ (target ++ c :: (rest ++ more)))) := by simp
    rw [htext, read?]
    simp only [takeWhile_append_cons hlabel' hnot, dropWhile_append_cons hlabel' hnot, htargeted]
    rfl
  · rw [Spelling.reference, htitle]
  · rw [Spelling.text, hending]

theorem Written.target_ne_nil (h : r.Written .image t) : r.target ≠ [] := by
  obtain ⟨-, -, -, hne, -⟩ := h
  exact hne rfl

/-- A written reference ends in its closing parenthesis. -/
theorem Written.getLast? (h : r.Written kind t) : t.getLast? = some ')' := by
  obtain ⟨-, -, -, -, hends⟩ := h
  cases hends <;> simp only [← List.append_assoc, List.getLast?_concat]

end Reference

/-! ## Code between runs of backticks -/

namespace CodeSpan

variable {n k : Nat} {t : Text}

/-- A run of backticks that closes a code span lies inside the text. -/
theorem ClosesAt.add_le_length (h : ClosesAt n t k) (hn : 0 < n) : k + n ≤ t.length := by
  have hlength := h.1.length_le
  rw [List.length_replicate, List.length_drop] at hlength
  omega

/-- Code without a run of exactly `n` backticks is closed by the first such run behind it. -/
theorem inner?_append_ticks (hn : 0 < n) (hlast : t.getLast? ≠ some '`')
    (hruns : ∀ k, ¬ClosesAt n t k) :
    inner? n true (t ++ List.replicate n '`') = some t := by
  have hend : ClosesAt n (t ++ List.replicate n '`') t.length := by
    refine ⟨?_, ?_, ?_⟩
    · rw [List.drop_left]
    · rwa [List.take_left]
    · simp
  have hearlier : ∀ j < t.length, ¬ClosesAt n (t ++ List.replicate n '`') j := by
    rintro j hj ⟨hticks, hbefore, hbehind⟩
    rw [List.drop_append_of_le_length (Nat.le_of_lt hj)] at hticks
    rw [List.take_append_of_le_length (Nat.le_of_lt hj)] at hbefore
    rcases Nat.lt_or_ge t.length (j + n) with hlong | hshort
    · -- The run would reach over the end of the code, which ends in no backtick.
      have htail : t.drop j <+: List.replicate n '`' := by
        refine List.prefix_of_prefix_length_le (List.prefix_append _ _) hticks ?_
        rw [List.length_drop, List.length_replicate]
        omega
      obtain ⟨c, hc⟩ : ∃ c, t.getLast? = some c :=
        Option.isSome_iff_exists.1 (by simpa using List.ne_nil_of_length_pos (by omega))
      have hmem : c ∈ t.drop j := by
        refine List.mem_of_getLast? ?_
        rw [List.getLast?_drop, if_neg (by omega), hc]
      rw [List.eq_of_mem_replicate (htail.subset hmem)] at hc
      exact hlast hc
    · -- The run would lie in the code.
      refine hruns j ⟨?_, hbefore, ?_⟩
      · refine List.prefix_of_prefix_length_le hticks (List.prefix_append _ _) ?_
        rw [List.length_drop, List.length_replicate]
        omega
      · rw [List.drop_append_of_le_length hshort] at hbehind
        cases hdrop : t.drop (j + n) with
        | nil => simp
        | cons c rest => rwa [hdrop, List.cons_append] at hbehind
  rw [inner?_eq_leftmost hn, Option.map_eq_some_iff]
  refine ⟨t.length, leftmost?_eq_some_iff.2 ⟨by simp, hend, hearlier⟩, List.take_left⟩

theorem tickCount_append (ht : t.head? ≠ some '`') :
    tickCount (List.replicate n '`' ++ t) = n :=
  tickCount_eq_iff.2 ⟨List.prefix_append _ _, by rwa [List.drop_left' List.length_replicate]⟩

end CodeSpan

/-! ## Lines of one piece -/

namespace Piece

variable {m : Memory} {prev : Option Char} {t u : Text} {piece : Piece}

theorem markup?_reference (m : Memory) (prev : Option Char) (kind : ReferenceKind) (u : Text) :
    markup? m prev (kind.mark ++ '[' :: u) = reference? m kind (kind.mark ++ '[' :: u) := by
  cases kind <;> rfl

theorem markup?_ticks {n : Nat} (hn : 0 < n) (m : Memory) (prev : Option Char) (u : Text) :
    markup? m prev (List.replicate n '`' ++ u) = code? m (List.replicate n '`' ++ u) := by
  obtain ⟨n, rfl⟩ := Nat.exists_eq_succ_of_ne_zero (Nat.ne_of_gt hn)
  rfl

end Piece

/-- A piece that takes up the whole line is the only one. -/
theorem pieces_of_markup? {t : Text} {piece : Piece}
    (h : (Piece.markup? .empty none t).1 = some piece) (hsource : piece.source = t) :
    pieces t = [piece] := by
  cases t with
  | nil => simp [Piece.markup?] at h
  | cons c rest =>
    obtain ⟨m, hm⟩ : ∃ m, Piece.first .empty none c rest = (piece, m) := by
      unfold Piece.first
      split
      · next heq =>
        rw [heq] at h
        exact ⟨_, by rw [Option.some.inj h]⟩
      · next heq => simp [heq] at h
    rw [pieces, piecesFrom, hm]
    simp only [hsource, List.length_cons, Nat.add_sub_cancel, List.drop_length, piecesFrom]

/-- A line that does not end in a blank is read as a text. -/
theorem Run.ofLine_of_getLast? {t : Text} {c : Char} (h : t.getLast? = some c) (hc : c ≠ ' ') :
    ofLine t = ofText t := by
  have hbreak : ¬[' ', ' '] <:+ t := by
    rintro ⟨front, rfl⟩
    rw [show front ++ [' ', ' '] = front ++ [' '] ++ [' '] by simp, List.getLast?_concat] at h
    exact hc (Option.some.inj h).symm
  rw [ofLine, if_neg]
  rw [Bool.and_eq_true, List.isSuffixOf_iff_suffix]
  exact fun h => hbreak h.1

/-- A line that is code between runs of backticks is that code. -/
theorem Run.ofLine_ticks {n : Nat} {code : Text} (hn : 0 < n) (hne : code ≠ [])
    (hfirst : code.head? ≠ some '`') (hlast : code.getLast? ≠ some '`')
    (hruns : ∀ k, ¬CodeSpan.ClosesAt n code k) :
    ofLine (List.replicate n '`' ++ code ++ List.replicate n '`') = [.code code] := by
  have hend : (List.replicate n '`' ++ code ++ List.replicate n '`').getLast? = some '`' := by
    rw [List.getLast?_append, List.getLast?_replicate, if_neg (Nat.ne_of_gt hn), Option.some_or]
  have hhead : (code ++ List.replicate n '`').head? ≠ some '`' := by
    rw [List.head?_append]
    cases code with
    | nil => exact absurd rfl hne
    | cons c code => exact hfirst
  have hcode : (Piece.markup? .empty none
      (List.replicate n '`' ++ code ++ List.replicate n '`')).1 = some (.code n code) := by
    rw [List.append_assoc, Piece.markup?_ticks hn, Piece.code?]
    simp only [CodeSpan.tickCount_append hhead, List.drop_left' List.length_replicate,
      CodeSpan.inner?_append_ticks hn hlast hruns]
    rfl
  rw [ofLine_of_getLast? hend (by decide), ofText_eq, pieces_of_markup? hcode rfl]
  rfl

/-- A line that writes a reference with a target is that reference. -/
theorem Run.ofLine_of_written {kind : ReferenceKind} {r : Reference} {t : Text}
    (h : r.Written kind t) (hne : r.target ≠ []) : ofLine t = [kind.run r] := by
  obtain ⟨u, s, rfl, hread, hreference, htext⟩ := Reference.exists_read?_of_written h hne []
  have hpiece : (Piece.markup? .empty none (kind.mark ++ '[' :: u)).1 =
      some (.reference kind s) := by
    have hdead : Memory.empty.dead kind = 0 := by cases kind <;> rfl
    rw [List.append_nil] at hread
    rw [Piece.markup?_reference, Piece.reference?, hdead, List.drop_left, hread]
    rfl
  rw [ofLine_of_getLast? h.getLast? (by decide), ofText_eq, pieces_of_markup? hpiece htext]
  show [kind.run s.reference] = _
  rw [hreference]

namespace Reference

/-- The text of a reference; the only blank that is added stands in front of the title. -/
def text (r : Reference) : Text :=
  let title := match r.title with
    | none => []
    | some title => ' ' :: '"' :: title ++ ['"']
  '[' :: r.label ++ ']' :: '(' :: r.target ++ title ++ [')']

/-- The parts of a reference can be written: the label has no bracket that would end it, the target
is not empty and has neither blanks nor a parenthesis that would end it, the title no quote. -/
structure IsWritable (r : Reference) : Prop where
  label_bracket : ']' ∉ r.label
  target_ne_nil : r.target ≠ []
  target_chars : ∀ c ∈ r.target, ¬isBlank c ∧ c ≠ ')'
  title_quote : ∀ title ∈ r.title, '"' ∉ title

theorem IsWritable.written {r : Reference} (h : r.IsWritable) (kind : ReferenceKind) :
    r.Written kind (kind.mark ++ r.text) := by
  obtain ⟨label, target, title⟩ := r
  obtain ⟨hlabel, hne, htarget, htitle⟩ := h
  have hblank : Text.isBlank [] := rfl
  cases title with
  | none =>
    have hwritten : Written kind ⟨label, target, none⟩
        (kind.mark ++ ('[' :: label ++ ']' :: '(' :: [] ++ target ++ ([] ++ [')']))) :=
      .intro hlabel hblank htarget (fun _ => hne) (.untitled hblank)
    simpa [text] using hwritten
  | some title =>
    have hwritten : Written kind ⟨label, target, some title⟩
        (kind.mark ++ ('[' :: label ++ ']' :: '(' :: [] ++ target ++
          ([' '] ++ '"' :: title ++ '"' :: [] ++ [')']))) :=
      .intro hlabel hblank htarget (fun _ => hne)
        (.titled (List.cons_ne_nil ' ' []) (by decide) (htitle title rfl) hblank)
    simpa [text] using hwritten

end Reference

/-- **Terminal runs.** Code between two runs of `n` backticks is read as that code, if it neither
starts nor ends with a backtick and has no run of exactly `n` backticks; and a reference that can be
written is read as a link, or behind a `!` as an image, with just its label, target and title. -/
theorem ofLine_terminal_runs :
    (∀ (n : Nat) (code : Text), 0 < n → code ≠ [] → code.head? ≠ some '`' →
      code.getLast? ≠ some '`' → (∀ k, ¬CodeSpan.ClosesAt n code k) →
        Run.ofLine (List.replicate n '`' ++ code ++ List.replicate n '`') = [.code code]) ∧
      ∀ (kind : ReferenceKind) (r : Reference), r.IsWritable →
        Run.ofLine (kind.mark ++ r.text) = [kind.run r] := by
  constructor
  · intro n code hn hne hfirst hlast hruns
    exact Run.ofLine_ticks hn hne hfirst hlast hruns
  · intro kind r h
    exact Run.ofLine_of_written (h.written kind) h.target_ne_nil

/-- Code with shorter and longer runs of backticks and other markup, and a reference whose parts
hold brackets, quotes and parentheses. -/
theorem ofLine_terminal_runs_with_markup :
    let code : Text := "a`*b* ```[c](d)\\".toList
    let r : Reference := ⟨"a [b *c*".toList, "\"d\"](e".toList, some "f](g) \\".toList⟩
    code ≠ [] ∧ code.head? ≠ some '`' ∧ code.getLast? ≠ some '`' ∧
      (∀ k, ¬CodeSpan.ClosesAt 2 code k) ∧ r.IsWritable ∧
      Run.ofLine "``a`*b* ```[c](d)\\``".toList = [.code code] ∧
      Run.ofLine "[a [b *c*](\"d\"](e \"f](g) \\\")".toList = [.link r] ∧
      Run.ofLine "![a [b *c*](\"d\"](e \"f](g) \\\")".toList = [.image r] := by
  intro code r
  have hne : code ≠ [] := by decide
  have hfirst : code.head? ≠ some '`' := by decide
  have hlast : code.getLast? ≠ some '`' := by decide
  have hruns : ∀ k, ¬CodeSpan.ClosesAt 2 code k := by
    intro k h
    have hlength : k + 2 ≤ 16 := h.add_le_length (by decide)
    have hall : ∀ k < 16, ¬CodeSpan.ClosesAt 2 code k := by decide
    exact hall k (by omega) h
  have hr : r.IsWritable :=
    ⟨by decide, by decide, List.all_iff_forall_prop.1 (by decide), by decide⟩
  obtain ⟨hcode, hreference⟩ := ofLine_terminal_runs
  exact ⟨hne, hfirst, hlast, hruns, hr, hcode 2 code (by decide) hne hfirst hlast hruns,
    hreference .link r hr, hreference .image r hr⟩

end TicketMarkup
