import TicketMarkup.Proofs.NestedDelimiters

/-!
# Underscores in words

A word has letters, digits and underscores only. No delimiter opens right behind a letter or digit,
but it may open behind another underscore.

`ofLine_word_eq_iff`: a word that begins with a letter or digit is one plain text, unless it ends in a
delimiter of underscores and an earlier run of underscores is longer than that (`Text.Splits`); then
it is a text up to such a run and the run of the delimiter.

1. In a word a delimiter closes only at the end of the word (`closesAt_word_iff`).
2. So an attempt succeeds at a place exactly if the word is split there
   (`delimitedAfresh?_eq_some_iff`), and the scan takes one character after the other until the first
   such place (`exists_piecesAfreshFrom_word`).
-/

namespace TicketMarkup

namespace Text

/-- The text has letters, digits and underscores only. -/
def IsWord (t : Text) : Prop := ∀ c ∈ t, isAlphanumeric c ∨ c = '_'

instance (t : Text) : Decidable t.IsWord := List.decidableBAll _ t

/-- The text is cut into a front that ends in an underscore, a delimiter of underscores, an inner text
that neither begins nor ends with an underscore, and the delimiter again. -/
structure Splits (t : Text) (d : Delimiter) (front inner : Text) : Prop where
  char : d.char = '_'
  text : t = front ++ (d.text ++ (inner ++ d.text))
  behind : front.getLast? = some '_'
  ne_nil : inner ≠ []
  head : inner.head? ≠ some '_'
  last : inner.getLast? ≠ some '_'

variable {t u : Text} {d : Delimiter}

theorem IsWord.of_subset (h : IsWord t) (hsub : u ⊆ t) : IsWord u := fun c hc => h c (hsub hc)

theorem IsWord.isAlphanumeric {c : Char} (h : IsWord t) (hc : c ∈ t) (hne : c ≠ '_') :
    isAlphanumeric c :=
  (h c hc).resolve_right hne

/-- A word that is split ends in an underscore. -/
theorem Splits.getLast? {front inner : Text} (h : t.Splits d front inner) :
    t.getLast? = some '_' := by
  rw [h.text, List.getLast?_append, List.getLast?_append, List.getLast?_append, d.getLast?_text,
    h.char]
  rfl

/-- A word that is split has two underscores in a row. -/
theorem Splits.double_infix {front inner : Text} (h : t.Splits d front inner) :
    ['_', '_'] <:+: t := by
  obtain ⟨first, hfront⟩ := List.getLast?_eq_some_iff.1 h.behind
  obtain ⟨rest, htext⟩ := List.head?_eq_some_iff.1 (d.head?_text.trans (congrArg some h.char))
  exact ⟨first, rest ++ (inner ++ d.text), by rw [h.text, hfront, htext]; simp⟩

end Text

open Text

variable {t w : Text} {d : Delimiter}

/-! ## Delimiters in a word -/

theorem Delimiter.closesAt_word_iff (hd : d.char = '_') (ht : IsWord t) {k : Nat} :
    d.ClosesAt t k ↔
      ∃ inner, t = inner ++ d.text ∧ inner.length = k ∧ inner ≠ [] ∧ inner.getLast? ≠ some '_' := by
  rw [closesAt_iff, hd]
  constructor
  · rintro ⟨inner, behind, heq, hk, ⟨c, hc, -, hne⟩, hnext⟩
    -- Whatever character followed, the delimiter could not close before it.
    have hbehind : behind = [] := by
      rw [List.eq_nil_iff_forall_not_mem]
      intro b hb
      cases behind with
      | nil => exact List.not_mem_nil hb
      | cons b' behind =>
        obtain ⟨hb', hword⟩ := hnext b' rfl
        exact hword ⟨rfl, ht.isAlphanumeric (heq ▸ by simp) hb'⟩
    rw [hbehind, List.append_nil] at heq
    refine ⟨inner, heq, hk, ?_, ?_⟩
    · rintro rfl
      simp at hc
    · rw [hc, ne_eq, Option.some.injEq]
      exact hne
  · rintro ⟨inner, heq, hk, hne, hlast⟩
    obtain ⟨c, hc⟩ := Option.ne_none_iff_exists'.1 (mt List.getLast?_eq_none_iff.1 hne)
    rw [hc, ne_eq, Option.some.injEq] at hlast
    have hmem : c ∈ t := heq ▸ List.mem_append_left _ (List.mem_of_mem_getLast? hc)
    exact ⟨inner, [], by rw [List.append_nil, heq], hk,
      ⟨c, hc, not_isBlank_of_isAlphanumeric (ht.isAlphanumeric hmem hlast), hlast⟩, by simp⟩

theorem Delimiter.inner?_word_iff (hd : d.char = '_') (ht : IsWord t) {inner : Text} :
    d.inner? none t = some inner ↔
      t = inner ++ d.text ∧ inner ≠ [] ∧ inner.getLast? ≠ some '_' := by
  simp only [inner?_eq_some_iff, closesAt_word_iff hd ht]
  constructor
  · rintro ⟨k, -, ⟨inner', heq, rfl, hlaw⟩, -, rfl⟩
    rw [heq, List.take_left]
    exact ⟨rfl, hlaw⟩
  · rintro ⟨heq, hlaw⟩
    refine ⟨inner.length, ?_, ⟨inner, heq, rfl, hlaw⟩, ?_, ?_⟩
    · rw [heq, List.length_append]
      exact Nat.le_add_right _ _
    · rintro j hj ⟨inner', heq', rfl, -⟩
      rw [List.append_cancel_right (heq'.symm.trans heq)] at hj
      exact Nat.lt_irrefl _ hj
    · rw [heq, List.take_left]

theorem Piece.delimitedAfresh?_word_iff (hd : d.char = '_') (ht : IsWord t) {prev : Option Char}
    {piece : Piece} :
    delimitedAfresh? prev t d = some piece ↔
      ∃ inner, piece = .delimited d inner ∧ t = d.text ++ (inner ++ d.text) ∧
        (∀ c ∈ prev, ¬isAlphanumeric c) ∧
        inner ≠ [] ∧ inner.head? ≠ some '_' ∧ inner.getLast? ≠ some '_' := by
  have hbinds : prev.any d.bindsTo = false ↔ ∀ c ∈ prev, ¬isAlphanumeric c := by
    cases prev <;> simp [Delimiter.bindsTo, hd]
  rw [delimitedAfresh?_eq_some_iff, hbinds]
  constructor
  · rintro ⟨after, inner, rfl, rfl, hnext, hprev, hinner⟩
    have hafter : IsWord after := ht.of_subset (List.subset_append_right _ _)
    obtain ⟨rfl, hne, hlast⟩ := (Delimiter.inner?_word_iff hd hafter).1 hinner
    refine ⟨inner, rfl, rfl, hprev, hne, ?_, hlast⟩
    obtain ⟨c, rest, rfl⟩ := List.exists_cons_of_ne_nil hne
    simp only [List.cons_append, List.head?_cons, Option.any_some, Delimiter.admits,
      Bool.and_eq_true, bne_iff_ne, hd] at hnext
    simpa using hnext.2
  · rintro ⟨inner, rfl, rfl, hprev, hne, hhead, hlast⟩
    have hafter : IsWord (inner ++ d.text) := ht.of_subset (List.subset_append_right _ _)
    have hinner := (Delimiter.inner?_word_iff hd hafter).2 ⟨rfl, hne, hlast⟩
    refine ⟨inner ++ d.text, inner, rfl, rfl, ?_, hprev, hinner⟩
    obtain ⟨c, rest, rfl⟩ := List.exists_cons_of_ne_nil hne
    have hc : c ≠ '_' := by simpa using hhead
    have hblank := not_isBlank_of_isAlphanumeric (hafter.isAlphanumeric (by simp) hc)
    simp [Delimiter.admits, hblank, hd, hc]

/-! ## The scan of a word -/

theorem not_mem_of_isWord {c : Char} (hc : isAlphanumeric c ∨ c = '_') :
    c ∉ ['\\', '!', '[', '`'] := by
  intro hmem
  have hall : ['\\', '!', '[', '`'].all fun c => isPunctuation c && c != '_' := by decide
  have hpunctuation := List.all_eq_true.1 hall c hmem
  rw [Bool.and_eq_true, bne_iff_ne] at hpunctuation
  exact not_isPunctuation_of_isAlphanumeric (hc.resolve_right hpunctuation.2) hpunctuation.1

/-- At each place of a word an underscore delimiter is found or a character is taken. -/
theorem Piece.firstAfresh_word {c : Char} {rest : Text} (ht : IsWord (c :: rest))
    (prev : Option Char) :
    (∃ d inner, d.char = '_' ∧
        delimitedAfresh? prev (c :: rest) d = some (.delimited d inner) ∧
        firstAfresh .empty prev c rest = (.delimited d inner, .empty)) ∨
      (∀ d, d.char = '_' → delimitedAfresh? prev (c :: rest) d = none) ∧
        firstAfresh .empty prev c rest = (.literal c, .empty) := by
  have hc := ht c List.mem_cons_self
  rw [firstAfresh, markupAfresh?_of_not_mem (not_mem_of_isWord hc)]
  cases hattempt : (Delimiter.startingWith c).findSome? (delimitedAfresh? prev (c :: rest)) with
  | some piece =>
    obtain ⟨d, hmem, hpiece⟩ := List.exists_of_findSome?_eq_some hattempt
    have hchar : d.char = c := Delimiter.mem_startingWith_iff.1 hmem
    have hd : d.char = '_' := by
      rcases hc with hc | hc
      · exact absurd (hchar ▸ hc) d.not_isAlphanumeric_char
      · exact hchar.trans hc
    obtain ⟨inner, rfl, -⟩ := (delimitedAfresh?_word_iff hd ht).1 hpiece
    exact .inl ⟨d, inner, hd, hpiece, rfl⟩
  | none =>
    refine .inr ⟨fun d hd => ?_, rfl⟩
    rw [Option.eq_none_iff_forall_ne_some]
    intro piece hpiece
    obtain ⟨inner, -, heq, -⟩ := (delimitedAfresh?_word_iff hd ht).1 hpiece
    have hchar : d.char = c := by
      have hhead := congrArg List.head? heq
      rw [List.head?_append, d.head?_text] at hhead
      exact (Option.some.inj hhead).symm
    rw [List.findSome?_eq_none_iff] at hattempt
    rw [hattempt d (Delimiter.mem_startingWith_iff.2 hchar)] at hpiece
    exact absurd hpiece (Option.some_ne_none _).symm

/-- A word that begins with a letter or digit is split at a place exactly if an underscore delimiter is
found there. -/
theorem splits_iff_delimitedAfresh? (hw : IsWord w) (hfirst : ∃ c ∈ w.head?, isAlphanumeric c)
    {before t inner : Text} (hcut : w = before ++ t) :
    w.Splits d before inner ↔
      d.char = '_' ∧ Piece.delimitedAfresh? before.getLast? t d = some (.delimited d inner) := by
  have ht : IsWord t := hw.of_subset (hcut ▸ List.subset_append_right _ _)
  constructor
  · intro h
    have htext : t = d.text ++ (inner ++ d.text) :=
      List.append_cancel_left (hcut.symm.trans h.text)
    have hbehind : ∀ c ∈ before.getLast?, ¬isAlphanumeric c := by
      rw [h.behind]
      rintro c ⟨⟩
      exact h.char ▸ d.not_isAlphanumeric_char
    exact ⟨h.char, (Piece.delimitedAfresh?_word_iff h.char ht).2
      ⟨inner, rfl, htext, hbehind, h.ne_nil, h.head, h.last⟩⟩
  · rintro ⟨hd, hfound⟩
    obtain ⟨_, heq, htext, hprev, hlaws⟩ := (Piece.delimitedAfresh?_word_iff hd ht).1 hfound
    obtain ⟨-, rfl⟩ := Piece.delimited.inj heq
    have hbehind : before.getLast? = some '_' := by
      cases hbefore : before.getLast? with
      | none =>
        -- The word itself begins with no underscore.
        obtain ⟨b, hb, hword⟩ := hfirst
        rw [hcut, List.getLast?_eq_none_iff.1 hbefore, List.nil_append, htext, List.head?_append,
          d.head?_text] at hb
        obtain rfl : d.char = b := Option.some.inj hb
        exact absurd hword d.not_isAlphanumeric_char
      | some p =>
        have hmem : p ∈ w := hcut ▸ List.mem_append_left _ (List.mem_of_mem_getLast? hbefore)
        rw [(hw p hmem).resolve_left (hprev p hbefore)]
    obtain ⟨hne, hhead, hlast⟩ := hlaws
    exact ⟨hd, by rw [hcut, htext], hbehind, hne, hhead, hlast⟩

/-- From any place of a word on, the scan takes one character after the other up to the first place
where the word is split. -/
theorem exists_piecesAfreshFrom_word (hw : IsWord w) (hfirst : ∃ c ∈ w.head?, isAlphanumeric c)
    {before t : Text} (hcut : w = before ++ t) :
    (piecesAfreshFrom .empty before.getLast? t = t.map .literal ∧
        ∀ d front inner, w.Splits d front inner → front.length < before.length) ∨
      ∃ d front inner, w.Splits d (before ++ front) inner ∧
        piecesAfreshFrom .empty before.getLast? t =
          front.map .literal ++ [.delimited d inner] := by
  induction t generalizing before with
  | nil =>
    refine .inl ⟨by rw [piecesAfreshFrom, List.map_nil], fun d front inner hsplits => ?_⟩
    have hlength := congrArg List.length (hcut.symm.trans hsplits.text)
    have hpos := List.length_pos_iff.2 d.text_ne_nil
    simp only [List.length_append, List.length_nil] at hlength
    omega
  | cons c rest ih =>
    have ht : IsWord (c :: rest) := hw.of_subset (hcut ▸ List.subset_append_right _ _)
    rcases Piece.firstAfresh_word ht before.getLast? with
      ⟨d, inner, hd, hfound, hpiece⟩ | ⟨hnone, hpiece⟩
    · have hsplits := (splits_iff_delimitedAfresh? hw hfirst hcut).2 ⟨hd, hfound⟩
      have hdrop : rest.drop ((Piece.delimited d inner).source.length - 1) = [] := by
        have hlength := congrArg List.length (hcut.symm.trans hsplits.text)
        simp only [Piece.source, List.length_append, List.length_cons] at hlength ⊢
        rw [List.drop_eq_nil_iff]
        omega
      refine .inr ⟨d, [], inner, by rwa [List.append_nil], ?_⟩
      rw [piecesAfreshFrom, hpiece]
      simp only [hdrop, piecesAfreshFrom]
      rfl
    · have hnext : w = before ++ [c] ++ rest := by
        rw [hcut, List.append_assoc]
        rfl
      have hpieces : piecesAfreshFrom .empty before.getLast? (c :: rest) =
          .literal c :: piecesAfreshFrom .empty (before ++ [c]).getLast? rest := by
        rw [piecesAfreshFrom, hpiece, List.getLast?_concat]
        rfl
      rw [hpieces]
      rcases ih hnext with ⟨hliteral, hsplits⟩ | ⟨d, front, inner, hsplits, hrest⟩
      · refine .inl ⟨by rw [hliteral, List.map_cons], fun d front inner h => ?_⟩
        have hlt := hsplits d front inner h
        rw [List.length_append, List.length_singleton] at hlt
        refine Nat.lt_of_le_of_ne (Nat.lt_succ_iff.1 hlt) fun hlength => ?_
        obtain ⟨rfl, -⟩ := List.append_inj (h.text.symm.trans hcut) hlength
        obtain ⟨hd, hfound⟩ := (splits_iff_delimitedAfresh? hw hfirst hcut).1 h
        rw [hnone d hd] at hfound
        exact absurd hfound (Option.some_ne_none _).symm
      · refine .inr ⟨d, c :: front, inner, ?_, by rw [hrest]; rfl⟩
        rwa [List.append_assoc] at hsplits

namespace Run

/-- A word that begins with a letter or digit is one plain text, or it is split, and then it is a text
and the run of a delimiter around a text. -/
theorem ofText_word (hw : IsWord w) (hfirst : ∃ c ∈ w.head?, isAlphanumeric c) :
    (ofText w = [.text w] ∧ ∀ d front inner, ¬w.Splits d front inner) ∨
      ∃ d front inner, w.Splits d front inner ∧
        ofText w = [.text front, d.run (ofText inner)] := by
  have hne : w ≠ [] := by
    rintro rfl
    simp at hfirst
  rw [ofText_eq, pieces_eq_piecesAfresh, piecesAfresh]
  rcases exists_piecesAfreshFrom_word hw hfirst (List.nil_append w).symm with
    ⟨hpieces, hsplits⟩ | ⟨d, front, inner, hsplits, hpieces⟩
  · refine .inl ⟨?_, fun d front inner h => Nat.not_lt_zero _ (hsplits d front inner h)⟩
    rw [List.getLast?_nil] at hpieces
    rw [hpieces, List.foldr_map]
    exact foldr_consChar hne (by simp)
  · rw [List.nil_append] at hsplits
    refine .inr ⟨d, front, inner, hsplits, ?_⟩
    have hfront : front ≠ [] := by
      rintro rfl
      exact absurd hsplits.behind (by simp)
    have hrun : ∀ t, [d.run (ofText inner)].head? ≠ some (text t) := by
      intro t
      cases d <;> simp [Delimiter.run]
    rw [List.getLast?_nil] at hpieces
    rw [hpieces, List.foldr_append, List.foldr_map]
    exact foldr_consChar hfront hrun

/-- The inner text of a split word is one plain text: it does not end in an underscore. -/
theorem ofText_inner {front inner : Text} (hw : IsWord w) (h : w.Splits d front inner) :
    ofText inner = [.text inner] := by
  have hinner : IsWord inner := by
    refine hw.of_subset fun c hc => ?_
    rw [h.text, List.mem_append, List.mem_append, List.mem_append]
    exact .inr (.inr (.inl hc))
  obtain ⟨c, rest, heq⟩ := List.exists_cons_of_ne_nil h.ne_nil
  have hc : c ≠ '_' := by simpa [heq] using h.head
  have hfirst : ∃ c ∈ inner.head?, isAlphanumeric c :=
    ⟨c, heq ▸ rfl, hinner.isAlphanumeric (heq ▸ List.mem_cons_self) hc⟩
  rcases ofText_word hinner hfirst with ⟨htext, -⟩ | ⟨_, _, _, hsplits, -⟩
  · exact htext
  · exact absurd hsplits.getLast? h.last

end Run

/-- **Underscores in words.** A word that begins with a letter or digit is one plain text exactly if it
is not split. A word that is split is a text and the run of the delimiter around a text, for one of
its splits. -/
theorem ofLine_word_eq_iff (hw : IsWord w) (hfirst : ∃ c ∈ w.head?, isAlphanumeric c) :
    (Run.ofLine w = [.text w] ↔ ∀ d front inner, ¬w.Splits d front inner) ∧
      ((∃ d front inner, w.Splits d front inner) →
        ∃ d front inner, w.Splits d front inner ∧
          Run.ofLine w = [.text front, d.run [.text inner]]) := by
  have hline : Run.ofLine w = Run.ofText w := by
    have hbreak : [' ', ' '].isSuffixOf w = false := by
      rw [Bool.eq_false_iff, ne_eq, List.isSuffixOf_iff_suffix]
      intro hsuffix
      exact absurd (hw ' ' (hsuffix.subset List.mem_cons_self)) (by decide +kernel)
    rw [Run.ofLine, hbreak, Bool.false_and, if_neg Bool.false_ne_true]
  rw [hline]
  rcases Run.ofText_word hw hfirst with ⟨htext, hnone⟩ | ⟨d, front, inner, hsplits, htext⟩
  · refine ⟨iff_of_true htext hnone, ?_⟩
    rintro ⟨d, front, inner, hsplits⟩
    exact absurd hsplits (hnone d front inner)
  · rw [Run.ofText_inner hw hsplits] at htext
    refine ⟨iff_of_false (fun h => ?_) fun h => h d front inner hsplits, fun _ => ?_⟩
    · exact absurd (congrArg List.length (h.symm.trans htext)) (by simp)
    · exact ⟨d, front, inner, hsplits, htext⟩

/-- Single underscores, also at the end. -/
theorem ofLine_word_eq_iff_single :
    let w : Text := "snake_case_".toList
    IsWord w ∧ (∃ c ∈ w.head?, isAlphanumeric c) ∧ Run.ofLine w = [.text w] := by
  intro w
  have hw : IsWord w := by decide +kernel
  have hfirst : ∃ c ∈ w.head?, isAlphanumeric c := ⟨'s', rfl, by decide +kernel⟩
  refine ⟨hw, hfirst, (ofLine_word_eq_iff hw hfirst).1.2 fun d front inner hsplits => ?_⟩
  exact absurd hsplits.double_infix (by decide)

/-- The second of two underscores opens a run inside a word. -/
theorem ofLine_double_underscore :
    let w : Text := "a__b_".toList
    IsWord w ∧ (∃ c ∈ w.head?, isAlphanumeric c) ∧
      Run.ofLine w = [.text ['a', '_'], .emphasis [.text ['b']]] ∧ Run.ofLine w ≠ [.text w] := by
  have hinner : Run.ofText ['b'] = [.text ['b']] := by
    have hpieces : pieces ['b'] = [.literal 'b'] := by decide +kernel
    rw [Run.ofText_eq, hpieces]
    rfl
  have hruns : Run.ofLine "a__b_".toList = [.text ['a', '_'], .emphasis [.text ['b']]] := by
    have hpieces : pieces "a__b_".toList =
        [.literal 'a', .literal '_', .delimited (.emphasis .underscore) ['b']] := by decide +kernel
    rw [Run.ofLine, if_neg (by decide), Run.ofText_eq, hpieces, ← hinner]
    rfl
  intro w
  refine ⟨by decide +kernel, ⟨'a', rfl, by decide +kernel⟩, hruns, fun h => ?_⟩
  exact absurd (congrArg List.length (hruns.symm.trans h)) (by decide)

end TicketMarkup
