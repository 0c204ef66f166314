import TicketMarkup.Document.Plain
import TicketMarkup.Proofs.LineEndings
import TicketMarkup.Proofs.ReadableText
import Mathlib.Data.List.Forall2
import Mathlib.Data.List.SplitBy

/-!
# Paragraphs of plain text

* `paragraphs_ofPlainText`: the paragraphs of a plain text are the longest stretches of lines that are
  not blank without an empty line between them. A line is empty if a line feed follows the one before
  it at once; a blank line with blanks in it, or with a carriage return, ends no paragraph.
* `exists_shownLines_ofPlainText`: without carriage returns, the texts of all paragraphs are the lines
  that are not blank, as they stand.

1. Cutting a text at its double line feeds is cutting its pieces between line feeds at those that
   are empty and stand between two others (`paragraphs_eq`).
2. Of two pieces the second of which is not empty, an empty one stands between them exactly if they
   are cut apart (`between_of_cut`, `not_between_of_cut`).
3. What is cut out are empty pieces, so no line is lost that is not blank
   (`flatMap_shownLines_paragraphs`).
4. With a carriage return in front of every line feed no piece but the last is empty, so there is one
   paragraph at most (`paragraphs_crlf`).
-/

namespace TicketMarkup

namespace Text

variable {t : Text}

/-! ## Cutting pieces -/

/-- Cuts pieces at each that is empty and stands between two others; it is left out. -/
def cut {α : Type} (isEmpty : α → Bool) : List α → List (List α)
  | [] => []
  | [piece] => [[piece]]
  | [piece, last] => [[piece, last]]
  | piece :: next :: later :: rest =>
    if isEmpty next then [piece] :: cut isEmpty (later :: rest)
    else (cut isEmpty (next :: later :: rest)).modifyHead (piece :: ·)

section

variable {α β : Type} {isEmpty : α → Bool}

/-- The first piece decides nothing. -/
theorem exists_cut_cons (isEmpty : α → Bool) (rest : List α) :
    ∃ group groups, ∀ piece, cut isEmpty (piece :: rest) = (piece :: group) :: groups := by
  induction rest with
  | nil => exact ⟨[], [], fun _ => rfl⟩
  | cons next rest ih =>
    cases rest with
    | nil => exact ⟨[next], [], fun _ => rfl⟩
    | cons later rest =>
      by_cases hnext : isEmpty next
      · exact ⟨[], cut isEmpty (later :: rest), fun _ => by rw [cut, if_pos hnext]⟩
      · obtain ⟨group, groups, heq⟩ := ih
        exact ⟨next :: group, groups, fun _ => by rw [cut, if_neg hnext, heq]; rfl⟩

theorem cut_of_isEmpty {next : α} (h : isEmpty next) (piece later : α) (rest : List α) :
    cut isEmpty (piece :: next :: later :: rest) = [piece] :: cut isEmpty (later :: rest) := by
  rw [cut, if_pos h]

theorem cut_of_not_isEmpty {next : α} (h : ¬isEmpty next) (piece : α) (rest : List α) :
    cut isEmpty (piece :: next :: rest) =
      (cut isEmpty (next :: rest)).modifyHead (piece :: ·) := by
  cases rest with
  | nil => rfl
  | cons later rest => rw [cut, if_neg h]

theorem cut_map (f : α → β) (isEmpty : β → Bool) (pieces : List α) :
    cut isEmpty (pieces.map f) = (cut (isEmpty ∘ f) pieces).map (List.map f) := by
  fun_induction cut (isEmpty ∘ f) pieces with
  | case1 | case2 | case3 => rfl
  | case4 piece next later rest hnext ih =>
    have hnext : isEmpty (f next) := hnext
    exact (cut_of_isEmpty hnext (f piece) (f later) (rest.map f)).trans (congrArg _ ih)
  | case5 piece next later rest hnext ih =>
    have hnext : ¬isEmpty (f next) := hnext
    obtain ⟨group, groups, heq⟩ := exists_cut_cons (isEmpty ∘ f) (later :: rest)
    refine (cut_of_not_isEmpty hnext (f piece) _).trans ?_
    rw [heq] at ih ⊢
    exact congrArg _ ih

/-- Nothing is left out but empty pieces. -/
theorem filter_flatten_cut {keep : α → Bool} (h : ∀ piece, isEmpty piece → ¬keep piece)
    (pieces : List α) : (cut isEmpty pieces).flatten.filter keep = pieces.filter keep := by
  fun_induction cut isEmpty pieces with
  | case1 | case2 | case3 => simp
  | case4 piece next later rest hnext ih =>
    have hskip : [piece, next].filter keep = [piece].filter keep := by
      rw [List.filter_cons, List.filter_cons_of_neg (h next hnext), ← List.filter_cons]
    rw [List.flatten_cons, List.filter_append, ih, ← hskip, ← List.filter_append]
    rfl
  | case5 piece next later rest hnext ih =>
    obtain ⟨group, groups, heq⟩ := exists_cut_cons isEmpty (later :: rest)
    rw [heq] at ih ⊢
    rw [List.filter_cons, ← ih, ← List.filter_cons]
    rfl

theorem sublist_of_mem_cut {pieces group : List α} (h : group ∈ cut isEmpty pieces) :
    group.Sublist pieces := by
  fun_induction cut isEmpty pieces generalizing group with
  | case1 => simp at h
  | case2 | case3 =>
    obtain rfl := List.mem_singleton.1 h
    exact List.Sublist.refl _
  | case4 piece next later rest hnext ih =>
    rcases List.mem_cons.1 h with rfl | h
    · exact List.singleton_sublist.2 (List.mem_cons_self ..)
    · exact ((ih h).cons next).cons piece
  | case5 piece next later rest hnext ih =>
    obtain ⟨front, groups, heq⟩ := exists_cut_cons isEmpty (later :: rest)
    rw [heq] at h ih
    rcases List.mem_cons.1 h with rfl | h
    · exact (ih (List.mem_cons_self ..)).cons_cons piece
    · exact (ih (List.mem_cons_of_mem _ h)).cons piece

theorem mem_of_mem_cut {pieces group : List α} {piece : α} (hgroup : group ∈ cut isEmpty pieces)
    (hpiece : piece ∈ group) : piece ∈ pieces :=
  (sublist_of_mem_cut hgroup).subset hpiece

end

/-! ## Numbered pieces -/

/-- An empty piece stands between two numbers. -/
def Between (rows : List (Text × Nat)) (i j : Nat) : Prop :=
  ∃ row ∈ rows, i < row.2 ∧ row.2 < j ∧ row.1.isEmpty

section

variable {rows : List (Text × Nat)}

/-- An empty piece stands between any two that are cut apart. -/
theorem between_of_cut (h : rows.Pairwise (·.2 < ·.2)) :
    (cut (·.1.isEmpty) rows).Pairwise fun group group' =>
      ∀ a ∈ group, ∀ b ∈ group', Between rows a.2 b.2 := by
  have hmore {rows more : List (Text × Nat)} (hsub : rows ⊆ more) {i j : Nat}
      (hbetween : Between rows i j) : Between more i j := by
    obtain ⟨row, hrow, hlaw⟩ := hbetween
    exact ⟨row, hsub hrow, hlaw⟩
  fun_induction cut (·.1.isEmpty) rows with
  | case1 => exact List.Pairwise.nil
  | case2 | case3 => exact List.pairwise_singleton _ _
  | case4 first next later rest hnext ih =>
    obtain ⟨hfirst, hrest⟩ := List.pairwise_cons.1 h
    obtain ⟨hlater, hrest⟩ := List.pairwise_cons.1 hrest
    refine List.pairwise_cons.2 ⟨?_, (ih hrest).imp fun hgroups a ha b hb => ?_⟩
    · intro group hgroup a ha b hb
      obtain rfl := List.mem_singleton.1 ha
      exact ⟨next, by simp, hfirst next (by simp), hlater b (mem_of_mem_cut hgroup hb), hnext⟩
    · exact hmore (by simp) (hgroups a ha b hb)
  | case5 first next later rest hnext ih =>
    obtain ⟨hfirst, hrest⟩ := List.pairwise_cons.1 h
    obtain ⟨group, groups, heq⟩ := exists_cut_cons (·.1.isEmpty) (later :: rest)
    have ih := ih hrest
    rw [heq] at ih ⊢
    obtain ⟨hgroup, hgroups⟩ := List.pairwise_cons.1 ih
    refine List.pairwise_cons.2 ⟨?_, hgroups.imp fun hlaw a ha b hb => ?_⟩
    · intro group' hgroup' a ha b hb
      rcases List.mem_cons.1 ha with rfl | ha
      · -- What stands behind the second piece of the group stands behind the first.
        obtain ⟨row, hrow, hlow, hlaw⟩ := hgroup group' hgroup' next (by simp) b hb
        exact ⟨row, List.mem_cons_of_mem _ hrow, (hfirst next (by simp)).trans hlow, hlaw⟩
      · exact hmore (List.subset_cons_self _ _) (hgroup group' hgroup' a ha b hb)
    · exact hmore (List.subset_cons_self _ _) (hlaw a ha b hb)

theorem not_between_self (rows : List (Text × Nat)) (i : Nat) : ¬Between rows i i := by
  rintro ⟨row, -, hlow, hhigh, -⟩
  omega

/-- Nothing stands in front of the first piece. -/
theorem not_between_first {first : Text × Nat} (h : (first :: rows).Pairwise (·.2 < ·.2)) (i : Nat) :
    ¬Between (first :: rows) i first.2 := by
  rintro ⟨row, hrow, -, hhigh, -⟩
  rcases List.mem_cons.1 hrow with rfl | hrow
  · exact absurd hhigh (Nat.lt_irrefl _)
  · exact absurd hhigh (Nat.lt_asymm (List.rel_of_pairwise_cons h hrow))

theorem not_between_cons {first a : Text × Nat} {j : Nat} (h : first.2 < a.2)
    (hrest : ¬Between rows a.2 j) : ¬Between (first :: rows) a.2 j := by
  rintro ⟨row, hrow, hlow, hhigh, hnil⟩
  rcases List.mem_cons.1 hrow with rfl | hrow
  · exact absurd (h.trans hlow) (Nat.lt_irrefl _)
  · exact hrest ⟨row, hrow, hlow, hhigh, hnil⟩

/-- What stands behind the first piece stands behind the second, or is the second. -/
theorem not_between_next {first next : Text × Nat} {j : Nat}
    (h : (next :: rows).Pairwise (·.2 < ·.2)) (hnext : ¬next.1.isEmpty)
    (hrest : ¬Between (next :: rows) next.2 j) : ¬Between (first :: next :: rows) first.2 j := by
  rintro ⟨row, hrow, hlow, hhigh, hnil⟩
  rcases List.mem_cons.1 hrow with rfl | hrow
  · exact absurd hlow (Nat.lt_irrefl _)
  · rcases List.mem_cons.1 hrow with rfl | hlater
    · exact hnext hnil
    · exact hrest ⟨row, hrow, List.rel_of_pairwise_cons h hlater, hhigh, hnil⟩

/-- Of the pieces of a group only the first and the last can be empty. -/
theorem not_between_of_cut (h : rows.Pairwise (·.2 < ·.2)) {group : List (Text × Nat)}
    (hgroup : group ∈ cut (·.1.isEmpty) rows) {a b : Text × Nat} (ha : a ∈ group)
    (hb : b ∈ group) (hne : ¬b.1.isEmpty) : ¬Between rows a.2 b.2 := by
  fun_induction cut (·.1.isEmpty) rows generalizing group a b with
  | case1 => simp at hgroup
  | case2 row =>
    obtain rfl := List.mem_singleton.1 hgroup
    obtain rfl := List.mem_singleton.1 ha
    obtain rfl := List.mem_singleton.1 hb
    exact not_between_self _ _
  | case3 row last =>
    obtain rfl := List.mem_singleton.1 hgroup
    have hrow : row.2 < last.2 := List.rel_of_pairwise_cons h (List.mem_singleton_self _)
    rintro ⟨empty, hempty, hlow, hhigh, -⟩
    rw [List.mem_pair] at ha hb hempty
    rcases ha with rfl | rfl <;> rcases hb with rfl | rfl <;> rcases hempty with rfl | rfl <;> omega
  | case4 first next later rest hnext ih =>
    obtain ⟨hfirst, hrest⟩ := List.pairwise_cons.1 h
    obtain ⟨hlater, hrest⟩ := List.pairwise_cons.1 hrest
    rcases List.mem_cons.1 hgroup with rfl | hgroup
    · obtain rfl := List.mem_singleton.1 ha
      obtain rfl := List.mem_singleton.1 hb
      exact not_between_self _ _
    · have hmem := mem_of_mem_cut hgroup ha
      exact not_between_cons (hfirst a (List.mem_cons_of_mem _ hmem))
        (not_between_cons (hlater a hmem) (ih hrest hgroup ha hb hne))
  | case5 first next later rest hnext ih =>
    obtain ⟨hfirst, hrest⟩ := List.pairwise_cons.1 h
    obtain ⟨front, groups, heq⟩ := exists_cut_cons (·.1.isEmpty) (later :: rest)
    have hih := @ih hrest
    have hmem {group : List (Text × Nat)} (hgroup : group ∈ (next :: front) :: groups)
        {a : Text × Nat} (ha : a ∈ group) : a ∈ next :: later :: rest :=
      mem_of_mem_cut ((heq next).symm ▸ hgroup) ha
    rw [heq] at hgroup hih
    rcases List.mem_cons.1 hgroup with rfl | hgroup
    · have hhead : next :: front ∈ (next :: front) :: groups := List.mem_cons_self ..
      rcases List.mem_cons.1 hb with rfl | hbehind
      · exact not_between_first h _
      · rcases List.mem_cons.1 ha with rfl | ha
        · exact not_between_next hrest hnext
            (hih hhead (List.mem_cons_self ..) hbehind hne)
        · exact not_between_cons (hfirst a (hmem hhead ha)) (hih hhead ha hbehind hne)
    · have hgroup := List.mem_cons_of_mem (next :: front) hgroup
      exact not_between_cons (hfirst a (hmem hgroup ha)) (hih hgroup ha hb hne)

end

/-! ## Numbers of lines -/

/-- The texts between line feeds, numbered from zero. -/
def rows (t : Text) : List (Text × Nat) := (splitOn '\n' t).zipIdx

/-- The numbers of the lines that are not blank. -/
def shownNumbers (t : Text) : List Nat := (t.lines.zipIdx.filter (!·.1.isBlank)).map Prod.snd

/-- No line between two numbers is empty, that is its line feed follows the one before it at once. -/
def Together (t : Text) (i j : Nat) : Bool := ∀ k < j, i < k → (splitOn '\n' t)[k]? ≠ some []

theorem pairwise_rows (t : Text) : t.rows.Pairwise (·.2 < ·.2) := by
  have hlt : (t.rows.map Prod.snd).Pairwise (· < ·) := by
    rw [rows, List.zipIdx_map_snd]
    exact List.pairwise_lt_range'
  exact List.pairwise_map.1 hlt

theorem mem_rows_iff {row : Text × Nat} : row ∈ t.rows ↔ (splitOn '\n' t)[row.2]? = some row.1 :=
  List.mem_zipIdx_iff_getElem?

theorem together_iff {i j : Nat} : t.Together i j ↔ ¬Between t.rows i j := by
  simp only [Together, Between, decide_eq_true_eq, not_exists, not_and, mem_rows_iff]
  constructor
  · rintro h ⟨piece, k⟩ hpiece hlow hhigh hnil
    rw [List.isEmpty_iff.1 hnil] at hpiece
    exact h k hhigh hlow hpiece
  · intro h k hhigh hlow hpiece
    exact h ([], k) hpiece hlow hhigh rfl

theorem isBlank_dropSuffix_return (t : Text) : isBlank (dropSuffix ['\r'] t) = t.isBlank := by
  rw [Bool.eq_iff_iff, ← ink_eq_nil_iff, ink_dropSuffix_return, ink_eq_nil_iff]

theorem map_snd_filter_closeLines (pieces : List Text) (n : Nat) :
    (((closeLines pieces).zipIdx n).filter (!·.1.isBlank)).map Prod.snd =
      ((pieces.zipIdx n).filter (!·.1.isBlank)).map Prod.snd := by
  fun_induction closeLines pieces generalizing n with
  | case1 => rfl
  | case2 last hlast =>
    obtain rfl := List.isEmpty_iff.1 hlast
    rfl
  | case3 last hlast => rfl
  | case4 piece rest hrest ih =>
    rw [List.zipIdx_cons, List.zipIdx_cons, List.filter_cons, List.filter_cons]
    simp only [isBlank_dropSuffix_return]
    split_ifs
    · rw [List.map_cons, List.map_cons, ih]
    · exact ih (n + 1)

theorem isBlank_of_isEmpty (h : List.isEmpty t) : t.isBlank := by
  simp [List.isEmpty_iff.1 h, isBlank]

/-- The pieces that are not blank, cut at empty ones. -/
def shownGroups (t : Text) : List (List (Text × Nat)) :=
  ((cut (·.1.isEmpty) t.rows).map (List.filter (!·.1.isBlank))).filter (!·.isEmpty)

theorem flatten_shownGroups (t : Text) : t.shownGroups.flatten.map Prod.snd = t.shownNumbers := by
  have hkeep : ∀ row : Text × Nat, row.1.isEmpty → ¬(!row.1.isBlank) := by
    intro row hrow
    simp [isBlank_of_isEmpty hrow]
  rw [shownGroups, List.flatten_filter_not_isEmpty, ← List.filter_flatten, filter_flatten_cut hkeep]
  exact (map_snd_filter_closeLines (splitOn '\n' t) 0).symm

theorem together_of_mem_shownGroups {group : List (Text × Nat)} (hgroup : group ∈ t.shownGroups)
    {a b : Text × Nat} (ha : a ∈ group) (hb : b ∈ group) : t.Together a.2 b.2 := by
  obtain ⟨whole, hwhole, rfl⟩ := List.mem_map.1 (List.mem_of_mem_filter hgroup)
  obtain ⟨hb, hshown⟩ := List.mem_filter.1 hb
  have hne : ¬b.1.isEmpty := by
    intro hempty
    simp [isBlank_of_isEmpty hempty] at hshown
  exact together_iff.2
    (not_between_of_cut t.pairwise_rows hwhole (List.mem_of_mem_filter ha) hb hne)

theorem between_of_shownGroups (t : Text) :
    t.shownGroups.Pairwise fun group group' =>
      ∀ a ∈ group, ∀ b ∈ group', Between t.rows a.2 b.2 := by
  refine List.Pairwise.filter _ (List.pairwise_map.2 ?_)
  refine (between_of_cut t.pairwise_rows).imp fun h a ha b hb => ?_
  exact h a (List.mem_of_mem_filter ha) b (List.mem_of_mem_filter hb)

/-- The groups are the longest stretches of lines that are not blank without an empty line between
them. -/
theorem splitBy_shownNumbers (t : Text) :
    t.shownNumbers.splitBy t.Together = t.shownGroups.map (List.map Prod.snd) := by
  have hne : ∀ group ∈ t.shownGroups, group ≠ [] := fun group hgroup => by
    simpa using List.of_mem_filter hgroup
  rw [List.splitBy_eq_iff]
  refine ⟨?_, ?_, ?_, ?_⟩
  · rw [← List.map_flatten, flatten_shownGroups]
  · intro hmem
    obtain ⟨group, hgroup, hnil⟩ := List.mem_map.1 hmem
    exact hne group hgroup (List.map_eq_nil_iff.1 hnil)
  · rw [List.forall_mem_map]
    intro group hgroup
    rw [List.isChain_map]
    exact (List.pairwise_of_forall_mem_list fun a ha b hb =>
      together_of_mem_shownGroups hgroup ha hb).isChain
  · rw [List.isChain_map]
    refine ((between_of_shownGroups t).imp_of_mem fun {group group'} hgroup hgroup' h => ?_).isChain
    refine ⟨by simpa using hne group hgroup, by simpa using hne group' hgroup', ?_⟩
    rw [← Bool.not_eq_true, together_iff, not_not, List.getLast_map, List.head_map]
    exact h _ (List.getLast_mem _) _ (List.head_mem _)

/-! ## Lines of paragraphs -/

theorem paragraphs_cons {c : Char} (h : c ≠ '\n' ∨ t.head? ≠ some '\n') :
    paragraphs (c :: t) = consFirst c (paragraphs t) := by
  rw [paragraphs]
  rintro rest rfl rfl
  simp at h

/-- The paragraphs are the pieces between line feeds, cut at empty ones and joined again. -/
theorem paragraphs_eq (t : Text) :
    paragraphs t = (cut List.isEmpty (splitOn '\n' t)).map (join ['\n']) := by
  fun_induction paragraphs t with
  | case1 => rfl
  | case2 rest ih =>
    obtain ⟨piece, pieces, hsplit⟩ := List.exists_cons_of_ne_nil (splitOn_ne_nil '\n' rest)
    have hcut : splitOn '\n' ('\n' :: '\n' :: rest) = [] :: [] :: piece :: pieces := by
      simp [splitOn, hsplit]
    rw [hcut, cut_of_isEmpty rfl, ← hsplit, ih]
    rfl
  | case3 c rest hrest ih =>
    obtain ⟨piece, pieces, hsplit⟩ := List.exists_cons_of_ne_nil (splitOn_ne_nil '\n' rest)
    obtain ⟨group, groups, hgroups⟩ := exists_cut_cons List.isEmpty pieces
    rw [hsplit] at ih
    rw [ih, splitOn, hsplit]
    split_ifs with hc
    · cases rest with
      | nil =>
        obtain ⟨rfl, rfl⟩ : [] = piece ∧ [] = pieces := by simpa [splitOn] using hsplit
        exact congrArg (fun c => [[c]]) hc
      | cons d rest =>
        have hpiece : ¬piece.isEmpty := by
          have hd : d ≠ '\n' := fun h => hrest rest hc (h ▸ rfl)
          obtain ⟨next, later, hnext, -⟩ := exists_splitOn_eq_cons '\n' rest
          rw [splitOn, if_neg hd, hnext] at hsplit
          simp [← (List.cons.inj hsplit).1]
        rw [cut_of_not_isEmpty hpiece, hgroups, hc]
        rfl
    · rw [consFirst, hgroups, hgroups, List.map_cons, List.map_cons, consFirst]
      exact congrArg (· :: _) (join_consFirst ['\n'] c (piece :: group)).symm

/-- The lines of a text that are not blank. -/
def shownLines (t : Text) : List Text := t.lines.filter (!·.isBlank)

theorem shownLines_join {group : List Text} (h : group ∈ cut List.isEmpty (splitOn '\n' t)) :
    (join ['\n'] group).shownLines = (closeLines group).filter (!·.isBlank) := by
  cases group with
  | nil => rfl
  | cons piece group =>
    rw [shownLines, lines, splitOn_join (List.cons_ne_nil piece group)]
    exact fun p hp => not_mem_of_mem_splitOn (mem_of_mem_cut h hp)

/-- The text of a piece in its paragraph: a carriage return at its end is left out if a further piece
of the paragraph follows. -/
def Closes (count : Nat) (row : Text × Nat) (text : Text) : Prop :=
  text = row.1 ∨ row.2 + 1 < count ∧ text = dropSuffix ['\r'] row.1

theorem closes_closeLines {group : List (Text × Nat)} {count : Nat}
    (hsorted : group.Pairwise (·.2 < ·.2)) (hcount : ∀ row ∈ group, row.2 < count) :
    List.Forall₂ (Closes count) (group.filter (!·.1.isBlank))
      ((closeLines (group.map Prod.fst)).filter (!·.isBlank)) := by
  induction group with
  | nil => exact .nil
  | cons row rest ih =>
    rw [List.forall_mem_cons] at hcount
    obtain ⟨hrow, hrest⟩ := List.pairwise_cons.1 hsorted
    have ih := ih hrest hcount.2
    cases rest with
    | nil =>
      rw [List.map_singleton, closeLines]
      by_cases hblank : row.1.isBlank
      · split_ifs <;> simp [hblank]
      · have hempty : ¬row.1.isEmpty := fun h => hblank (isBlank_of_isEmpty h)
        simpa [hempty, hblank] using .inl rfl
    | cons next rest =>
      have hnext : row.2 + 1 < count :=
        Nat.lt_of_le_of_lt (hrow next (List.mem_cons_self ..)) (hcount.2 next (List.mem_cons_self ..))
      rw [List.map_cons, closeLines_cons row.1 (by simp), List.filter_cons (x := row),
        List.filter_cons (x := dropSuffix ['\r'] row.1), isBlank_dropSuffix_return]
      split_ifs
      · exact .cons (.inr ⟨hnext, rfl⟩) ih
      · exact ih

theorem getElem?_closeLines {pieces : List Text} {i : Nat} {piece : Text} (h : pieces[i]? = some piece)
    (hne : piece ≠ []) :
    (closeLines pieces)[i]? =
      some (if i + 1 < pieces.length then dropSuffix ['\r'] piece else piece) := by
  fun_induction closeLines pieces generalizing i with
  | case1 => simp at h
  | case2 last hlast =>
    cases i with
    | zero =>
      obtain rfl : last = piece := by simpa using h
      exact absurd (List.isEmpty_iff.1 hlast) hne
    | succ i => simp at h
  | case3 last hlast =>
    cases i with
    | zero => simpa using h
    | succ i => simp at h
  | case4 first rest hrest ih =>
    have hlength : 0 < rest.length := List.length_pos_iff.2 hrest
    cases i with
    | zero =>
      obtain rfl : first = piece := by simpa using h
      simp [hlength]
    | succ i =>
      rw [List.getElem?_cons_succ] at h ⊢
      rw [ih h, List.length_cons]
      simp

/-- The line with a number is shown by a node. A carriage return of the line's end can stand
behind it. -/
def Shows (t : Text) (i : Nat) (n : Node) : Prop :=
  ∃ line, t.lines[i]? = some line ∧ (n = .plain line ∨ n = .plain (line ++ ['\r']))

theorem shows_of_closes {row : Text × Nat} {text : Text} (hrow : row ∈ t.rows) (hne : row.1 ≠ [])
    (h : Closes (splitOn '\n' t).length row text) : t.Shows row.2 (.plain text) := by
  have hline := getElem?_closeLines (mem_rows_iff.1 hrow) hne
  split_ifs at hline with hlast
  · refine ⟨_, hline, ?_⟩
    rcases h with rfl | ⟨-, rfl⟩
    · rcases eq_dropSuffix_or ['\r'] row.1 with heq | heq
      · exact .inl (congrArg _ heq)
      · exact .inr (congrArg _ heq)
    · exact .inl rfl
  · refine ⟨_, hline, .inl ?_⟩
    rcases h with rfl | ⟨hlast', -⟩
    · rfl
    · exact absurd hlast' hlast

theorem forall₂_filter_isEmpty {α β γ : Type} {r : β → γ → Prop} {f : α → List β} {g : α → List γ}
    {l : List α} (h : ∀ a ∈ l, List.Forall₂ r (f a) (g a)) :
    List.Forall₂ (List.Forall₂ r) ((l.map f).filter (!·.isEmpty))
      ((l.map g).filter (!·.isEmpty)) := by
  induction l with
  | nil => exact .nil
  | cons a rest ih =>
    rw [List.forall_mem_cons] at h
    have hempty : (f a).isEmpty = (g a).isEmpty := by
      rw [Bool.eq_iff_iff, List.isEmpty_iff_length_eq_zero, List.isEmpty_iff_length_eq_zero,
        h.1.length_eq]
    rw [List.map_cons, List.map_cons, List.filter_cons, List.filter_cons, hempty]
    split_ifs
    · exact .cons h.1 (ih h.2)
    · exact ih h.2

end Text

open Text

/-- The texts of the paragraphs, in terms of the numbered pieces. -/
theorem map_plainTexts_paragraphs (t : Text) :
    (paragraphs t).map Document.plainTexts = (cut (·.1.isEmpty) t.rows).map fun group =>
      ((closeLines (group.map Prod.fst)).filter (!·.isBlank)).map Node.plain := by
  have hpieces : splitOn '\n' t = t.rows.map Prod.fst := (List.zipIdx_map_fst 0 _).symm
  have hcut : cut List.isEmpty (splitOn '\n' t) =
      (cut (·.1.isEmpty) t.rows).map (List.map Prod.fst) := by
    rw [hpieces]
    exact cut_map Prod.fst List.isEmpty t.rows
  rw [paragraphs_eq, List.map_map]
  have hjoin : ∀ group ∈ cut List.isEmpty (splitOn '\n' t),
      (Document.plainTexts ∘ join ['\n']) group =
        ((closeLines group).filter (!·.isBlank)).map Node.plain := by
    intro group hgroup
    exact congrArg (List.map Node.plain) (shownLines_join hgroup)
  rw [List.map_congr_left hjoin, hcut, List.map_map]
  rfl

/-- The paragraphs are the longest stretches of lines that are not blank without an empty line
between them. -/
theorem exists_bodies_ofPlainText (t : Text) :
    ∃ bodies, (Document.ofPlainText t).content = bodies.map (Node.container .paragraph) ∧
      List.Forall₂ (List.Forall₂ t.Shows) (t.shownNumbers.splitBy t.Together) bodies := by
  refine ⟨((paragraphs t).map Document.plainTexts).filter (!·.isEmpty), rfl, ?_⟩
  have hgroups : t.shownNumbers.splitBy t.Together =
      ((cut (·.1.isEmpty) t.rows).map fun group =>
        (group.filter (!·.1.isBlank)).map Prod.snd).filter (!·.isEmpty) := by
    rw [splitBy_shownNumbers, shownGroups]
    simp [List.filter_map, Function.comp_def]
  rw [map_plainTexts_paragraphs, hgroups]
  refine forall₂_filter_isEmpty fun group hgroup => ?_
  rw [List.forall₂_map_left_iff, List.forall₂_map_right_iff]
  have hsub := sublist_of_mem_cut hgroup
  have hcount : ∀ row ∈ group, row.2 < (splitOn '\n' t).length := by
    intro row hrow
    exact (List.getElem?_eq_some_iff.1 (mem_rows_iff.1 (hsub.subset hrow))).1
  have hcloses := closes_closeLines (t.pairwise_rows.sublist hsub) hcount
  have hrows : ∀ row ∈ group.filter (!·.1.isBlank), row ∈ t.rows ∧ row.1 ≠ [] := by
    intro row hrow
    obtain ⟨hrow, hshown⟩ := List.mem_filter.1 hrow
    refine ⟨hsub.subset hrow, ?_⟩
    intro hnil
    rw [hnil] at hshown
    exact absurd hshown (by decide)
  exact ((List.forall₂_and_left _ _).2 ⟨hrows, hcloses⟩).imp
    fun row text h => shows_of_closes h.1.1 h.1.2 h.2

/-! ## Texts without carriage returns -/

namespace Text

variable {t : Text}

theorem filter_closeLines {pieces : List Text} (h : ∀ piece ∈ pieces, '\r' ∉ piece) :
    (closeLines pieces).filter (!·.isBlank) = pieces.filter (!·.isBlank) := by
  fun_induction closeLines pieces with
  | case1 => rfl
  | case2 last hlast => simp [List.isEmpty_iff.1 hlast, isBlank]
  | case3 last hlast => rfl
  | case4 piece rest hrest ih =>
    rw [List.forall_mem_cons] at h
    rw [dropSuffix_return fun hlast => h.1 (List.mem_of_mem_getLast? hlast), List.filter_cons,
      List.filter_cons, ih h.2]

/-- Without carriage returns the lines that are not blank are pieces between line feeds. -/
theorem shownLines_eq (h : '\r' ∉ t) : t.shownLines = (splitOn '\n' t).filter (!·.isBlank) :=
  filter_closeLines (return_not_mem_splitOn h)

/-- Without carriage returns the paragraphs have the lines of the text that are not blank. -/
theorem flatMap_shownLines_paragraphs (h : '\r' ∉ t) :
    (paragraphs t).flatMap shownLines = t.shownLines := by
  have hgroups : ∀ group ∈ cut List.isEmpty (splitOn '\n' t),
      (join ['\n'] group).shownLines = group.filter (!isBlank ·) := by
    intro group hgroup
    rw [shownLines_join hgroup]
    exact filter_closeLines fun piece hpiece =>
      return_not_mem_splitOn h piece (mem_of_mem_cut hgroup hpiece)
  have hkeep : ∀ piece : Text, piece.isEmpty → ¬(!piece.isBlank) := by
    intro piece hpiece
    simp [isBlank_of_isEmpty hpiece]
  rw [paragraphs_eq, List.flatMap_map, List.flatMap_def, List.map_congr_left hgroups,
    ← List.filter_flatten, filter_flatten_cut hkeep, shownLines_eq h]

/-- The lines that are not blank of each paragraph that has any. -/
def shownParagraphs (t : Text) : List (List Text) :=
  ((paragraphs t).map shownLines).filter (!·.isEmpty)

theorem nil_not_mem_shownParagraphs (t : Text) : [] ∉ t.shownParagraphs := by simp [shownParagraphs]

theorem flatten_shownParagraphs (h : '\r' ∉ t) : t.shownParagraphs.flatten = t.shownLines := by
  rw [shownParagraphs, List.flatten_filter_not_isEmpty, ← List.flatMap_def,
    flatMap_shownLines_paragraphs h]

end Text

/-- Each paragraph has its lines that are not blank as texts. -/
theorem content_ofPlainText (t : Text) :
    (Document.ofPlainText t).content =
      t.shownParagraphs.map fun ls => .container .paragraph (ls.map .plain) := by
  have hplain : Document.plainTexts = List.map Node.plain ∘ shownLines := rfl
  have hempty : (fun nodes : List Node => !nodes.isEmpty) ∘ List.map Node.plain =
      fun ls : List Text => !ls.isEmpty := by
    funext ls
    simp
  rw [Document.ofPlainText, Document.ofContent, hplain, ← List.map_map, List.filter_map, hempty,
    List.map_map]
  rfl

/-- **Verbatim lines.** A plain text without carriage returns becomes a document of paragraphs. Their
texts, one after the other, are the lines that are not blank, as they stand between the line feeds and
without marks, and no paragraph is empty. -/
theorem exists_shownLines_ofPlainText {t : Text} (h : '\r' ∉ t) :
    ∃ bodies : List (List Text),
      (Document.ofPlainText t).content =
        bodies.map (fun ls => .container .paragraph (ls.map .plain)) ∧
      [] ∉ bodies ∧
      bodies.flatten = t.lines.filter (!·.isBlank) ∧
      bodies.flatten = (splitOn '\n' t).filter (!·.isBlank) := by
  refine ⟨t.shownParagraphs, content_ofPlainText t, t.nil_not_mem_shownParagraphs,
    flatten_shownParagraphs h, ?_⟩
  rw [flatten_shownParagraphs h, shownLines_eq h]

/-- Empty lines in front, between and behind, and a line of blanks. -/
theorem exists_shownLines_ofPlainText_stretches :
    let t : Text := "\n\n\n **a**\n \nb\n\n\nc\n\n".toList
    '\r' ∉ t ∧ ∃ bodies : List (List Text),
      (Document.ofPlainText t).content =
        bodies.map (fun ls => .container .paragraph (ls.map .plain)) ∧
      [] ∉ bodies ∧ bodies.flatten = [" **a**".toList, ['b'], ['c']] := by
  intro t
  have hreturn : '\r' ∉ t := by decide
  obtain ⟨bodies, hcontent, hne, hlines, -⟩ := exists_shownLines_ofPlainText hreturn
  exact ⟨hreturn, bodies, hcontent, hne, hlines.trans (by decide)⟩

/-! ## Carriage returns -/

namespace Text

variable {t : Text}

theorem head?_crlf (t : Text) : (crlf t).head? ≠ some '\n' := by
  cases t with
  | nil => simp [crlf]
  | cons c t =>
    by_cases hc : c = '\n'
    · simp [hc, crlf_newline]
    · simp [crlf_cons hc, hc]

/-- There are no double line feeds. -/
theorem paragraphs_crlf (t : Text) : paragraphs (crlf t) = [crlf t] := by
  induction t with
  | nil => rfl
  | cons c t ih =>
    by_cases hc : c = '\n'
    · rw [hc, crlf_newline, paragraphs_cons (.inl (by decide)), paragraphs_cons (.inr (head?_crlf t)),
        ih]
      rfl
    · rw [crlf_cons hc, paragraphs_cons (.inl hc), ih]
      rfl

end Text

/-- With a carriage return in front of every line feed the lines make one paragraph, so the document
stays as it is only if it has one at most. -/
theorem ofPlainText_crlf_eq_iff {t : Text} (h : '\r' ∉ t) :
    Document.ofPlainText t.crlf = Document.ofPlainText t ↔
      (Document.ofPlainText t).content.length ≤ 1 := by
  have hcrlf : Document.ofPlainText t.crlf = Document.ofContent
      (([t.shownLines.map Node.plain].filter (!·.isEmpty)).map (Node.container .paragraph)) := by
    rw [shownLines, ← lines_crlf h, Document.ofPlainText, paragraphs_crlf]
    rfl
  constructor
  · intro heq
    rw [← heq, hcrlf, Document.ofContent, List.length_map]
    exact List.length_filter_le _ _
  · intro hlength
    have hne := t.nil_not_mem_shownParagraphs
    have hflatten := flatten_shownParagraphs h
    have hcontent : Document.ofPlainText t = .ofContent _ :=
      congrArg Document.ofContent (content_ofPlainText t)
    rw [content_ofPlainText, List.length_map] at hlength
    rw [hcrlf, hcontent, ← hflatten]
    generalize t.shownParagraphs = bodies at hlength hne ⊢
    rcases bodies with _ | ⟨body, _ | ⟨next, bodies⟩⟩
    · rfl
    · have hbody : body ≠ [] := by simpa [eq_comm] using hne
      simp [hbody]
    · simp at hlength

/-- **Paragraphs of plain text.** The paragraphs are the longest stretches of lines that are not
blank without an empty line between them, each line a text. A text of several paragraphs without
carriage returns becomes another document when it gets one in front of every line feed. -/
theorem paragraphs_ofPlainText (t : Text) :
    (∃ bodies, (Document.ofPlainText t).content = bodies.map (Node.container .paragraph) ∧
      List.Forall₂ (List.Forall₂ t.Shows) (t.shownNumbers.splitBy t.Together) bodies) ∧
    ('\r' ∉ t → (Document.ofPlainText t.crlf = Document.ofPlainText t ↔
      (Document.ofPlainText t).content.length ≤ 1)) :=
  ⟨exists_bodies_ofPlainText t, ofPlainText_crlf_eq_iff⟩

/-- Two paragraphs that become one. -/
theorem paragraphs_ofPlainText_two :
    let t : Text := "a\nb\n\nc".toList
    '\r' ∉ t ∧ t.shownNumbers.splitBy t.Together = [[0, 1], [3]] ∧
      Document.ofPlainText t.crlf ≠ Document.ofPlainText t := by
  intro t
  have hreturn : '\r' ∉ t := by decide
  have hlength : (Document.ofPlainText t).content.length = 2 := by decide
  refine ⟨hreturn, by decide, ?_⟩
  rw [ne_eq, (paragraphs_ofPlainText t).2 hreturn, hlength]
  decide

/-- A line of a space does not end a paragraph, and a line that is empty but for its carriage return
does not either. -/
theorem ofPlainText_blank_line :
    let t : Text := "a\n \nb".toList
    let empty : Text := "a\n\nb".toList
    t.lines = [['a'], [' '], ['b']] ∧ Text.isBlank [' '] ∧
      Document.ofPlainText t =
        .ofContent [.container .paragraph [.plain ['a'], .plain ['b']]] ∧
      Document.ofPlainText empty.crlf ≠ Document.ofPlainText empty :=
  ⟨by decide, by decide, rfl, fun h => absurd (congrArg (·.content.length) h) (by decide)⟩

end TicketMarkup
