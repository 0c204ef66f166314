import TicketMarkup.Proofs.ClosingSearch
import TicketMarkup.Proofs.Tiling
import Mathlib.Data.List.SplitBy

/-!
# The spans of a line

`exists_spans_ofText`: the runs of a line are those of spans that cover the line, one after the
other, each of them written in one of five ways.

1. `IsSpan` says what may be written and what it stands for: a character, an escaped character, a
   delimited text, a code span or a reference (`Reference.Written`).
2. Every piece of the scan takes up such a span (`spans_of_mem_piecesFrom`), because each attempt
   gives a piece of its own kind.
3. The runs are put together from what the spans stand for, where characters next to each other make
   one text (`Run.ofAtoms`).
-/

namespace TicketMarkup

/-! ## What is written -/

/-- What stands behind the target of a reference with a title or without: blanks around the title,
at least one before it, and the closing parenthesis. -/
inductive Reference.Ends : Option Text → Text → Prop
  | untitled {space : Text} (space_blank : space.isBlank) : Ends none (space ++ [')'])
  | titled {gap title space : Text} (gap_ne_nil : gap ≠ []) (gap_blank : gap.isBlank)
      (title_quote : '"' ∉ title) (space_blank : space.isBlank) :
      Ends (some title) (gap ++ '"' :: title ++ '"' :: space ++ [')'])

/-- How a reference is written: an image after a `!`, the label in brackets, then in parentheses the
target, which only a link can lack, and the title. -/
inductive Reference.Written (kind : ReferenceKind) : Reference → Text → Prop
  | intro {label lead target ending : Text} {title : Option Text} (label_bracket : ']' ∉ label)
      (lead_blank : lead.isBlank) (target_chars : ∀ c ∈ target, ¬isBlank c ∧ c ≠ ')')
      (target_ne_nil : kind = .image → target ≠ []) (ends : Ends title ending) :
      Written kind ⟨label, target, title⟩
        (kind.mark ++ ('[' :: label ++ ']' :: '(' :: lead ++ target ++ ending))

/-- What a span stands for: a character of a text, or a run. -/
inductive Atom
  | char (c : Char)
  | run (r : Run)

/-- How the atoms of a line are written. -/
inductive IsSpan : Text → Atom → Prop
  | literal (c : Char) : IsSpan [c] (.char c)
  | escaped {c : Char} (punctuation : isPunctuation c) : IsSpan ['\\', c] (.char c)
  | delimited {d : Delimiter} {inner : Text} (first : inner.head?.any d.admits)
      (last : inner.getLast?.any d.admits) :
      IsSpan (d.text ++ inner ++ d.text) (.run (d.run (Run.ofText inner)))
  | code {ticks : Nat} {t : Text} (pos : 0 < ticks) (first : t.head? ≠ some '`')
      (last : t.getLast? ≠ some '`') :
      IsSpan (List.replicate ticks '`' ++ t ++ List.replicate ticks '`') (.run (.code t))
  | reference {kind : ReferenceKind} {r : Reference} {t : Text} (written : r.Written kind t) :
      IsSpan t (.run (kind.run r))

namespace Reference

theorem isBlank_takeWhile (t : Text) : Text.isBlank (t.takeWhile isBlank) := List.all_takeWhile

theorem not_mem_takeWhile_ne (c : Char) (t : Text) : c ∉ t.takeWhile (· != c) := by
  intro hmem
  simpa using List.all_eq_true.1 List.all_takeWhile c hmem

theorem ends_of_read? {t : Text} {e : Ending} (h : Ending.read? t = some e) :
    Ends (e.title.map Prod.snd) e.text := by
  simp only [Ending.read?] at h
  split at h
  · obtain rfl := Option.some.inj h
    exact .untitled (isBlank_takeWhile t)
  · next u hu =>
    split_ifs at h with hgap
    split at h
    · next v hv =>
      split at h
      · obtain rfl := Option.some.inj h
        exact .titled (by simpa using hgap) (isBlank_takeWhile t) (not_mem_takeWhile_ne '"' u)
          (isBlank_takeWhile v)
      · simp at h
    · simp at h
  · simp at h

theorem written_of_readTarget? {kind : ReferenceKind} {label t : Text} {s : Spelling}
    (hlabel : ']' ∉ label) (h : readTarget? kind label t = some s) :
    s.reference.Written kind (kind.mark ++ s.text) := by
  simp only [readTarget?] at h
  split_ifs at h with hempty
  obtain ⟨e, he, rfl⟩ := Option.map_eq_some_iff.1 h
  refine .intro hlabel (isBlank_takeWhile t) ?_ ?_ (ends_of_read? he)
  · intro c hc
    simpa [isTargetChar] using List.all_eq_true.1 List.all_takeWhile c hc
  · exact fun hkind hnil => hempty ⟨hkind, hnil⟩

theorem written_of_readUntargeted? {kind : ReferenceKind} {label t : Text} {s : Spelling}
    (hlabel : ']' ∉ label) (h : readUntargeted? kind label t = some s) :
    s.reference.Written kind (kind.mark ++ s.text) := by
  cases kind with
  | image => simp [readUntargeted?] at h
  | link =>
    obtain ⟨e, he, rfl⟩ := Option.map_eq_some_iff.1 h
    show Written .link ⟨label, [], e.title.map Prod.snd⟩
      (ReferenceKind.link.mark ++ ('[' :: label ++ ']' :: '(' :: [] ++ [] ++ e.text))
    exact .intro hlabel rfl (by simp) (by simp) (ends_of_read? he)

theorem written_of_read? {kind : ReferenceKind} {t : Text} {s : Spelling}
    (h : read? kind t = some s) : s.reference.Written kind (kind.mark ++ s.text) := by
  unfold read? at h
  split at h
  · next t =>
    have hlabel := not_mem_takeWhile_ne ']' t
    split at h
    · rw [Option.orElse_eq_orElse, Option.orElse_eq_or, Option.or_eq_some_iff] at h
      rcases h with h | ⟨-, h⟩
      · exact written_of_readTarget? hlabel h
      · exact written_of_readUntargeted? hlabel h
    · simp at h
  · simp at h

end Reference

/-! ## The pieces of the scan -/

namespace Piece

/-- What a piece stands for. -/
def atom : Piece → Atom
  | literal c | escaped c => .char c
  | delimited d inner => .run (d.run (Run.ofText inner))
  | code _ t => .run (.code t)
  | reference kind spelling => .run (kind.run spelling.reference)

/-- The piece takes up a span that stands for the same. -/
def Spans (piece : Piece) : Prop := IsSpan piece.source piece.atom

variable {m : Memory} {prev : Option Char} {t : Text} {piece : Piece}

theorem spans_of_firstDelimited? {ds : List Delimiter}
    (h : (firstDelimited? m prev t ds).1 = some piece) : piece.Spans := by
  obtain ⟨d, after, inner, rfl, -, hnext, hinner⟩ := exists_of_firstDelimited? h
  obtain ⟨k, -, ⟨-, ⟨c, hc, hblank, hne⟩, -⟩, -, rfl⟩ := Delimiter.inner?_eq_some_iff.1 hinner
  have hpos : k ≠ 0 := by
    rintro rfl
    simp at hc
  refine .delimited ?_ ?_
  · rwa [List.head?_take, if_neg hpos]
  · rw [hc, Option.any_some, Delimiter.admits]
    simp [hblank, hne]

theorem spans_of_code? (ht : 0 < CodeSpan.tickCount t) (h : (code? m t).1 = some piece) :
    piece.Spans := by
  simp only [code?] at h
  split_ifs at h
  split at h
  · next inner hinner =>
    obtain rfl := Option.some.inj h
    have hafter := (CodeSpan.tickCount_eq_iff.1 (rfl : CodeSpan.tickCount t = _)).2
    rw [CodeSpan.inner?_eq_leftmost ht, Option.map_eq_some_iff] at hinner
    obtain ⟨k, hk, rfl⟩ := hinner
    obtain ⟨-, ⟨-, hlast, -⟩, -⟩ := leftmost?_eq_some_iff.1 hk
    refine .code ht ?_ hlast
    rw [List.head?_take]
    split_ifs
    · simp
    · exact hafter
  · simp at h

theorem spans_of_reference? {kind : ReferenceKind} (h : (reference? m kind t).1 = some piece) :
    piece.Spans := by
  unfold reference? at h
  split_ifs at h
  split at h
  · next spelling hread =>
    obtain rfl := Option.some.inj h
    exact .reference (Reference.written_of_read? hread)
  · simp at h

/-- Whatever an attempt finds is a span of its kind. -/
theorem spans_of_markup? (h : (markup? m prev t).1 = some piece) : piece.Spans := by
  unfold markup? at h
  split at h
  · next c rest =>
    split_ifs at h with hpunctuation
    obtain rfl := Option.some.inj h
    exact .escaped hpunctuation
  · exact spans_of_reference? h
  · exact spans_of_reference? h
  · exact spans_of_code? (by simp [CodeSpan.tickCount]) h
  · exact spans_of_firstDelimited? h
  · simp at h

theorem spans_first (m : Memory) (prev : Option Char) (c : Char) (rest : Text) :
    (first m prev c rest).1.Spans := by
  unfold first
  split
  · next piece memory hattempt => exact spans_of_markup? (by rw [hattempt])
  · exact .literal c

end Piece

theorem spans_of_mem_piecesFrom {m : Memory} {prev : Option Char} {t : Text} {piece : Piece}
    (h : piece ∈ piecesFrom m prev t) : piece.source ≠ [] ∧ piece.Spans := by
  fun_induction piecesFrom m prev t with
  | case1 => exact absurd h List.not_mem_nil
  | case2 m prev c rest first memory hfirst source ih =>
    have hheads := Piece.first_heads m prev c rest
    have hspans := Piece.spans_first m prev c rest
    rw [hfirst] at hheads hspans
    rcases List.mem_cons.1 h with rfl | h
    · exact ⟨hheads.1, hspans⟩
    · exact ih h

/-! ## Runs of atoms -/

/-- The character that an atom is. -/
def Atom.char? : Atom → Option Char
  | char c => some c
  | run _ => none

/-- Both atoms are characters, which make one text if they are neighbours. -/
def Atom.joins (a b : Atom) : Bool := a.char?.isSome && b.char?.isSome

/-- An element that goes with the first one of a list goes into its group. -/
theorem splitBy_cons_cons {α : Type} {r : α → α → Bool} {a b : α} (h : r a b) (l : List α) :
    ∃ group groups, (b :: l).splitBy r = (b :: group) :: groups ∧
      (a :: b :: l).splitBy r = (a :: b :: group) :: groups := by
  obtain ⟨first, groups, hsplit⟩ : ∃ first groups, (b :: l).splitBy r = first :: groups :=
    List.exists_cons_of_ne_nil (List.splitBy_ne_nil.2 (List.cons_ne_nil b l))
  obtain ⟨hflatten, hnil, hchain, hbreaks⟩ := List.splitBy_eq_iff.1 hsplit
  cases first with
  | nil => exact absurd (List.mem_cons_self ..) hnil
  | cons b' group =>
    obtain ⟨rfl, hl⟩ := List.cons_eq_cons.1 hflatten
    refine ⟨group, groups, hsplit, List.splitBy_eq_iff.2 ⟨?_, ?_, ?_, ?_⟩⟩
    · rw [hflatten]
      rfl
    · simpa using hnil
    · rw [List.forall_mem_cons] at hchain ⊢
      exact ⟨List.isChain_cons_cons.2 ⟨h, hchain.1⟩, hchain.2⟩
    · cases groups with
      | nil => exact List.isChain_singleton _
      | cons next groups =>
        rw [List.isChain_cons_cons] at hbreaks ⊢
        obtain ⟨⟨_, hnext, hlast⟩, hrest⟩ := hbreaks
        exact ⟨⟨List.cons_ne_nil _ _, hnext, by rwa [List.getLast_cons]⟩, hrest⟩

namespace Run

/-- The run of atoms that belong together: a run alone, or the text of characters. -/
def ofGroup : List Atom → Run
  | [.run r] => r
  | group => text (group.filterMap Atom.char?)

/-- The runs of atoms: every longest group of characters is one text. -/
def ofAtoms (atoms : List Atom) : List Run := (atoms.splitBy Atom.joins).map ofGroup

/-- Puts an atom in front of runs. -/
def consAtom : Atom → List Run → List Run
  | .char c, runs => consChar c runs
  | .run r, runs => r :: runs

/-- An atom that does not go with the next one is a run of its own. -/
theorem ofAtoms_cons_of_not_joins {atom : Atom} {rest : List Atom}
    (h : ∀ next ∈ rest.head?, atom.joins next = false) :
    ofAtoms (atom :: rest) = ofGroup [atom] :: ofAtoms rest := by
  have hsplit : ([atom] ++ rest).splitBy Atom.joins =
      [atom].splitBy Atom.joins ++ rest.splitBy Atom.joins := by
    apply List.splitBy_append
    intro last hlast next hnext
    obtain rfl : atom = last := by simpa using hlast
    exact h next hnext
  rw [ofAtoms, ← List.singleton_append, hsplit, List.map_append]
  rfl

theorem ofAtoms_cons_run (r : Run) (rest : List Atom) :
    ofAtoms (.run r :: rest) = r :: ofAtoms rest :=
  ofAtoms_cons_of_not_joins fun _ _ => rfl

theorem ofAtoms_cons_char (c : Char) {rest : List Atom}
    (h : ∀ r, .run r ∈ rest → ∀ t, r ≠ text t) :
    ofAtoms (.char c :: rest) = consChar c (ofAtoms rest) := by
  cases rest with
  | nil => rfl
  | cons atom rest =>
    cases atom with
    | char d =>
      have hjoins : (Atom.char c).joins (.char d) := rfl
      obtain ⟨group, groups, hrest, hall⟩ := splitBy_cons_cons hjoins rest
      rw [ofAtoms, ofAtoms, hrest, hall]
      rfl
    | run r =>
      have hnext : ∀ next ∈ (Atom.run r :: rest).head?, (Atom.char c).joins next = false := by
        intro next hnext
        obtain rfl : .run r = next := by simpa using hnext
        rfl
      have htext : ∀ t, r ≠ text t := h r (List.mem_cons_self ..)
      rw [ofAtoms_cons_of_not_joins hnext, ofAtoms_cons_run]
      -- A text in front would take the character in; no span stands for one.
      cases r with
      | text t => exact absurd rfl (htext t)
      | _ => rfl

theorem foldr_consAtom {atoms : List Atom} (h : ∀ r, .run r ∈ atoms → ∀ t, r ≠ text t) :
    atoms.foldr consAtom [] = ofAtoms atoms := by
  induction atoms with
  | nil => rfl
  | cons atom rest ih =>
    have hrest : ∀ r, .run r ∈ rest → ∀ t, r ≠ text t :=
      fun r hr => h r (List.mem_cons_of_mem _ hr)
    rw [List.foldr_cons, ih hrest]
    cases atom with
    | char c => exact (ofAtoms_cons_char c hrest).symm
    | run r => exact (ofAtoms_cons_run r rest).symm

/-- The run of a span is no text. -/
theorem ne_text_of_isSpan {source : Text} {r : Run} (h : IsSpan source (.run r)) (t : Text) :
    r ≠ text t := by
  cases h with
  | @delimited d inner => cases d <;> exact fun heq => by cases heq
  | code => exact fun heq => by cases heq
  | @reference kind => cases kind <;> exact fun heq => by cases heq

theorem consPiece_eq_consAtom (piece : Piece) (rest : List Run) :
    consPiece piece (ofText piece.inner) rest = consAtom piece.atom rest := by
  cases piece <;> rfl

/-- The runs of a text are those of what its pieces stand for. -/
theorem ofText_eq_ofAtoms (t : Text) : ofText t = ofAtoms ((pieces t).map Piece.atom) := by
  have hruns : ∀ r, .run r ∈ (pieces t).map Piece.atom → ∀ u, r ≠ text u := by
    intro r hr
    obtain ⟨piece, hpiece, hatom⟩ := List.mem_map.1 hr
    have hspan : IsSpan piece.source piece.atom := (spans_of_mem_piecesFrom hpiece).2
    rw [hatom] at hspan
    exact ne_text_of_isSpan hspan
  rw [← foldr_consAtom hruns, ofText_eq, List.foldr_map]
  simp only [consPiece_eq_consAtom]

end Run

/-- **Spans of a line.** Spans that are not empty cover a line, one after the other, each is written
in one of the five ways, and the runs of the line are those of what the spans stand for. Whatever an
attempt finds at the head of a text takes up a beginning of the text that is not empty. -/
theorem exists_spans_ofText (t : Text) :
    (∃ spans : List (Text × Atom),
      spans.flatMap Prod.fst = t ∧
      (∀ s ∈ spans, s.1 ≠ [] ∧ IsSpan s.1 s.2) ∧
      Run.ofText t = Run.ofAtoms (spans.map Prod.snd)) ∧
    ∀ (m : Memory) (prev : Option Char) (piece : Piece),
      (Piece.markup? m prev t).1 = some piece → piece.source ≠ [] ∧ piece.source <+: t := by
  refine ⟨⟨(pieces t).map fun piece => (piece.source, piece.atom), ?_, ?_, ?_⟩, ?_⟩
  · rw [List.flatMap_map]
    exact flatMap_source_pieces t
  · exact List.forall_mem_map.2 fun piece hpiece => spans_of_mem_piecesFrom hpiece
  · rw [List.map_map]
    exact Run.ofText_eq_ofAtoms t
  · exact fun m prev piece => Piece.heads_of_markup?

/-- A character of more than one byte between delimiters. -/
theorem exists_spans_ofText_struck :
    (Piece.markup? .empty none "~~é~~ x".toList).1 = some (.delimited .strike ['é']) ∧
      (Piece.delimited .strike ['é']).source ≠ [] ∧
      (Piece.delimited .strike ['é']).source <+: "~~é~~ x".toList :=
  ⟨by decide +kernel, (exists_spans_ofText "~~é~~ x".toList).2 .empty none _ (by decide +kernel)⟩

end TicketMarkup
