import TicketMarkup.Document.Inline
import TicketMarkup.Proofs.NestedDelimiters
import TicketMarkup.Proofs.Spans
import TicketMarkup.Wiki

/-!
# Escaped texts

A text is escaped by a backslash in front of each of its punctuation characters (`Text.escape`).

* `ofLine_escape`: an escaped text on a line is one plain text, the text that was escaped.
* `ofLine_delimited_escape_iff`: between delimiters it is that text under the delimiter's run, unless
  the delimiter's character stands where the search for the closing delimiter does not pass over it.

1. No markup starts at a character that is no punctuation, and a backslash takes the punctuation
   behind it with it, so the pieces of an escaped text are those of its characters one by one, with
   any text behind (`piecesFrom_escape_append`).
2. A text that begins with a delimiter and a character that can stand inside it is tried with that
   delimiter alone (`findSome?_delimitedAfresh?`), so the first piece is delimited or a character.
3. The search for the closing delimiter compares characters and does not know of escapes. In an escaped
   text it can end too early right behind a backslash, which only a delimiter of one character
   does (`closes_escape_iff`), and it passes over the end behind the delimiter's own character
   (`inner?_escape_append`).
-/

namespace TicketMarkup

namespace Text

/-- The text with a backslash in front of every punctuation character. -/
def escape (t : Text) : Text := t.flatMap fun c => if isPunctuation c then ['\\', c] else [c]

variable {c : Char}

theorem escape_cons_of_isPunctuation (h : isPunctuation c) (t : Text) :
    escape (c :: t) = '\\' :: c :: escape t := by
  simp [escape, h]

theorem escape_cons_of_not_isPunctuation (h : ¬isPunctuation c) (t : Text) :
    escape (c :: t) = c :: escape t := by
  simp [escape, h]

theorem isBlank_escape (t : Text) : (escape t).isBlank = t.isBlank := by
  induction t with
  | nil => rfl
  | cons c t ih =>
    by_cases h : isPunctuation c
    · have hc : TicketMarkup.isBlank c = false := by simpa using not_isBlank_of_isPunctuation h
      simp [escape_cons_of_isPunctuation h, isBlank, hc]
    · rw [escape_cons_of_not_isPunctuation h, isBlank, List.all_cons]
      exact congrArg _ ih

/-- What an escaped text ends in, the text ends in. -/
theorem concat_suffix_escape_iff (h : ¬isPunctuation c) {ending t : Text} :
    ending ++ [c] <:+ escape t ↔ ∃ front, t = front ++ [c] ∧ ending <:+ escape front := by
  have happend (front : Text) (d : Char) : escape (front ++ [d]) = escape front ++ escape [d] :=
    List.flatMap_append
  constructor
  · rintro ⟨before, heq⟩
    rcases List.eq_nil_or_concat t with rfl | ⟨front, d, rfl⟩
    · simp [escape] at heq
    · rw [List.concat_eq_append, happend, ← List.append_assoc] at heq
      by_cases hd : isPunctuation d
      · rw [escape_cons_of_isPunctuation hd, show '\\' :: d :: escape [] = ['\\'] ++ [d] from rfl,
          ← List.append_assoc] at heq
        obtain ⟨-, hlast⟩ := List.append_inj' heq rfl
        obtain rfl := List.singleton_inj.1 hlast
        exact absurd hd h
      · rw [escape_cons_of_not_isPunctuation hd] at heq
        obtain ⟨hfront, hlast⟩ := List.append_inj' heq rfl
        obtain rfl := List.singleton_inj.1 hlast
        exact ⟨front, List.concat_eq_append, before, hfront⟩
  · rintro ⟨front, rfl, before, heq⟩
    rw [happend, escape_cons_of_not_isPunctuation h, ← heq]
    exact ⟨before, by simp [escape]⟩

theorem double_space_suffix_escape_iff {t : Text} :
    [' ', ' '] <:+ escape t ↔ [' ', ' '] <:+ t := by
  have hspace : ¬isPunctuation ' ' := by decide
  have hcut : [' ', ' '] = ([] ++ [' ']) ++ [' '] := rfl
  constructor
  · intro h
    rw [hcut, concat_suffix_escape_iff hspace] at h
    obtain ⟨front, rfl, h⟩ := h
    obtain ⟨front, rfl, -⟩ := (concat_suffix_escape_iff hspace).1 h
    exact ⟨front, by simp⟩
  · rintro ⟨front, rfl⟩
    exact ⟨escape front, by simp [escape, hspace]⟩

end Text

open Text

/-! ## The pieces of an escaped text -/

namespace Memory

theorem advance_advance (m : Memory) (a b : Nat) : (m.advance a).advance b = m.advance (a + b) := by
  simp [advance, Nat.sub_sub]

end Memory

namespace Piece

variable {c : Char}

/-- The piece that a character of an escaped text becomes. -/
def ofEscaped (c : Char) : Piece := if isPunctuation c then .escaped c else .literal c

/-- No markup starts with a character that is no punctuation. -/
theorem markup?_of_not_isPunctuation (h : ¬isPunctuation c) (m : Memory) (prev : Option Char)
    (rest : Text) : markup? m prev (c :: rest) = (none, m) := by
  have hne (d : Char) (hd : isPunctuation d) : c ≠ d := fun heq => h (heq ▸ hd)
  rw [markup?]
  · rw [Delimiter.startingWith, if_neg (hne '*' rfl), if_neg (hne '_' rfl), if_neg (hne '~' rfl)]
    rfl
  · exact fun _ _ heq => absurd heq (hne '\\' rfl)
  · exact fun _ heq => absurd heq (hne '!' rfl)
  · exact hne '[' rfl
  · exact hne '`' rfl

theorem first_of_not_isPunctuation (h : ¬isPunctuation c) (m : Memory) (prev : Option Char)
    (rest : Text) : first m prev c rest = (.literal c, m) := by
  rw [first, markup?_of_not_isPunctuation h]

theorem first_backslash (h : isPunctuation c) (m : Memory) (prev : Option Char) (rest : Text) :
    first m prev '\\' (c :: rest) = (.escaped c, m) := by
  rw [first, markup?, if_pos h]

end Piece

/-- The pieces of an escaped text are those of its characters, whatever stands behind it. -/
theorem piecesFrom_escape_append (m : Memory) (prev : Option Char) (s t : Text) :
    piecesFrom m prev (escape s ++ t) =
      s.map Piece.ofEscaped ++ piecesFrom (m.advance (escape s).length) (s.getLast?.or prev) t := by
  induction s generalizing m prev with
  | nil => rfl
  | cons c s ih =>
    have hlast := getLast?_cons_or prev c s
    by_cases hc : isPunctuation c
    · rw [escape_cons_of_isPunctuation hc, List.cons_append, List.cons_append, piecesFrom,
        Piece.first_backslash hc, hlast]
      show _ :: piecesFrom (m.advance 2) (some c) (escape s ++ t) = _
      rw [ih, Memory.advance_advance, List.map_cons, Piece.ofEscaped, if_pos hc, List.length_cons,
        List.length_cons, Nat.add_comm 2]
      rfl
    · rw [escape_cons_of_not_isPunctuation hc, List.cons_append, piecesFrom,
        Piece.first_of_not_isPunctuation hc, hlast]
      show _ :: piecesFrom (m.advance 1) (some c) (escape s ++ t) = _
      rw [ih, Memory.advance_advance, List.map_cons, Piece.ofEscaped, if_neg hc, List.length_cons,
        Nat.add_comm 1]
      rfl

namespace Run

theorem consPiece_ofEscaped (c : Char) (inner rest : List Run) :
    consPiece (.ofEscaped c) inner rest = consChar c rest := by
  unfold Piece.ofEscaped
  split_ifs <;> rfl

/-- An escaped text is one plain text. -/
theorem ofText_escape {s : Text} (hne : s ≠ []) : ofText (escape s) = [.text s] := by
  have hpieces : pieces (escape s) = s.map Piece.ofEscaped := by
    have happend := piecesFrom_escape_append .empty none s []
    rwa [List.append_nil, piecesFrom, List.append_nil] at happend
  rw [ofText_eq, hpieces, List.foldr_map]
  simp only [consPiece_ofEscaped]
  exact foldr_consChar hne (by simp)

end Run

/-- **Escaped lines.** An escaped text that does not break the line at its end is one plain text, the
text that was escaped; so it is that text in wiki markup, and one text without marks in a document. -/
theorem ofLine_escape {s : Text} (hne : s ≠ []) (h : s.isBlank ∨ ¬[' ', ' '] <:+ s) :
    Run.ofLine (escape s) = [.text s] ∧ Wiki.ofRuns (Run.ofLine (escape s)) = s ∧
      Node.ofRuns (Run.ofLine (escape s)) = [.plain s] := by
  have hbreak : ¬([' ', ' '].isSuffixOf (escape s) && !(escape s).isBlank) := by
    rw [Bool.and_eq_true, List.isSuffixOf_iff_suffix, double_space_suffix_escape_iff, isBlank_escape]
    rintro ⟨hsuffix, hblank⟩
    rcases h with h | h
    · simp [h] at hblank
    · exact h hsuffix
  have hruns : Run.ofLine (escape s) = [.text s] := by
    rw [Run.ofLine, if_neg hbreak, Run.ofText_escape hne]
  rw [hruns]
  refine ⟨rfl, List.append_nil s, ?_⟩
  cases s with
  | nil => exact absurd rfl hne
  | cons c s => rfl

/-- Every kind of markup, and a space at the end. -/
theorem ofLine_escape_markup :
    let s : Text := "\\![*_~`](é) ".toList
    s ≠ [] ∧ (s.isBlank ∨ ¬[' ', ' '] <:+ s) ∧
      Run.ofLine (escape s) = [.text s] ∧ Wiki.ofRuns (Run.ofLine (escape s)) = s ∧
        Node.ofRuns (Run.ofLine (escape s)) = [.plain s] := by
  intro s
  have hne : s ≠ [] := by decide
  have hend : s.isBlank ∨ ¬[' ', ' '] <:+ s := by decide
  exact ⟨hne, hend, ofLine_escape hne hend⟩

/-! ## A text between delimiters -/

namespace Delimiter

variable {d d' : Delimiter}

theorem eq_of_char_eq (hchar : d'.char = d.char) (hwidth : d'.width = d.width) : d' = d := by
  have hall : ∀ d ∈ all, ∀ d' ∈ all, d'.char = d.char → d'.width = d.width → d' = d := by decide
  exact hall d d.mem_all d' d'.mem_all hchar hwidth

theorem char_not_mem (d : Delimiter) : d.char ∉ ['\\', '!', '[', '`'] := by
  have hall : ∀ d ∈ all, d.char ∉ ['\\', '!', '[', '`'] := by decide
  exact hall d d.mem_all

/-- In front of a character that it admits, a delimiter opens and no other of its character does. -/
theorem opens_text_append_iff {c : Char} (hc : d.admits c) (hchar : d'.char = d.char) (t : Text) :
    d'.opens none (d.text ++ c :: t) ↔ d' = d := by
  have hne : c ≠ d.char := by
    simp only [admits, Bool.and_eq_true, bne_iff_ne] at hc
    exact hc.2
  constructor
  · intro h
    obtain ⟨after, heq, hnext, -⟩ := opens_iff.1 h
    rcases Nat.lt_trichotomy d'.width d.width with hlt | hwidth | hgt
    · -- A shorter delimiter stands in front of its own character.
      have hhead : after.head? = some d.char := by
        rw [← d'.drop_width_append after, ← heq, List.head?_drop,
          List.getElem?_append_left (by rwa [d.length_text]), text,
          List.getElem?_replicate_of_lt hlt]
      rw [hhead, Option.any_some, admits, hchar] at hnext
      simp at hnext
    · exact eq_of_char_eq hchar hwidth
    · -- A longer one does not fit.
      have hat : ((d.text ++ c :: t).drop d.width).head? = some d'.char := by
        rw [heq, List.head?_drop, List.getElem?_append_left (by rwa [d'.length_text]), text,
          List.getElem?_replicate_of_lt hgt]
      rw [d.drop_width_append, hchar] at hat
      exact absurd (Option.some.inj hat) hne
  · rintro rfl
    exact opens_iff.2 ⟨c :: t, rfl, hc, rfl⟩

end Delimiter

/-- If a function gives nothing for the others, the first thing it gives is what it gives for one. -/
theorem findSome?_eq_of_mem {α β : Type} {f : α → Option β} {l : List α} {a : α} (ha : a ∈ l)
    (h : ∀ b ∈ l, b ≠ a → f b = none) : l.findSome? f = f a := by
  cases hfa : f a with
  | none =>
    rw [List.findSome?_eq_none_iff]
    intro b hb
    by_cases hba : b = a
    · exact hba ▸ hfa
    · exact h b hb hba
  | some found =>
    induction l with
    | nil => exact absurd ha List.not_mem_nil
    | cons b rest ih =>
      rw [List.forall_mem_cons] at h
      by_cases hba : b = a
      · rw [hba, List.findSome?_cons, hfa]
      · rw [List.findSome?_cons, h.1 hba]
        exact ih ((List.mem_cons.1 ha).resolve_left (Ne.symm hba)) h.2

namespace Piece

/-- Of the delimiters that start with its character, only the one that opens is tried. -/
theorem findSome?_delimitedAfresh? {d : Delimiter} {c : Char} (hc : d.admits c) (t : Text) :
    (Delimiter.startingWith d.char).findSome? (delimitedAfresh? none (d.text ++ c :: t)) =
      (d.inner? none (c :: t)).map (.delimited d) := by
  have hopens : d.opens none (d.text ++ c :: t) := (Delimiter.opens_text_append_iff hc rfl t).2 rfl
  have hself : delimitedAfresh? none (d.text ++ c :: t) d =
      (d.inner? none (c :: t)).map (.delimited d) := by
    rw [delimitedAfresh?_eq, if_pos hopens, d.drop_width_append]
  have hothers : ∀ d' ∈ Delimiter.startingWith d.char, d' ≠ d →
      delimitedAfresh? none (d.text ++ c :: t) d' = none := by
    intro d' hmem hne
    have hchar := Delimiter.mem_startingWith_iff.1 hmem
    rw [delimitedAfresh?_eq, if_neg fun h => hne ((Delimiter.opens_text_append_iff hc hchar t).1 h)]
  rw [findSome?_eq_of_mem (Delimiter.mem_startingWith_iff.2 rfl) hothers, hself]

/-- The first piece is delimited, or the delimiter's character if the search for the closing
delimiter fails. -/
theorem exists_pieces_eq_cons {d : Delimiter} {c : Char} (hc : d.admits c) (t : Text) :
    ∃ more, pieces (d.text ++ c :: t) =
      ((d.inner? none (c :: t)).map (.delimited d)).getD (.literal d.char) :: more := by
  have htext : d.text ++ c :: t = d.char :: (List.replicate (d.width - 1) d.char ++ c :: t) := by
    rw [d.text_eq_cons]
    rfl
  rw [htext, pieces_eq_piecesAfresh, piecesAfresh, piecesAfreshFrom, firstAfresh,
    markupAfresh?_of_not_mem d.char_not_mem, ← htext, findSome?_delimitedAfresh? hc]
  cases d.inner? none (c :: t) <;> exact ⟨_, rfl⟩

end Piece

namespace Run

theorem consPiece_ne_nil (piece : Piece) (inner rest : List Run) :
    consPiece piece inner rest ≠ [] := by
  cases piece with
  | literal c | escaped c => rcases rest with _ | ⟨_ | _, rest⟩ <;> simp [consPiece, consChar]
  | _ => simp [consPiece]

theorem consChar_ne_run (c : Char) (rest runs : List Run) (d : Delimiter) :
    consChar c rest ≠ [d.run runs] := by
  rcases rest with _ | ⟨_ | _, rest⟩ <;> cases d <;> simp [consChar, Delimiter.run]

/-- A text between delimiters is read as such exactly if the search for the closing delimiter finds
the one at the end. -/
theorem ofText_delimited_iff {d : Delimiter} {inner : Text} (h : ∃ c ∈ inner.head?, d.admits c) :
    ofText (d.text ++ (inner ++ d.text)) = [d.run (ofText inner)] ↔
      d.inner? none (inner ++ d.text) = some inner := by
  obtain ⟨c, hc, hadmits⟩ := h
  obtain ⟨t, rfl⟩ : ∃ t, inner = c :: t := List.head?_eq_some_iff.1 hc
  obtain ⟨more, hpieces⟩ := Piece.exists_pieces_eq_cons hadmits (t ++ d.text)
  have htiles := flatMap_source_pieces (d.text ++ (c :: t ++ d.text))
  rw [ofText_eq]
  rw [List.cons_append] at htiles ⊢
  rw [hpieces] at htiles ⊢
  rw [List.foldr_cons]
  constructor
  · intro hruns
    cases hinner : d.inner? none (c :: (t ++ d.text)) with
    | none =>
      rw [hinner] at hruns
      exact absurd hruns (consChar_ne_run _ _ _ _)
    | some inner =>
      rw [hinner] at hruns htiles
      have hmore : more = [] := by
        cases more with
        | nil => rfl
        | cons piece more => exact absurd (List.cons.inj hruns).2 (consPiece_ne_nil _ _ _)
      rw [hmore, List.flatMap_singleton] at htiles
      have htiles : d.text ++ inner ++ d.text = d.text ++ (c :: t) ++ d.text := by
        rw [List.append_assoc _ (c :: t)]
        exact htiles
      exact congrArg some (List.append_cancel_left (List.append_cancel_right htiles))
  · intro hinner
    have hsource : (Piece.delimited d (c :: t)).source = d.text ++ c :: (t ++ d.text) := by
      simp [Piece.source]
    rw [hinner] at hpieces htiles ⊢
    rw [Option.map_some, Option.getD_some, List.flatMap_cons, hsource,
      List.append_right_eq_self] at htiles
    cases more with
    | nil => rfl
    | cons piece more =>
      have hmem : piece ∈ pieces (d.text ++ c :: (t ++ d.text)) := by simp [hpieces]
      exact absurd (List.append_eq_nil_iff.1 htiles).1 (spans_of_mem_piecesFrom hmem).1

end Run

/-! ## The search in an escaped text -/

namespace Delimiter

variable {d : Delimiter}

theorem admits_backslash (d : Delimiter) : d.admits '\\' := by
  have hall : ∀ d ∈ all, d.admits '\\' := by decide
  exact hall d d.mem_all

theorem backslash_ne_char (d : Delimiter) : '\\' ≠ d.char := by
  have := d.char_not_mem
  simp only [List.mem_cons, not_or] at this
  exact Ne.symm this.1

theorem bindsTo_eq_false {c : Char} (h : ¬isAlphanumeric c) : d.bindsTo c = false := by
  rw [bindsTo, Bool.eq_false_iff.2 h, Bool.and_false]

theorem bindsTo_eq_false_of_isPunctuation {c : Char} (h : isPunctuation c) :
    d.bindsTo c = false :=
  bindsTo_eq_false fun hc => not_isPunctuation_of_isAlphanumeric hc h

/-- An escaped text does not begin with the delimiter's character, and for the rest a delimiter takes
its first character as that of the text. -/
theorem exists_escape_cons (d : Delimiter) (c : Char) (t : Text) :
    ∃ c' t', escape (c :: t) = c' :: t' ∧ c' ≠ d.char ∧ (isBlank c' → isBlank c) ∧
      d.bindsTo c' = d.bindsTo c := by
  by_cases hc : isPunctuation c
  · refine ⟨_, _, escape_cons_of_isPunctuation hc t, d.backslash_ne_char,
      fun h => absurd h (by decide), ?_⟩
    rw [bindsTo_eq_false_of_isPunctuation hc, bindsTo_eq_false_of_isPunctuation rfl]
  · exact ⟨_, _, escape_cons_of_not_isPunctuation hc t, fun h => hc (h ▸ d.isPunctuation_char), id,
      rfl⟩

/-- At an escaped character of its own only a delimiter of one character can close: not at the end of
the text, where the character touches the delimiter, nor inside a word that the delimiter binds to. -/
theorem closes_escape_iff (d : Delimiter) (t : Text) :
    d.closes (some '\\') (d.char :: (escape t ++ d.text)) ↔
      d.width = 1 ∧ ∃ c ∈ t.head?, ¬d.bindsTo c := by
  cases t with
  | nil =>
    have hshift : d.char :: d.text = d.text ++ [d.char] := by
      rw [text, ← List.replicate_succ, List.replicate_succ']
    show d.closes (some '\\') (d.char :: d.text) ↔ _
    rw [hshift, closes_text_append]
    simp
  | cons c t =>
    obtain ⟨c', t', hcons, hne, -, hbinds⟩ := d.exists_escape_cons c t
    rw [hcons, List.cons_append]
    by_cases hwidth : d.width = 1
    · have htext : d.text = [d.char] := by rw [text, hwidth, List.replicate_one]
      simp [closes, htext, hwidth, d.admits_backslash, hne, hbinds]
    · have hprefix : ¬d.text <+: d.char :: c' :: (t' ++ d.text) := by
        have htwo : d.width = (d.width - 2) + 1 + 1 := by
          have := d.width_pos
          omega
        rw [text, htwo, List.replicate_succ, List.replicate_succ, List.cons_prefix_cons,
          List.cons_prefix_cons]
        exact fun h => hne h.2.1.symm
      simp [closes, List.isPrefixOf_iff_prefix, hprefix, hwidth]

theorem closes_eq_false_of_ne {c : Char} (h : c ≠ d.char) (last : Option Char) (t : Text) :
    d.closes last (c :: t) = false := by
  have hprefix : d.text.isPrefixOf (c :: t) = false := by
    rw [d.text_eq_cons, List.isPrefixOf_cons_cons]
    simp [Ne.symm h]
  rw [closes, hprefix, Bool.false_and, Bool.false_and]

/-- The delimiter can close at none of its own characters in an escaped text. -/
def PassesOver (d : Delimiter) (s : Text) : Prop :=
  ∀ t, d.char :: t <:+ s → ¬d.closes (some '\\') (d.char :: (escape t ++ d.text))

theorem passesOver_nil (d : Delimiter) : d.PassesOver [] := by
  intro t h
  exact absurd (List.suffix_nil.1 h) (List.cons_ne_nil _ _)

theorem passesOver_cons {c : Char} {s : Text} :
    d.PassesOver (c :: s) ↔
      ¬d.closes (some '\\') (c :: (escape s ++ d.text)) ∧ d.PassesOver s := by
  constructor
  · intro h
    refine ⟨fun hcloses => ?_, fun t ht => h t (ht.trans (List.suffix_cons c s))⟩
    by_cases hc : c = d.char
    · rw [hc] at h hcloses
      exact h s List.suffix_rfl hcloses
    · rw [closes_eq_false_of_ne hc] at hcloses
      exact Bool.false_ne_true hcloses
  · rintro ⟨hhead, hrest⟩ t ht
    rcases List.suffix_cons_iff.1 ht with heq | ht
    · obtain ⟨rfl, rfl⟩ := List.cons.inj heq
      exact hhead
    · exact hrest t ht

/-- Only a delimiter of one character can be held up, and only where no word goes on that it binds
to. -/
theorem passesOver_iff {s : Text} :
    d.PassesOver s ↔
      (d.width = 1 → ∀ c, [d.char, c] <:+: s → d.char = '_' ∧ isAlphanumeric c) := by
  have hbinds (c : Char) : d.bindsTo c ↔ d.char = '_' ∧ isAlphanumeric c := by simp [bindsTo]
  simp only [PassesOver, closes_escape_iff, not_and, not_exists, ← hbinds, not_not]
  constructor
  · rintro h hwidth c ⟨before, after, rfl⟩
    exact h (c :: after) ⟨before, by simp⟩ hwidth c rfl
  · rintro h t ⟨before, rfl⟩ hwidth c hc
    obtain ⟨after, rfl⟩ := List.head?_eq_some_iff.1 hc
    exact h hwidth c ⟨before, after, by simp⟩

theorem inner?_eq_some_nil_iff {last : Option Char} {t : Text} :
    d.inner? last t = some [] ↔ d.closes last t := by
  cases t <;> rw [inner?] <;> split_ifs <;> simp_all

theorem inner?_cons_eq_some_iff {last : Option Char} {c : Char} {t inner : Text} :
    d.inner? last (c :: t) = some (c :: inner) ↔
      ¬d.closes last (c :: t) ∧ d.inner? (some c) t = some inner := by
  rw [inner?]
  split_ifs with h <;> simp [h]

/-- The search for the closing delimiter finds the one behind an escaped text exactly if the text ends
in a character that the delimiter admits, and the delimiter passes over the text. -/
theorem inner?_escape_append (d : Delimiter) (last : Option Char) (s : Text) :
    d.inner? last (escape s ++ d.text) = some (escape s) ↔
      (s.getLast?.or last).any d.admits ∧ d.PassesOver s := by
  induction s generalizing last with
  | nil =>
    have hcloses : d.closes last d.text = last.any d.admits := by
      simpa using d.closes_text_append last []
    show d.inner? last d.text = some [] ↔ last.any d.admits ∧ d.PassesOver []
    rw [inner?_eq_some_nil_iff, hcloses]
    exact (and_iff_left d.passesOver_nil).symm
  | cons c s ih =>
    rw [getLast?_cons_or, passesOver_cons]
    by_cases hc : isPunctuation c
    · rw [escape_cons_of_isPunctuation hc, List.cons_append, List.cons_append,
        inner?_cons_eq_some_iff, inner?_cons_eq_some_iff, ih,
        closes_eq_false_of_ne d.backslash_ne_char]
      simp only [Bool.false_eq_true, not_false_eq_true, true_and]
      exact and_left_comm
    · have hne : c ≠ d.char := fun h => hc (h ▸ d.isPunctuation_char)
      rw [escape_cons_of_not_isPunctuation hc, List.cons_append, inner?_cons_eq_some_iff, ih,
        closes_eq_false_of_ne hne, closes_eq_false_of_ne hne]
      simp only [Bool.false_eq_true, not_false_eq_true, true_and]

end Delimiter

/-- **Escaped texts between delimiters.** A text without blanks at its ends that is escaped between
delimiters is the delimiter's run around that text exactly if it does not end in the delimiter's own
character and, for a delimiter of one character, has that character only inside words, which only
underscores do not end. -/
theorem ofLine_delimited_escape_iff (d : Delimiter) {s : Text} (hne : s ≠ [])
    (hfirst : ∀ c ∈ s.head?, ¬isBlank c) (hlast : ∀ c ∈ s.getLast?, ¬isBlank c) :
    Run.ofLine (d.text ++ (escape s ++ d.text)) = [d.run [.text s]] ↔
      s.getLast? ≠ some d.char ∧
        (d.width = 1 → ∀ c, [d.char, c] <:+: s → d.char = '_' ∧ isAlphanumeric c) := by
  have hbreak : [' ', ' '].isSuffixOf (d.text ++ (escape s ++ d.text)) = false := by
    rw [Bool.eq_false_iff, ne_eq, List.isSuffixOf_iff_suffix]
    rintro ⟨front, heq⟩
    have hspace := congrArg List.getLast? heq
    rw [← List.append_assoc, List.getLast?_append, List.getLast?_append, d.getLast?_text] at hspace
    have hchar := d.isPunctuation_char
    rw [← Option.some.inj hspace] at hchar
    exact absurd hchar (by decide)
  obtain ⟨c, t, hs⟩ := List.exists_cons_of_ne_nil hne
  obtain ⟨last, hlast'⟩ := Option.ne_none_iff_exists'.1 (mt List.getLast?_eq_none_iff.1 hne)
  have hadmits : ∃ c ∈ (escape s).head?, d.admits c := by
    obtain ⟨c', t', hcons, hchar, hblank, -⟩ := d.exists_escape_cons c t
    have hc : ¬isBlank c := hfirst c (hs ▸ rfl)
    refine ⟨c', hs ▸ hcons ▸ rfl, ?_⟩
    simp [Delimiter.admits, hchar, mt hblank hc]
  rw [Run.ofLine, hbreak, Bool.false_and, if_neg Bool.false_ne_true, ← Run.ofText_escape hne,
    Run.ofText_delimited_iff hadmits, Delimiter.inner?_escape_append, Delimiter.passesOver_iff,
    Option.or_none, hlast', Option.any_some]
  have hlast : ¬isBlank last := hlast last hlast'
  refine and_congr_left' ?_
  simp [Delimiter.admits, hlast]

/-- Underscores inside a word, and other markup at both ends. -/
theorem ofLine_delimited_escape_iff_underscores :
    let s : Text := "**snake_case**".toList
    s ≠ [] ∧ (∀ c ∈ s.head?, ¬isBlank c) ∧ (∀ c ∈ s.getLast?, ¬isBlank c) ∧
      Run.ofLine (['_'] ++ (escape s ++ ['_'])) = [.emphasis [.text s]] := by
  intro s
  have hne : s ≠ [] := by decide
  have hfirst : ∀ c ∈ s.head?, ¬isBlank c := by
    rintro c ⟨⟩
    decide
  have hlast : ∀ c ∈ s.getLast?, ¬isBlank c := by
    rintro c ⟨⟩
    decide
  refine ⟨hne, hfirst, hlast, ?_⟩
  refine (ofLine_delimited_escape_iff (.emphasis .underscore) hne hfirst hlast).2 ⟨by decide, ?_⟩
  intro _ c hinfix
  obtain rfl : c = 'c' := by
    simpa [s, Delimiter.char, EmphasisMark.char, List.infix_cons_iff] using hinfix
  decide

/-- An escaped star closes the span around it. -/
theorem ofLine_escaped_star :
    let s : Text := "a*b".toList
    (∀ c ∈ s.head?, ¬isBlank c) ∧ (∀ c ∈ s.getLast?, ¬isBlank c) ∧
      Run.ofLine (['*'] ++ (escape s ++ ['*'])) =
        [.emphasis [.text ['a', '\\']], .text ['b', '*']] ∧
      Run.ofLine (['*'] ++ (escape s ++ ['*'])) ≠ [.emphasis [.text s]] := by
  have hinner : Run.ofText ['a', '\\'] = [.text ['a', '\\']] := by
    have hpieces : pieces ['a', '\\'] = [.literal 'a', .literal '\\'] := by decide +kernel
    rw [Run.ofText_eq, hpieces]
    rfl
  have hruns : Run.ofLine "*a\\*b*".toList =
      [.emphasis [.text ['a', '\\']], .text ['b', '*']] := by
    have hpieces : pieces "*a\\*b*".toList =
        [.delimited (.emphasis .star) ['a', '\\'], .literal 'b', .literal '*'] := by decide +kernel
    rw [Run.ofLine, if_neg (by decide), Run.ofText_eq, hpieces, ← hinner]
    rfl
  intro s
  have hfirst : ∀ c ∈ s.head?, ¬isBlank c := by
    rintro c ⟨⟩
    decide
  have hlast : ∀ c ∈ s.getLast?, ¬isBlank c := by
    rintro c ⟨⟩
    decide
  refine ⟨hfirst, hlast, hruns, fun h => ?_⟩
  have hlength := congrArg List.length (hruns.symm.trans h)
  exact absurd hlength (by decide)

end TicketMarkup
