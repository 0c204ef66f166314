import TicketMarkup.Inline.CodeSpan
import TicketMarkup.Inline.Delimiter
import TicketMarkup.Inline.Reference

/-!
# Pieces of a line

A line of text is cut into pieces from left to right: single characters, escaped characters,
delimited texts, code spans and references. `pieces` scans for them and remembers what failed
searches have ruled out, so that a line of many unclosed openings stays cheap:

* a delimiter or run of backticks that found no place to close will find none further on;
* a link or image that failed rules out the openings up to the end of its failed target.

The inner text of a delimited piece is kept as it stands; it is shorter than the line
(`length_inner_lt_of_mem_pieces`), so it can be cut into pieces in turn.
-/

namespace TicketMarkup

/-- A piece of a line. -/
inductive Piece
  | literal (c : Char)
  | escaped (c : Char)
  | delimited (delimiter : Delimiter) (inner : Text)
  | code (ticks : Nat) (text : Text)
  | reference (kind : ReferenceKind) (spelling : Reference.Spelling)
  deriving Repr, DecidableEq

/-- The mark in front of the bracket of a reference. -/
def ReferenceKind.mark : ReferenceKind → Text
  | link => []
  | image => ['!']

namespace Piece

/-- The part of the line that a piece takes up. -/
def source : Piece → Text
  | literal c => [c]
  | escaped c => ['\\', c]
  | delimited d inner => d.text ++ inner ++ d.text
  | code ticks text => List.replicate ticks '`' ++ text ++ List.replicate ticks '`'
  | reference kind spelling => kind.mark ++ spelling.text

/-- The text of a piece that is read as markup in turn. -/
def inner : Piece → Text
  | delimited _ inner => inner
  | _ => []

end Piece

/-! ## What failed searches rule out -/

/-- What an opening searches for. -/
inductive Closer
  | delimiter (d : Delimiter)
  | ticks (count : Nat)
  deriving Repr, DecidableEq

/-- What earlier searches on the line have ruled out: closers that do not occur any more, and how
many characters ahead no link and no image opens. -/
structure Memory where
  spent : List Closer
  deadLink : Nat
  deadImage : Nat
  deriving Repr, DecidableEq

namespace Memory

/-- Nothing is ruled out at the start of a line. -/
def empty : Memory := ⟨[], 0, 0⟩

/-- Remembers that a closer does not occur any more. -/
def spend (m : Memory) (closer : Closer) : Memory := { m with spent := closer :: m.spent }

/-- How many characters ahead no reference of a kind opens. -/
def dead (m : Memory) : ReferenceKind → Nat
  | .link => m.deadLink
  | .image => m.deadImage

/-- Remembers that no reference of a kind opens in the next `length` characters. -/
def fail (m : Memory) (kind : ReferenceKind) (length : Nat) : Memory :=
  match kind with
  | .link => { m with deadLink := length }
  | .image => { m with deadImage := length }

/-- The memory some characters further on. -/
def advance (m : Memory) (count : Nat) : Memory :=
  { m with deadLink := m.deadLink - count, deadImage := m.deadImage - count }

end Memory

/-! ## Scanning -/

namespace Piece

/-- Tries a delimiter at the head of a text. -/
def delimited? (memory : Memory) (prev : Option Char) (t : Text) (d : Delimiter) :
    Option Piece × Memory :=
  if d.opens prev t && !memory.spent.contains (.delimiter d) then
    match d.inner? none (t.drop d.width) with
    | some inner => (some (.delimited d inner), memory)
    | none => (none, memory.spend (.delimiter d))
  else (none, memory)

/-- Tries delimiters in order. -/
def firstDelimited? (memory : Memory) (prev : Option Char) (t : Text) :
    List Delimiter → Option Piece × Memory
  | [] => (none, memory)
  | d :: rest =>
    match delimited? memory prev t d with
    | (some piece, memory) => (some piece, memory)
    | (none, memory) => firstDelimited? memory prev t rest

/-- Tries a code span at the head of a text. -/
def code? (memory : Memory) (t : Text) : Option Piece × Memory :=
  let ticks := CodeSpan.tickCount t
  if memory.spent.contains (.ticks ticks) then (none, memory)
  else
    match CodeSpan.inner? ticks true (t.drop ticks) with
    | some text => (some (.code ticks text), memory)
    | none => (none, memory.spend (.ticks ticks))

/-- Tries a reference at the head of a text. -/
def reference? (memory : Memory) (kind : ReferenceKind) (t : Text) : Option Piece × Memory :=
  if 0 < memory.dead kind then (none, memory)
  else
    match Reference.read? kind (t.drop kind.mark.length) with
    | some spelling => (some (.reference kind spelling), memory)
    | none => (none, memory.fail kind (Reference.failureLength t))

/-- Tries what can start with the first character of a text, after the character `prev`. -/
def markup? (memory : Memory) (prev : Option Char) (t : Text) : Option Piece × Memory :=
  match t with
  | '\\' :: c :: _ => (if isPunctuation c then some (.escaped c) else none, memory)
  | '!' :: '[' :: _ => reference? memory .image t
  | '[' :: _ => reference? memory .link t
  | '`' :: _ => code? memory t
  | c :: _ => firstDelimited? memory prev t (Delimiter.startingWith c)
  | [] => (none, memory)

/-- The piece at the head of a text; a character that starts no markup stands for itself. -/
def first (memory : Memory) (prev : Option Char) (c : Char) (rest : Text) : Piece × Memory :=
  match markup? memory prev (c :: rest) with
  | (some piece, memory) => (piece, memory)
  | (none, memory) => (.literal c, memory)

end Piece

/-- The pieces of a text after the character `prev`. -/
def piecesFrom (memory : Memory) (prev : Option Char) (t : Text) : List Piece :=
  match t with
  | [] => []
  | c :: rest =>
    let (piece, memory) := Piece.first memory prev c rest
    let source := piece.source
    piece :: piecesFrom (memory.advance source.length) source.getLast? (rest.drop (source.length - 1))
termination_by t.length

/-- The pieces of a line. -/
def pieces (t : Text) : List Piece := piecesFrom .empty none t

/-! ## What a delimiter encloses -/

namespace Piece

variable {memory : Memory} {prev : Option Char} {t inner : Text} {d : Delimiter} {piece : Piece}

/-- A delimiter is found where it opens at the head of a text and closes further on. -/
theorem exists_of_delimited? (h : (delimited? memory prev t d).1 = some piece) :
    ∃ after inner, piece = .delimited d inner ∧ t = d.text ++ after ∧
      after.head?.any d.admits ∧ d.inner? none after = some inner := by
  unfold delimited? at h
  split at h
  · next hopen =>
    rw [Bool.and_eq_true] at hopen
    obtain ⟨after, rfl, hnext, -⟩ := Delimiter.opens_iff.1 hopen.1
    rw [Delimiter.drop_width_append] at h
    split at h
    · next inner hinner => exact ⟨after, inner, (Option.some.inj h).symm, rfl, hnext, hinner⟩
    · simp at h
  · simp at h

theorem exists_of_firstDelimited? {ds : List Delimiter}
    (h : (firstDelimited? memory prev t ds).1 = some piece) :
    ∃ d after inner, piece = .delimited d inner ∧ t = d.text ++ after ∧
      after.head?.any d.admits ∧ d.inner? none after = some inner := by
  induction ds generalizing memory with
  | nil => simp [firstDelimited?] at h
  | cons d rest ih =>
    rw [firstDelimited?] at h
    split at h
    · next piece' memory' hattempt =>
      obtain rfl := Option.some.inj h
      exact ⟨d, exists_of_delimited? (by rw [hattempt])⟩
    · exact ih h

theorem code?_ne_delimited : (code? memory t).1 ≠ some (.delimited d inner) := by
  simp only [code?]
  split
  · simp
  · split <;> simp

theorem reference?_ne_delimited {kind : ReferenceKind} :
    (reference? memory kind t).1 ≠ some (.delimited d inner) := by
  simp only [reference?]
  split
  · simp
  · split <;> simp

theorem exists_of_markup? (h : (markup? memory prev t).1 = some (.delimited d inner)) :
    ∃ after, t = d.text ++ after ∧ after.head?.any d.admits ∧ d.inner? none after = some inner := by
  unfold markup? at h
  split at h
  · split at h <;> simp at h
  · exact absurd h reference?_ne_delimited
  · exact absurd h reference?_ne_delimited
  · exact absurd h code?_ne_delimited
  · obtain ⟨d', after, inner', heq, henclosed⟩ := exists_of_firstDelimited? h
    obtain ⟨rfl, rfl⟩ := Piece.delimited.inj heq
    exact ⟨after, henclosed⟩
  · simp at h

/-- A delimited piece at the head of a text is what its delimiter encloses there. -/
theorem exists_of_first {c : Char} {rest : Text}
    (h : (first memory prev c rest).1 = .delimited d inner) :
    ∃ after, c :: rest = d.text ++ after ∧ after.head?.any d.admits ∧
      d.inner? none after = some inner := by
  unfold first at h
  split at h
  · next piece' memory' hattempt =>
    subst h
    exact exists_of_markup? (by rw [hattempt])
  · simp at h

/-! ## Inner texts are shorter -/

theorem length_inner_first_lt (memory : Memory) (prev : Option Char) (c : Char) (rest : Text) :
    (first memory prev c rest).1.inner.length < (c :: rest).length := by
  cases hpiece : (first memory prev c rest).1 with
  | delimited d inner =>
    obtain ⟨after, heq, -, hinner⟩ := exists_of_first hpiece
    have hle := Delimiter.length_inner?_le hinner
    have := d.width_pos
    rw [heq, List.length_append, d.length_text]
    show inner.length < _
    omega
  | _ => simp [inner]

end Piece

theorem length_inner_lt_of_mem_piecesFrom {memory : Memory} {prev : Option Char} {t : Text}
    {piece : Piece} (h : piece ∈ piecesFrom memory prev t) : piece.inner.length < t.length := by
  fun_induction piecesFrom memory prev t with
  | case1 => simp at h
  | case2 memory prev c rest piece' memory' hfirst source ih =>
    rcases List.mem_cons.1 h with rfl | h
    · have := Piece.length_inner_first_lt memory prev c rest
      rwa [hfirst] at this
    · have := ih h
      rw [List.length_drop] at this
      simp only [List.length_cons]
      omega

/-- The inner text of a piece is shorter than the line. -/
theorem length_inner_lt_of_mem_pieces {t : Text} {piece : Piece} (h : piece ∈ pieces t) :
    piece.inner.length < t.length :=
  length_inner_lt_of_mem_piecesFrom h

end TicketMarkup
