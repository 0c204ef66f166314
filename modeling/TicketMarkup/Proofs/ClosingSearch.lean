import TicketMarkup.Inline.Run
import Mathlib.Data.List.Basic
import Mathlib.Data.Nat.Basic

/-!
# The search for closers

`ofText_eq_ofTextAfresh`: the scan that remembers failed searches gives the runs of a scan that
searches afresh at every opening and takes the leftmost valid closer.

1. A closer is valid or not by its position alone (`Delimiter.ClosesAt`, `CodeSpan.ClosesAt`); the
   recursive searches find the leftmost valid position (`inner?_eq_leftmost`).
2. A search that fails at some position fails further on (`Closer.Exhausted.drop`), so a memory
   whose closers are all exhausted stays so along the line (`Memory.Sound`).
3. With a sound memory, every attempt of the scan gives what the attempt from scratch gives, and
   leaves a sound memory that agrees on the openings that failed references rule out.
-/

namespace TicketMarkup

/-! ## Valid closers -/

/-- In the text after an opening, the delimiter can close at position `k`: it occurs there, the text
before it is not empty and ends neither in a blank nor in the delimiter's character, and neither
that character nor, for underscores, an alphanumeric one follows. -/
def Delimiter.ClosesAt (d : Delimiter) (after : Text) (k : Nat) : Prop :=
  d.text <+: after.drop k ∧
    (∃ c ∈ (after.take k).getLast?, ¬isBlank c ∧ c ≠ d.char) ∧
    ∀ c ∈ (after.drop (k + d.width)).head?, c ≠ d.char ∧ ¬(d.char = '_' ∧ isAlphanumeric c)

/-- In the text after an opening, a run of exactly `ticks` backticks begins at position `k`, and no
backtick stands before or after it. -/
def CodeSpan.ClosesAt (ticks : Nat) (after : Text) (k : Nat) : Prop :=
  List.replicate ticks '`' <+: after.drop k ∧ (after.take k).getLast? ≠ some '`' ∧
    (after.drop (k + ticks)).head? ≠ some '`'

instance (ticks : Nat) (after : Text) : DecidablePred (CodeSpan.ClosesAt ticks after) :=
  fun k => by unfold CodeSpan.ClosesAt; infer_instance

/-- The least position of a text, its end included, that has a property. -/
def leftmost? (t : Text) (P : Nat → Prop) [DecidablePred P] : Option Nat :=
  (List.range (t.length + 1)).find? (P ·)

theorem leftmost?_eq_some_iff {t : Text} {P : Nat → Prop} [DecidablePred P] {k : Nat} :
    leftmost? t P = some k ↔ k ≤ t.length ∧ P k ∧ ∀ j < k, ¬P j := by
  unfold leftmost?
  rw [List.find?_range_eq_some, List.mem_range, Nat.lt_add_one_iff, and_left_comm]
  simp

theorem leftmost?_nil (P : Nat → Prop) [DecidablePred P] :
    leftmost? [] P = if P 0 then some 0 else none := by
  unfold leftmost?
  by_cases h : P 0
  · rw [if_pos h]
    exact List.find?_cons_of_pos (decide_eq_true h)
  · rw [if_neg h]
    exact List.find?_cons_of_neg (by simpa using h)

theorem leftmost?_cons (c : Char) (t : Text) (P : Nat → Prop) [DecidablePred P] :
    leftmost? (c :: t) P =
      if P 0 then some 0 else (leftmost? t fun k => P (k + 1)).map (· + 1) := by
  unfold leftmost?
  rw [List.length_cons, List.range_succ_eq_map]
  by_cases h : P 0
  · rw [if_pos h]
    exact List.find?_cons_of_pos (decide_eq_true h)
  · rw [if_neg h, List.find?_cons_of_neg (by simpa using h), List.find?_map]
    rfl

/-! ## The recursive searches find the leftmost closer -/

theorem getLast?_cons_or (last : Option Char) (c : Char) (rest : Text) :
    (c :: rest).getLast?.or last = rest.getLast?.or (some c) := by
  rw [List.getLast?_cons]
  cases rest.getLast? <;> rfl

/-- The character before position `k + 1`, a character further on. -/
theorem getLast?_take_succ_or (last : Option Char) (c : Char) (rest : Text) (k : Nat) :
    ((c :: rest).take (k + 1)).getLast?.or last = (rest.take k).getLast?.or (some c) := by
  rw [List.take_succ_cons, getLast?_cons_or]

theorem Delimiter.inner?_eq_leftmost_closes (d : Delimiter) (last : Option Char) (t : Text) :
    d.inner? last t =
      (leftmost? t fun k => d.closes ((t.take k).getLast?.or last) (t.drop k)).map t.take := by
  induction t generalizing last with
  | nil =>
    rw [inner?, leftmost?_nil]
    split_ifs <;> simp_all
  | cons c rest ih =>
    rw [inner?, leftmost?_cons, ih (some c)]
    simp only [getLast?_take_succ_or, List.drop_succ_cons, List.take_zero, List.drop_zero]
    by_cases h : d.closes last (c :: rest)
    · simp [h]
    · simp [h, Function.comp_def]

theorem Delimiter.closes_iff_closesAt (d : Delimiter) (after : Text) (k : Nat) :
    d.closes (after.take k).getLast? (after.drop k) ↔ d.ClosesAt after k := by
  unfold closes ClosesAt
  rw [List.drop_drop]
  simp [List.isPrefixOf_iff_prefix, Option.any_eq_true, Option.all_eq_true, admits, bindsTo,
    and_assoc, imp_iff_not_or]

instance (d : Delimiter) (after : Text) : DecidablePred (d.ClosesAt after) :=
  fun k => decidable_of_iff _ (d.closes_iff_closesAt after k)

theorem Delimiter.inner?_eq_leftmost (d : Delimiter) (after : Text) :
    d.inner? none after = (leftmost? after (d.ClosesAt after)).map after.take := by
  rw [inner?_eq_leftmost_closes]
  simp only [Option.or_none, closes_iff_closesAt]

theorem Delimiter.inner?_eq_some_iff {d : Delimiter} {after inner : Text} :
    d.inner? none after = some inner ↔
      ∃ k ≤ after.length, d.ClosesAt after k ∧ (∀ j < k, ¬d.ClosesAt after j) ∧
        after.take k = inner := by
  simp only [inner?_eq_leftmost, Option.map_eq_some_iff, leftmost?_eq_some_iff, and_assoc]

namespace CodeSpan

theorem inner?_eq_leftmost_tickCount {ticks : Nat} (hticks : 0 < ticks) (last : Option Char)
    (t : Text) :
    inner? ticks (last != some '`') t =
      (leftmost? t fun k => (t.take k).getLast?.or last ≠ some '`' ∧
        tickCount (t.drop k) = ticks).map t.take := by
  induction t generalizing last with
  | nil =>
    have h : tickCount [] ≠ ticks := Nat.ne_of_lt hticks
    simp [inner?, leftmost?_nil, h]
  | cons c rest ih =>
    rw [inner?, leftmost?_cons, show (c != '`') = (some c != some '`') from rfl, ih (some c)]
    simp only [getLast?_take_succ_or, List.drop_succ_cons, List.take_zero, List.drop_zero]
    by_cases h : last ≠ some '`' ∧ tickCount (c :: rest) = ticks
    · simp [h]
    · simp [h, Function.comp_def]

theorem inner?_eq_leftmost {ticks : Nat} (hticks : 0 < ticks) (after : Text) :
    inner? ticks true after = (leftmost? after (ClosesAt ticks after)).map after.take := by
  refine (inner?_eq_leftmost_tickCount hticks none after).trans ?_
  simp only [Option.or_none, tickCount_eq_iff, List.drop_drop]
  congr 2
  funext k
  exact propext and_left_comm

end CodeSpan

/-! ## Searches that fail once fail further on -/

theorem Delimiter.inner?_none_of_inner? {d : Delimiter} {last : Option Char} {t : Text}
    (h : d.inner? last t = none) : d.inner? none t = none := by
  have hfresh : d.closes none t = false := by simp [closes]
  unfold inner? at h ⊢
  split_ifs at h
  rw [hfresh, if_neg Bool.false_ne_true]
  exact h

theorem Delimiter.inner?_drop {d : Delimiter} {t : Text} (h : d.inner? none t = none) (n : Nat) :
    d.inner? none (t.drop n) = none := by
  induction n generalizing t with
  | zero => exact h
  | succ n ih =>
    cases t with
    | nil => exact h
    | cons c rest =>
      unfold inner? at h
      split_ifs at h
      exact ih (inner?_none_of_inner? (Option.map_eq_none_iff.1 h))

namespace CodeSpan

theorem inner?_false_of_inner? {ticks : Nat} {fresh : Bool} {t : Text}
    (h : inner? ticks fresh t = none) : inner? ticks false t = none := by
  cases t with
  | nil => rfl
  | cons c rest =>
    unfold inner? at h ⊢
    split_ifs at h
    simpa using h

theorem inner?_drop {ticks : Nat} {t : Text} (h : inner? ticks false t = none) (n : Nat) :
    inner? ticks false (t.drop n) = none := by
  induction n generalizing t with
  | zero => exact h
  | succ n ih =>
    cases t with
    | nil => exact h
    | cons c rest =>
      unfold inner? at h
      split_ifs at h
      exact ih (inner?_false_of_inner? (Option.map_eq_none_iff.1 h))

/-- Behind the run of backticks at the head of a text no backtick follows, so the search that starts
there cannot begin inside a run. -/
theorem inner?_drop_tickCount {t : Text} (ht : 0 < tickCount t) (fresh : Bool) :
    inner? (tickCount t) fresh (t.drop (tickCount t)) =
      inner? (tickCount t) false (t.drop (tickCount t)) := by
  have hhead := (tickCount_eq_iff.1 (rfl : tickCount t = tickCount t)).2
  generalize t.drop (tickCount t) = after at hhead
  cases after with
  | nil => rfl
  | cons c rest =>
    have hc : c ≠ '`' := by simpa using hhead
    have hne : tickCount (c :: rest) ≠ tickCount t := by
      have : tickCount (c :: rest) = 0 := tickCount_eq_iff.2 (by simp [hc])
      omega
    simp [inner?, hne]

/-- The opening run itself is no closer. -/
theorem inner?_false_of_inner?_drop {t : Text}
    (h : inner? (tickCount t) false (t.drop (tickCount t)) = none) :
    inner? (tickCount t) false t = none := by
  obtain ⟨after, hafter⟩ := (tickCount_eq_iff.1 (rfl : tickCount t = tickCount t)).1
  generalize tickCount t = ticks at *
  subst hafter
  rw [List.drop_left' List.length_replicate] at h
  have hrun (n : Nat) : inner? ticks false (List.replicate n '`' ++ after) = none := by
    induction n with
    | zero => exact h
    | succ n ih => simpa [List.replicate_succ, inner?] using ih
  exact hrun ticks

end CodeSpan

/-- A search for the closer finds nothing from the head of the text on. -/
def Closer.Exhausted (t : Text) : Closer → Prop
  | .delimiter d => d.inner? none (t.drop d.width) = none
  | .ticks n => CodeSpan.inner? n false t = none

theorem Closer.Exhausted.drop {t : Text} {closer : Closer} (h : closer.Exhausted t) (n : Nat) :
    closer.Exhausted (t.drop n) := by
  cases closer with
  | delimiter d =>
    rw [Exhausted] at h ⊢
    rw [List.drop_drop, Nat.add_comm, ← List.drop_drop]
    exact Delimiter.inner?_drop h n
  | ticks count => exact CodeSpan.inner?_drop h n

/-- Every closer that the memory has ruled out is exhausted. -/
def Memory.Sound (m : Memory) (t : Text) : Prop := ∀ closer ∈ m.spent, closer.Exhausted t

namespace Memory

/-- The memory without the closers: what it rules out of references. -/
def references (m : Memory) : Memory := { m with spent := [] }

theorem sound_empty (t : Text) : empty.Sound t := by
  intro closer h
  simp [empty] at h

theorem Sound.advance {m : Memory} {c : Char} {rest : Text} (h : m.Sound (c :: rest))
    (count n : Nat) : (m.advance count).Sound (rest.drop n) :=
  fun closer hc => (h closer hc).drop (n + 1)

theorem Sound.spend {m : Memory} {t : Text} {closer : Closer} (h : m.Sound t)
    (hc : closer.Exhausted t) : (m.spend closer).Sound t := by
  intro other hother
  rcases List.mem_cons.1 hother with rfl | hmem
  · exact hc
  · exact h other hmem

theorem Sound.fail {m : Memory} {t : Text} (h : m.Sound t) (kind : ReferenceKind) (length : Nat) :
    (m.fail kind length).Sound t := by
  cases kind <;> exact h

theorem references_spend (m : Memory) (closer : Closer) :
    (m.spend closer).references = m.references := rfl

theorem references_advance (m : Memory) (count : Nat) :
    (m.advance count).references = m.references.advance count := rfl

theorem references_fail (m : Memory) (kind : ReferenceKind) (length : Nat) :
    (m.fail kind length).references = m.references.fail kind length := by
  cases kind <;> rfl

theorem dead_references (m : Memory) (kind : ReferenceKind) :
    m.references.dead kind = m.dead kind := by
  cases kind <;> rfl

end Memory

/-! ## The scan that searches afresh -/

namespace Piece

/-- Tries a delimiter at the head of a text, with a search from scratch for the leftmost place where
it can close. -/
def delimitedAfresh? (prev : Option Char) (t : Text) (d : Delimiter) : Option Piece :=
  let after := t.drop d.width
  if d.opens prev t then
    (leftmost? after (d.ClosesAt after)).map fun k => .delimited d (after.take k)
  else none

theorem delimitedAfresh?_eq (prev : Option Char) (t : Text) (d : Delimiter) :
    delimitedAfresh? prev t d =
      if d.opens prev t then (d.inner? none (t.drop d.width)).map (.delimited d) else none := by
  rw [delimitedAfresh?, Delimiter.inner?_eq_leftmost, Option.map_map]
  rfl

theorem delimitedAfresh?_eq_some_iff {prev : Option Char} {t : Text} {d : Delimiter}
    {piece : Piece} :
    delimitedAfresh? prev t d = some piece ↔
      ∃ after inner, piece = .delimited d inner ∧ t = d.text ++ after ∧
        after.head?.any d.admits ∧ prev.any d.bindsTo = false ∧
        d.inner? none after = some inner := by
  rw [delimitedAfresh?_eq, Option.ite_none_right_eq_some, Delimiter.opens_iff,
    Option.map_eq_some_iff]
  constructor
  · rintro ⟨⟨after, rfl, hnext, hprev⟩, inner, hinner, rfl⟩
    rw [Delimiter.drop_width_append] at hinner
    exact ⟨after, inner, rfl, rfl, hnext, hprev, hinner⟩
  · rintro ⟨after, inner, rfl, rfl, hnext, hprev, hinner⟩
    rw [Delimiter.drop_width_append]
    exact ⟨⟨after, rfl, hnext, hprev⟩, inner, hinner, rfl⟩

/-- Tries a code span at the head of a text, with a search from scratch for the leftmost run of
backticks that can close it. -/
def codeAfresh? (t : Text) : Option Piece :=
  let ticks := CodeSpan.tickCount t
  let after := t.drop ticks
  (leftmost? after (CodeSpan.ClosesAt ticks after)).map fun k => .code ticks (after.take k)

/-- Tries what can start with the first character of a text; only failed references are
remembered. -/
def markupAfresh? (memory : Memory) (prev : Option Char) (t : Text) : Option Piece × Memory :=
  match t with
  | '\\' :: c :: _ => (if isPunctuation c then some (.escaped c) else none, memory)
  | '!' :: '[' :: _ => reference? memory .image t
  | '[' :: _ => reference? memory .link t
  | '`' :: _ => (codeAfresh? t, memory)
  | c :: _ => ((Delimiter.startingWith c).findSome? (delimitedAfresh? prev t), memory)
  | [] => (none, memory)

/-- Only delimiters start with a character that starts neither an escape nor a code span nor a
reference. -/
theorem markupAfresh?_of_not_mem {c : Char} (h : c ∉ ['\\', '!', '[', '`']) (m : Memory)
    (prev : Option Char) (rest : Text) :
    markupAfresh? m prev (c :: rest) =
      ((Delimiter.startingWith c).findSome? (delimitedAfresh? prev (c :: rest)), m) := by
  simp only [List.mem_cons, List.not_mem_nil, or_false, not_or] at h
  obtain ⟨hbackslash, hexclamation, hbracket, htick⟩ := h
  rw [markupAfresh?]
  · exact fun _ _ heq => absurd heq hbackslash
  · exact fun _ heq => absurd heq hexclamation
  · exact hbracket
  · exact htick

/-- The piece at the head of a text; a character that starts no markup stands for itself. -/
def firstAfresh (memory : Memory) (prev : Option Char) (c : Char) (rest : Text) : Piece × Memory :=
  match markupAfresh? memory prev (c :: rest) with
  | (some piece, memory) => (piece, memory)
  | (none, memory) => (.literal c, memory)

end Piece

/-- The pieces of a text after the character `prev`, with every closer searched for afresh. -/
def piecesAfreshFrom (memory : Memory) (prev : Option Char) (t : Text) : List Piece :=
  match t with
  | [] => []
  | c :: rest =>
    let (piece, memory) := Piece.firstAfresh memory prev c rest
    let source := piece.source
    piece :: piecesAfreshFrom (memory.advance source.length) source.getLast?
      (rest.drop (source.length - 1))
termination_by t.length

/-- The pieces of a line, with every closer searched for afresh. -/
def piecesAfresh (t : Text) : List Piece := piecesAfreshFrom .empty none t

/-! ## The two scans agree -/

/-- An attempt at the head of a text gives what the attempt from scratch gives, and leaves a sound
memory that rules out the same references. -/
structure Agrees {α : Type} (t : Text) (attempt afresh : α × Memory) : Prop where
  result : attempt.1 = afresh.1
  sound : attempt.2.Sound t
  references : attempt.2.references = afresh.2

namespace Piece

variable {m : Memory} {t : Text}

theorem delimited?_agrees (hm : m.Sound t) (prev : Option Char) (d : Delimiter) :
    Agrees t (delimited? m prev t d) (delimitedAfresh? prev t d, m.references) := by
  have hsearch := d.inner?_eq_leftmost (t.drop d.width)
  unfold delimited? delimitedAfresh?
  by_cases hopens : d.opens prev t
  · by_cases hspent : .delimiter d ∈ m.spent
    · have hnone : d.inner? none (t.drop d.width) = none := hm _ hspent
      rw [hnone, eq_comm, Option.map_eq_none_iff] at hsearch
      constructor <;> simp [hopens, hspent, hsearch, hm]
    · cases hinner : d.inner? none (t.drop d.width) with
      | some inner =>
        rw [hinner, eq_comm, Option.map_eq_some_iff] at hsearch
        obtain ⟨k, hk, rfl⟩ := hsearch
        constructor <;> simp [hopens, hspent, hk, hm]
      | none =>
        rw [hinner, eq_comm, Option.map_eq_none_iff] at hsearch
        have hsound : (m.spend (.delimiter d)).Sound t := hm.spend hinner
        constructor <;> simp [hopens, hspent, hsearch, hsound, Memory.references_spend]
  · constructor <;> simp [hopens, hm]

theorem firstDelimited?_agrees (hm : m.Sound t) (prev : Option Char) (ds : List Delimiter) :
    Agrees t (firstDelimited? m prev t ds)
      (ds.findSome? (delimitedAfresh? prev t), m.references) := by
  induction ds generalizing m with
  | nil => exact ⟨rfl, hm, rfl⟩
  | cons d rest ih =>
    obtain ⟨hpiece, hsound, hrefs⟩ := delimited?_agrees hm prev d
    rw [firstDelimited?, List.findSome?_cons]
    simp only at hpiece hrefs
    rw [← hpiece, ← hrefs]
    generalize delimited? m prev t d = attempt at hsound
    obtain ⟨piece, memory⟩ := attempt
    cases piece with
    | some piece => exact ⟨rfl, hsound, rfl⟩
    | none => exact ih hsound

theorem code?_agrees (hm : m.Sound t) (ht : 0 < CodeSpan.tickCount t) :
    Agrees t (code? m t) (codeAfresh? t, m.references) := by
  have hsearch := CodeSpan.inner?_eq_leftmost ht (t.drop (CodeSpan.tickCount t))
  have hdrop := CodeSpan.inner?_drop_tickCount ht true
  simp only [code?, codeAfresh?]
  by_cases hspent : .ticks (CodeSpan.tickCount t) ∈ m.spent
  · have hexhausted := (hm _ hspent).drop (CodeSpan.tickCount t)
    rw [Closer.Exhausted, ← hdrop, hsearch, Option.map_eq_none_iff] at hexhausted
    constructor <;> simp [hspent, hexhausted, hm]
  · cases hinner : CodeSpan.inner? (CodeSpan.tickCount t) true (t.drop (CodeSpan.tickCount t)) with
    | some text =>
      rw [hinner, eq_comm, Option.map_eq_some_iff] at hsearch
      obtain ⟨k, hk, rfl⟩ := hsearch
      constructor <;> simp [hspent, hk, hm]
    | none =>
      rw [hinner, eq_comm, Option.map_eq_none_iff] at hsearch
      have hsound : (m.spend (.ticks (CodeSpan.tickCount t))).Sound t :=
        hm.spend (CodeSpan.inner?_false_of_inner?_drop (hdrop ▸ hinner))
      constructor <;> simp [hspent, hsearch, hsound, Memory.references_spend]

theorem reference?_agrees (hm : m.Sound t) (kind : ReferenceKind) (u : Text) :
    Agrees t (reference? m kind u) (reference? m.references kind u) := by
  unfold reference?
  rw [Memory.dead_references]
  by_cases hdead : 0 < m.dead kind
  · rw [if_pos hdead, if_pos hdead]
    exact ⟨rfl, hm, rfl⟩
  · rw [if_neg hdead, if_neg hdead]
    cases Reference.read? kind (u.drop kind.mark.length) with
    | some spelling => exact ⟨rfl, hm, rfl⟩
    | none => exact ⟨rfl, hm.fail kind _, m.references_fail kind _⟩

theorem markup?_agrees (hm : m.Sound t) (prev : Option Char) :
    Agrees t (markup? m prev t) (markupAfresh? m.references prev t) := by
  unfold markup?
  split
  · exact ⟨rfl, hm, rfl⟩
  · exact reference?_agrees hm .image _
  · exact reference?_agrees hm .link _
  · exact code?_agrees hm (by simp [CodeSpan.tickCount])
  · rw [markupAfresh?]
    · exact firstDelimited?_agrees hm prev _
    all_goals assumption
  · exact ⟨rfl, hm, rfl⟩

theorem first_agrees {c : Char} {rest : Text} (hm : m.Sound (c :: rest)) (prev : Option Char) :
    Agrees (c :: rest) (first m prev c rest) (firstAfresh m.references prev c rest) := by
  obtain ⟨hpiece, hsound, hrefs⟩ := markup?_agrees hm prev
  unfold first firstAfresh
  generalize markup? m prev (c :: rest) = attempt at hpiece hsound hrefs
  generalize markupAfresh? m.references prev (c :: rest) = afresh at hpiece hrefs
  obtain ⟨piece, memory⟩ := attempt
  obtain ⟨_, _⟩ := afresh
  obtain rfl := hpiece
  obtain rfl := hrefs
  cases piece with
  | some piece => exact ⟨rfl, hsound, rfl⟩
  | none => exact ⟨rfl, hsound, rfl⟩

end Piece

theorem piecesFrom_eq_afresh {m : Memory} {t : Text} (hm : m.Sound t) (prev : Option Char) :
    piecesFrom m prev t = piecesAfreshFrom m.references prev t := by
  fun_induction piecesFrom m prev t with
  | case1 => rw [piecesAfreshFrom]
  | case2 m prev c rest piece memory hfirst source ih =>
    obtain ⟨hpiece, hsound, hrefs⟩ := Piece.first_agrees hm prev
    rw [hfirst] at hpiece hsound hrefs
    have hafresh : Piece.firstAfresh m.references prev c rest = (piece, memory.references) :=
      Prod.ext hpiece.symm hrefs.symm
    rw [piecesAfreshFrom, hafresh, ih (hsound.advance _ _), Memory.references_advance]

theorem pieces_eq_piecesAfresh (t : Text) : pieces t = piecesAfresh t :=
  piecesFrom_eq_afresh (Memory.sound_empty t) none

namespace Run

/-- The runs of a text, with every closer searched for afresh, inside delimited texts as well. -/
def ofTextAfresh (t : Text) : List Run :=
  (piecesAfresh t).attach.foldr (fun (piece : { piece // piece ∈ piecesAfresh t }) rest =>
    have : piece.1.inner.length < t.length :=
      length_inner_lt_of_mem_pieces ((pieces_eq_piecesAfresh t).symm ▸ piece.2)
    consPiece piece.1 (ofTextAfresh piece.1.inner) rest) []
termination_by t.length

theorem ofTextAfresh_eq (t : Text) :
    ofTextAfresh t =
      (piecesAfresh t).foldr (fun piece rest => consPiece piece (ofTextAfresh piece.inner) rest)
        [] := by
  rw [ofTextAfresh]
  exact List.foldr_attach (l := piecesAfresh t)
    (f := fun piece rest => consPiece piece (ofTextAfresh piece.inner) rest) (b := [])

/-- **The memory of failed searches is sound.** Remembering which closers are exhausted changes no
run: the scan gives what it gives when each opening searches from scratch and takes the leftmost
valid closer. -/
theorem ofText_eq_ofTextAfresh (t : Text) : ofText t = ofTextAfresh t := by
  induction h : t.length using Nat.strong_induction_on generalizing t with
  | _ n ih =>
    rw [ofText_eq, ofTextAfresh_eq, ← pieces_eq_piecesAfresh]
    apply List.foldr_ext
    intro piece hpiece rest
    rw [ih _ (h ▸ length_inner_lt_of_mem_pieces hpiece) _ rfl]

end Run

end TicketMarkup
