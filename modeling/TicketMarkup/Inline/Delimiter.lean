import TicketMarkup.Text.Alphanumeric

/-!
# Delimiters

The seven delimiters that set off emphasised text: `***`, `**`, `*`, `___`, `__`, `_` and `~~`.
Whether a delimiter can open or close depends only on the characters beside it: the text inside
neither starts nor ends with a blank or with the delimiter's own character, and underscores do not
stand inside a word. `Delimiter.inner?` finds the leftmost place where a delimiter can close.
-/

namespace TicketMarkup

/-- The characters that emphasis is written with. -/
inductive EmphasisMark
  | star
  | underscore
  deriving Repr, DecidableEq

/-- A delimiter of emphasised or struck text. -/
inductive Delimiter
  | strongEmphasis (mark : EmphasisMark)
  | strong (mark : EmphasisMark)
  | emphasis (mark : EmphasisMark)
  | strike
  deriving Repr, DecidableEq

/-- The character of a mark. -/
def EmphasisMark.char : EmphasisMark → Char
  | star => '*'
  | underscore => '_'

namespace Delimiter

/-- The character that the delimiter consists of. -/
def char : Delimiter → Char
  | strongEmphasis mark | strong mark | emphasis mark => mark.char
  | strike => '~'

/-- The number of characters. -/
def width : Delimiter → Nat
  | strongEmphasis _ => 3
  | strong _ => 2
  | emphasis _ => 1
  | strike => 2

theorem width_pos (d : Delimiter) : 0 < d.width := by cases d <;> simp [width]

/-- The delimiter as it is written. -/
def text (d : Delimiter) : Text := List.replicate d.width d.char

@[simp]
theorem length_text (d : Delimiter) : d.text.length = d.width := List.length_replicate

@[simp]
theorem drop_width_append (d : Delimiter) (t : Text) : (d.text ++ t).drop d.width = t :=
  List.drop_left' d.length_text

theorem text_eq_cons (d : Delimiter) : d.text = d.char :: List.replicate (d.width - 1) d.char := by
  rw [text, ← List.replicate_succ, Nat.sub_add_cancel d.width_pos]

theorem text_ne_nil (d : Delimiter) : d.text ≠ [] := by
  rw [d.text_eq_cons]
  exact List.cons_ne_nil _ _

theorem head?_text (d : Delimiter) : d.text.head? = some d.char := by
  rw [d.text_eq_cons, List.head?_cons]

theorem getLast?_text (d : Delimiter) : d.text.getLast? = some d.char := by
  rw [text, List.getLast?_replicate, if_neg (Nat.ne_of_gt d.width_pos)]

/-- The delimiters that start with a character, longest first: the order in which they are tried. -/
def startingWith (c : Char) : List Delimiter :=
  if c = '*' then [strongEmphasis .star, strong .star, emphasis .star]
  else if c = '_' then [strongEmphasis .underscore, strong .underscore, emphasis .underscore]
  else if c = '~' then [strike]
  else []

theorem isPunctuation_char (d : Delimiter) : isPunctuation d.char := by
  rcases d with (_ | _) | (_ | _) | (_ | _) | _ <;> decide

/-- The characters of delimiters do not belong to words. -/
theorem not_isAlphanumeric_char (d : Delimiter) : ¬isAlphanumeric d.char :=
  fun h => not_isPunctuation_of_isAlphanumeric h d.isPunctuation_char

theorem mem_startingWith_iff {d : Delimiter} {c : Char} : d ∈ startingWith c ↔ d.char = c := by
  constructor
  · intro h
    unfold startingWith at h
    split at h
    · next hstar =>
      simp only [List.mem_cons, List.not_mem_nil, or_false] at h
      rcases h with rfl | rfl | rfl <;> exact hstar.symm
    · split at h
      · next hunderscore =>
        simp only [List.mem_cons, List.not_mem_nil, or_false] at h
        rcases h with rfl | rfl | rfl <;> exact hunderscore.symm
      · split at h
        · next htilde => rw [List.mem_singleton.1 h, htilde, char]
        · exact absurd h List.not_mem_nil
  · rintro rfl
    rcases d with (_ | _) | (_ | _) | (_ | _) | _ <;> decide

/-- The delimiter must not touch a word on its outer side at this character. -/
def bindsTo (d : Delimiter) (c : Char) : Bool := d.char == '_' && isAlphanumeric c

/-- A character that can stand on the inner side of the delimiter. -/
def admits (d : Delimiter) (c : Char) : Bool := !isBlank c && c != d.char

/-- The delimiter stands at the head of `t` and can open there, after the character `prev`. -/
def opens (d : Delimiter) (prev : Option Char) (t : Text) : Bool :=
  d.text.isPrefixOf t && (t.drop d.width).head?.any d.admits && !prev.any d.bindsTo

theorem opens_iff {d : Delimiter} {prev : Option Char} {t : Text} :
    d.opens prev t ↔
      ∃ after, t = d.text ++ after ∧ after.head?.any d.admits ∧ prev.any d.bindsTo = false := by
  rw [opens, Bool.and_eq_true, Bool.and_eq_true, List.isPrefixOf_iff_prefix, Bool.not_eq_true']
  constructor
  · rintro ⟨⟨⟨after, rfl⟩, hnext⟩, hprev⟩
    rw [drop_width_append] at hnext
    exact ⟨after, rfl, hnext, hprev⟩
  · rintro ⟨after, rfl, hnext, hprev⟩
    rw [drop_width_append]
    exact ⟨⟨List.prefix_append _ _, hnext⟩, hprev⟩

/-- The delimiter stands at the head of `t` and can close there, after the inner character `last`. -/
def closes (d : Delimiter) (last : Option Char) (t : Text) : Bool :=
  d.text.isPrefixOf t && last.any d.admits &&
    (t.drop d.width).head?.all fun c => c != d.char && !d.bindsTo c

theorem closes_text_append (d : Delimiter) (last : Option Char) (t : Text) :
    d.closes last (d.text ++ t) =
      (last.any d.admits && t.head?.all fun c => c != d.char && !d.bindsTo c) := by
  have hprefix : d.text.isPrefixOf (d.text ++ t) :=
    List.isPrefixOf_iff_prefix.2 (List.prefix_append _ _)
  rw [closes, hprefix, drop_width_append, Bool.true_and]

/-- The part of a text before the leftmost place where the delimiter can close. -/
def inner? (d : Delimiter) (last : Option Char) (t : Text) : Option Text :=
  if d.closes last t then some []
  else
    match t with
    | [] => none
    | c :: rest => (inner? d (some c) rest).map (c :: ·)

theorem length_inner?_le {d : Delimiter} {last : Option Char} {t inner : Text}
    (h : d.inner? last t = some inner) : inner.length ≤ t.length := by
  induction t generalizing last inner with
  | nil =>
    simp only [inner?] at h
    split at h
    · simp [← Option.some.inj h]
    · simp at h
  | cons c rest ih =>
    simp only [inner?] at h
    split at h
    · simp [← Option.some.inj h]
    · obtain ⟨i, hi, rfl⟩ := Option.map_eq_some_iff.1 h
      simpa using ih hi

end Delimiter

end TicketMarkup
