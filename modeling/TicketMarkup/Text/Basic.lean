/-!
# Text and its character classes

A text is a list of Unicode characters. This module holds the classes of characters that every
rule on text uses (blank characters, ASCII punctuation, membership in a table of code point
ranges) and the trimming of blank characters at the ends of a text.
-/

namespace TicketMarkup

/-- A sequence of Unicode characters. -/
abbrev Text := List Char

/-- A class of characters, as the ranges of its code points, both ends included. -/
abbrev CodeRanges := List (Nat × Nat)

/-- The character lies in one of the ranges. -/
def CodeRanges.has (ranges : CodeRanges) (c : Char) : Bool :=
  ranges.any fun r => r.1 ≤ c.toNat && c.toNat ≤ r.2

/-- No code point lies in ranges of both classes. -/
def CodeRanges.apart (a b : CodeRanges) : Bool :=
  a.all fun r => b.all fun r' => r.2 < r'.1 || r'.2 < r.1

theorem CodeRanges.not_has_of_apart {a b : CodeRanges} (h : a.apart b) {c : Char} (hc : a.has c) :
    ¬b.has c := by
  simp only [apart, List.all_eq_true, Bool.or_eq_true, decide_eq_true_eq] at h
  simp only [has, List.any_eq_true, Bool.and_eq_true, decide_eq_true_eq] at hc ⊢
  rintro ⟨r', hr', hlow', hhigh'⟩
  obtain ⟨r, hr, hlow, hhigh⟩ := hc
  have := h r hr r' hr'
  omega

/-- The code points of the Unicode property White_Space. -/
def blankRanges : CodeRanges :=
  [(0x9, 0xD), (0x20, 0x20), (0x85, 0x85), (0xA0, 0xA0), (0x1680, 0x1680), (0x2000, 0x200A),
   (0x2028, 0x2029), (0x202F, 0x202F), (0x205F, 0x205F), (0x3000, 0x3000)]

/-- A character with the Unicode property White_Space. -/
def isBlank (c : Char) : Bool := blankRanges.has c

/-- Every character that core counts as white space is blank. -/
theorem isBlank_of_isWhitespace {c : Char} (h : c.isWhitespace) : isBlank c := by
  simp only [Char.isWhitespace, Bool.or_eq_true, decide_eq_true_eq] at h
  rcases h with ((rfl | rfl) | rfl) | rfl <;> rfl

/-- The ASCII characters that are neither letters, digits, blanks nor controls. -/
def isPunctuation (c : Char) : Bool :=
  CodeRanges.has [(0x21, 0x2F), (0x3A, 0x40), (0x5B, 0x60), (0x7B, 0x7E)] c

theorem not_isBlank_of_isPunctuation {c : Char} (h : isPunctuation c) : ¬isBlank c :=
  CodeRanges.not_has_of_apart (by decide) h

namespace Text

/-- The text has blank characters only. -/
def isBlank (t : Text) : Bool := t.all TicketMarkup.isBlank

/-- The text without its leading blanks. -/
def trimStart (t : Text) : Text := t.dropWhile TicketMarkup.isBlank

/-- The text without the longest ending whose characters satisfy `p`. -/
def dropEndWhile (p : Char → Bool) (t : Text) : Text := (t.reverse.dropWhile p).reverse

/-- The text without its trailing blanks. -/
def trimEnd (t : Text) : Text := dropEndWhile TicketMarkup.isBlank t

/-- The text without the blanks at either end. -/
def trim (t : Text) : Text := trimEnd (trimStart t)

/-- The text without the given ending, or the text itself if it does not end so. -/
def dropSuffix (ending t : Text) : Text :=
  if ending.isSuffixOf t then t.take (t.length - ending.length) else t

/-- The decimal digits of a natural number. -/
def ofNat (n : Nat) : Text := Nat.toDigits 10 n

/-- The texts one after the other with `sep` between neighbours. -/
def join (sep : Text) : List Text → Text
  | [] => []
  | [t] => t
  | t :: rest => t ++ sep ++ join sep rest

end Text

end TicketMarkup
