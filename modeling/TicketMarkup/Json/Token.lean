import TicketMarkup.Json.Numeral

/-!
# JSON tokens

The tokens of JSON text, how each is written, and how a text is cut into tokens. In a string, the
quote, the backslash and the control characters are escaped, and every other character stands for
itself. Cutting a text skips the four JSON blanks between tokens and fails at the first character
that starts no token.
-/

namespace TicketMarkup.Json

/-- A token of JSON text. -/
inductive Token
  | null
  | bool (b : Bool)
  | number (n : JsonNumber)
  | string (s : String)
  | openArray
  | closeArray
  | openObject
  | closeObject
  | comma
  | colon
  deriving Repr, DecidableEq

/-- A blank of JSON text. -/
def isSpace (c : Char) : Bool := c ∈ [' ', '\t', '\n', '\r']

/-! ## Writing -/

/-- The lower-case hexadecimal digits of a code point below 256. -/
def hexByte (n : Nat) : Text := [Nat.digitChar (n / 16), Nat.digitChar (n % 16)]

/-- A character as it is written in a string. -/
def escape (c : Char) : Text :=
  match c with
  | '"' => ['\\', '"']
  | '\\' => ['\\', '\\']
  | '\x08' => ['\\', 'b']
  | '\x0c' => ['\\', 'f']
  | '\n' => ['\\', 'n']
  | '\r' => ['\\', 'r']
  | '\t' => ['\\', 't']
  | _ => if c.toNat < 0x20 then '\\' :: 'u' :: '0' :: '0' :: hexByte c.toNat else [c]

/-- A string as it is written, in quotes. -/
def quote (s : String) : Text := '"' :: s.toList.flatMap escape ++ ['"']

/-- A number as it is written. -/
def writeNumber : JsonNumber → Text
  | .natural n => Text.ofNat n
  | .decimal negative digits exponent =>
    (if negative then ['-'] else []) ++ Text.ofNat digits ++ 'e' ::
      (if exponent < 0 then ['-'] else []) ++ Text.ofNat exponent.natAbs

/-- A token as it is written. -/
def Token.text : Token → Text
  | .null => ['n', 'u', 'l', 'l']
  | .bool true => ['t', 'r', 'u', 'e']
  | .bool false => ['f', 'a', 'l', 's', 'e']
  | .number n => writeNumber n
  | .string s => quote s
  | .openArray => ['[']
  | .closeArray => [']']
  | .openObject => ['\x7b']
  | .closeObject => ['\x7d']
  | .comma => [',']
  | .colon => [':']

/-! ## Reading -/

/-- The value of a hexadecimal digit of either case. -/
def hexDigit? (c : Char) : Option Nat :=
  if '0' ≤ c ∧ c ≤ '9' then some (c.toNat - '0'.toNat)
  else if 'a' ≤ c ∧ c ≤ 'f' then some (c.toNat - 'a'.toNat + 10)
  else if 'A' ≤ c ∧ c ≤ 'F' then some (c.toNat - 'A'.toNat + 10)
  else none

/-- The number that the four hexadecimal digits at the head of a text write. -/
def hex? : Text → Option (Nat × Text)
  | a :: b :: c :: d :: rest => do
    let a ← hexDigit? a
    let b ← hexDigit? b
    let c ← hexDigit? c
    let d ← hexDigit? d
    some (((a * 16 + b) * 16 + c) * 16 + d, rest)
  | _ => none

/-- The second half of a pair of surrogates, which follows as a second escape. -/
def lowSurrogate? : Text → Option (Nat × Text)
  | '\\' :: 'u' :: rest =>
    match hex? rest with
    | some (low, rest) => if 0xDC00 ≤ low ∧ low ≤ 0xDFFF then some (low, rest) else none
    | none => none
  | _ => none

/-- The character of a numbered escape; surrogates come in pairs only. -/
def unicodeEscape? (t : Text) : Option (Char × Text) :=
  match hex? t with
  | none => none
  | some (n, rest) =>
    if 0xD800 ≤ n ∧ n ≤ 0xDBFF then
      match lowSurrogate? rest with
      | some (low, rest) => some (Char.ofNat (0x10000 + (n - 0xD800) * 0x400 + (low - 0xDC00)), rest)
      | none => none
    else if 0xDC00 ≤ n ∧ n ≤ 0xDFFF then none
    else some (Char.ofNat n, rest)

/-- The character of an escape, after its backslash. -/
def escaped? : Text → Option (Char × Text)
  | [] => none
  | c :: rest =>
    match c with
    | '"' => some ('"', rest)
    | '\\' => some ('\\', rest)
    | '/' => some ('/', rest)
    | 'b' => some ('\x08', rest)
    | 'f' => some ('\x0c', rest)
    | 'n' => some ('\n', rest)
    | 'r' => some ('\r', rest)
    | 't' => some ('\t', rest)
    | 'u' => unicodeEscape? rest
    | _ => none

theorem length_of_hex? {t rest : Text} {n : Nat} (h : hex? t = some (n, rest)) :
    rest.length ≤ t.length := by
  unfold hex? at h
  split at h
  · simp only [bind, Option.bind_eq_some_iff, Option.some.injEq, Prod.mk.injEq] at h
    obtain ⟨_, _, _, _, _, _, _, _, _, rfl⟩ := h
    simp only [List.length_cons]
    omega
  · simp at h

theorem length_of_lowSurrogate? {t rest : Text} {n : Nat} (h : lowSurrogate? t = some (n, rest)) :
    rest.length ≤ t.length := by
  unfold lowSurrogate? at h
  split at h
  · split at h
    · next u low v hv =>
      split at h
      · simp only [Option.some.injEq, Prod.mk.injEq] at h
        have := length_of_hex? hv
        simp only [← h.2, List.length_cons]
        omega
      · simp at h
    · simp at h
  · simp at h

theorem length_of_unicodeEscape? {t rest : Text} {c : Char}
    (h : unicodeEscape? t = some (c, rest)) : rest.length ≤ t.length := by
  unfold unicodeEscape? at h
  split at h
  · simp at h
  · next n u hu =>
    have := length_of_hex? hu
    split at h
    · split at h
      · next low v hv =>
        simp only [Option.some.injEq, Prod.mk.injEq] at h
        have := length_of_lowSurrogate? hv
        rw [← h.2]
        omega
      · simp at h
    · split at h
      · simp at h
      · simp only [Option.some.injEq, Prod.mk.injEq] at h
        rw [← h.2]
        exact this

theorem length_of_escaped? {t rest : Text} {c : Char} (h : escaped? t = some (c, rest)) :
    rest.length ≤ t.length := by
  unfold escaped? at h
  split at h
  · simp at h
  · next d u =>
    have hu : u.length ≤ (d :: u).length := by simp
    split at h
    case h_9 => exact Nat.le_trans (length_of_unicodeEscape? h) hu
    case h_10 => simp at h
    all_goals
      simp only [Option.some.injEq, Prod.mk.injEq] at h
      exact h.2 ▸ hu

/-- Reads a string up to its closing quote: its characters, and the text after the quote. -/
def readString? (t : Text) : Option (Text × Text) :=
  match t with
  | [] => none
  | c :: rest =>
    if c = '"' then some ([], rest)
    else if c = '\\' then
      match h : escaped? rest with
      | some (d, rest') =>
        have := Nat.lt_succ_of_le (length_of_escaped? h)
        (readString? rest').map fun s => (d :: s.1, s.2)
      | none => none
    else if c.toNat < 0x20 then none
    else (readString? rest).map fun s => (c :: s.1, s.2)
termination_by t.length
decreasing_by
  · assumption
  · exact Nat.lt_succ_self _

theorem length_of_readString? {t : Text} {s : Text × Text} (h : readString? t = some s) :
    s.2.length < t.length := by
  fun_induction readString? t generalizing s with
  | case1 => simp at h
  | case2 u =>
    obtain rfl := Option.some.inj h
    simp
  | case3 u d v hv _ _ ih =>
    obtain ⟨p, hp, rfl⟩ := Option.map_eq_some_iff.1 h
    have := ih hp
    have := length_of_escaped? hv
    simp only [List.length_cons]
    omega
  | case4 => simp at h
  | case5 => simp at h
  | case6 c u _ _ _ ih =>
    obtain ⟨p, hp, rfl⟩ := Option.map_eq_some_iff.1 h
    have := ih hp
    simp only [List.length_cons]
    omega

/-- Reads a word, `null`, `true` or `false`. -/
def readWord? (t : Text) : Option (Token × Text) :=
  match [Token.null, .bool true, .bool false].find? fun word => word.text.isPrefixOf t with
  | some word => some (word, t.drop word.text.length)
  | none => none

/-- Reads a number that fits a double. -/
def readNumber? (t : Text) : Option (Token × Text) :=
  match Numeral.read? t with
  | some (n, rest) => if n.inRange then some (.number n.number, rest) else none
  | none => none

/-- Reads the token at the head of a text. -/
def readToken? (t : Text) : Option (Token × Text) :=
  match t with
  | '[' :: rest => some (.openArray, rest)
  | ']' :: rest => some (.closeArray, rest)
  | '\x7b' :: rest => some (.openObject, rest)
  | '\x7d' :: rest => some (.closeObject, rest)
  | ',' :: rest => some (.comma, rest)
  | ':' :: rest => some (.colon, rest)
  | '"' :: rest => (readString? rest).map fun s => (.string (String.ofList s.1), s.2)
  | _ => readWord? t <|> readNumber? t

theorem length_of_readWord? {t rest : Text} {token : Token} (h : readWord? t = some (token, rest)) :
    rest.length < t.length := by
  unfold readWord? at h
  split at h
  · next word hword =>
    simp only [Option.some.injEq, Prod.mk.injEq] at h
    have hprefix := List.find?_some hword
    have hle := (List.isPrefixOf_iff_prefix.1 hprefix).length_le
    have hmem := List.mem_of_find?_eq_some hword
    have hpos : 0 < word.text.length := by
      simp only [List.mem_cons, List.not_mem_nil, or_false] at hmem
      rcases hmem with rfl | rfl | rfl <;> decide
    rw [← h.2, List.length_drop]
    omega
  · simp at h

theorem length_of_readNumber? {t rest : Text} {token : Token}
    (h : readNumber? t = some (token, rest)) : rest.length < t.length := by
  unfold readNumber? at h
  split at h
  · next n u hu =>
    split at h
    · simp only [Option.some.injEq, Prod.mk.injEq] at h
      exact h.2 ▸ Numeral.length_of_read? hu
    · simp at h
  · simp at h

/-- A token takes at least one character. -/
theorem length_of_readToken? {t rest : Text} {token : Token}
    (h : readToken? t = some (token, rest)) : rest.length < t.length := by
  unfold readToken? at h
  split at h
  case h_7 u =>
    obtain ⟨p, hp, hq⟩ := Option.map_eq_some_iff.1 h
    obtain ⟨-, rfl⟩ := Prod.mk.inj hq
    have := length_of_readString? hp
    simp only [List.length_cons]
    omega
  case h_8 =>
    rw [Option.orElse_eq_orElse, Option.orElse_eq_or, Option.or_eq_some_iff] at h
    rcases h with h | ⟨_, h⟩
    · exact length_of_readWord? h
    · exact length_of_readNumber? h
  all_goals
    simp only [Option.some.injEq, Prod.mk.injEq] at h
    simp [h.2]

/-- Cuts a text into tokens. -/
def tokenize? (t : Text) : Option (List Token) :=
  match t with
  | [] => some []
  | c :: rest =>
    if isSpace c then tokenize? rest
    else
      match h : readToken? (c :: rest) with
      | some (token, rest') =>
        have := length_of_readToken? h
        (tokenize? rest').map (token :: ·)
      | none => none
termination_by t.length
decreasing_by
  · exact Nat.lt_succ_self _
  · assumption

end TicketMarkup.Json
