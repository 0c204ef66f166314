import TicketMarkup.Json.Basic

/-!
# JSON numerals

The written form of a JSON number: a sign, the digits before the point without needless zeros, and
optionally a fraction and an exponent. A numeral whose value does not fit a double is refused: the
digits that fit 64 bits, rounded to a double, times the power of ten that is left, itself rounded to
a double, must stay below the point from which on products round to infinity.
-/

namespace TicketMarkup.Json

/-- A written number, as its digits. -/
structure Numeral where
  negative : Bool
  whole : Text
  fraction : Option Text
  exponent : Option (Bool × Text)
  deriving Repr, DecidableEq

/-- The value of a decimal digit. -/
def digitValue (c : Char) : Nat := c.toNat - '0'.toNat

/-- The number that decimal digits write. -/
def ofDigits (digits : Text) : Nat := digits.foldl (fun n c => 10 * n + digitValue c) 0

namespace Numeral

/-- The exponent, zero if none is written. -/
def exponentValue (n : Numeral) : Int :=
  match n.exponent with
  | none => 0
  | some (negative, digits) => if negative then -(ofDigits digits : Int) else ofDigits digits

/-- The leading digits of a number as far as they fit 64 bits, and the power of ten that scales
them; `full` says that a digit did not fit. -/
structure Leading where
  significand : Nat
  scale : Int
  full : Bool
  deriving Repr, DecidableEq

/-- Takes in a digit; the scale grows by `taken` or `dropped` as the digit fits or does not. -/
def Leading.push (taken dropped : Int) (l : Leading) (digit : Char) : Leading :=
  let next := 10 * l.significand + digitValue digit
  if !l.full && next < UInt64.size then ⟨next, l.scale + taken, false⟩
  else ⟨l.significand, l.scale + dropped, true⟩

/-- The leading digits of a numeral: a digit before the point that does not fit scales the number
up, one after the point is left out. -/
def leading (n : Numeral) : Leading :=
  let whole := n.whole.foldl (Leading.push 0 1) ⟨0, 0, false⟩
  let all := (n.fraction.getD []).foldl (Leading.push (-1) 0) { whole with full := false }
  { all with scale := all.scale + n.exponentValue }

/-- The nearest natural number with at most 53 significant bits, of two the one with an even last
bit. -/
def round53 (n : Nat) : Nat :=
  if n < 1 <<< 53 then n
  else
    let unit := 1 <<< (n.log2 - 52)
    let down := n / unit
    let rest := n % unit
    if unit < 2 * rest ∨ (2 * rest = unit ∧ down % 2 = 1) then (down + 1) * unit else down * unit

/-- The least product that rounds to infinity: half a unit above the greatest double. -/
def overflowPoint : Nat := 1 <<< 1024 - 1 <<< 970

/-- The value fits a double. -/
def inRange (n : Numeral) : Bool :=
  let l := n.leading
  l.significand == 0 || l.scale < 0 || (l.scale ≤ 308 &&
    round53 l.significand * round53 (Nat.pow 10 l.scale.toNat) < overflowPoint)

/-- The number that a numeral writes. -/
def number (n : Numeral) : JsonNumber :=
  match n.negative, n.fraction, n.exponent with
  | false, none, none =>
    if ofDigits n.whole < UInt64.size then .natural (ofDigits n.whole)
    else .decimal false (ofDigits n.whole) 0
  | negative, fraction, _ =>
    let fraction := fraction.getD []
    .decimal negative (ofDigits (n.whole ++ fraction)) (n.exponentValue - fraction.length)

/-- The digits before the point: a zero on its own, or digits that do not start with zero. -/
def wholeDigits (t : Text) : Text :=
  match t with
  | '0' :: _ => ['0']
  | _ => t.takeWhile Char.isDigit

/-- Reads an optional fraction; a point without digits after it is an error. -/
def readFraction? (t : Text) : Option (Option Text × Text) :=
  match t with
  | '.' :: rest =>
    let digits := rest.takeWhile Char.isDigit
    if digits = [] then none else some (some digits, rest.dropWhile Char.isDigit)
  | _ => some (none, t)

/-- Reads the sign of an exponent: whether it is negative, and what follows. -/
def readSign (t : Text) : Bool × Text :=
  match t with
  | '+' :: rest => (false, rest)
  | '-' :: rest => (true, rest)
  | _ => (false, t)

/-- Reads an optional exponent; a mark without digits after it is an error. -/
def readExponent? (t : Text) : Option (Option (Bool × Text) × Text) :=
  match t with
  | [] => some (none, [])
  | c :: rest =>
    if c = 'e' ∨ c = 'E' then
      let (negative, rest) := readSign rest
      let digits := rest.takeWhile Char.isDigit
      if digits = [] then none else some (some (negative, digits), rest.dropWhile Char.isDigit)
    else some (none, t)

/-- Reads a numeral without its sign. -/
def readUnsigned? (negative : Bool) (t : Text) : Option (Numeral × Text) :=
  let whole := wholeDigits t
  if whole = [] then none
  else
    match readFraction? (t.drop whole.length) with
    | none => none
    | some (fraction, t) =>
      match readExponent? t with
      | none => none
      | some (exponent, t) => some (⟨negative, whole, fraction, exponent⟩, t)

/-- Reads a numeral at the head of a text. -/
def read? : Text → Option (Numeral × Text)
  | '-' :: t => readUnsigned? true t
  | t => readUnsigned? false t

theorem length_dropWhile_le (p : Char → Bool) (t : Text) : (t.dropWhile p).length ≤ t.length :=
  (List.dropWhile_sublist p).length_le

theorem length_of_readFraction? {t rest : Text} {fraction : Option Text}
    (h : readFraction? t = some (fraction, rest)) : rest.length ≤ t.length := by
  unfold readFraction? at h
  split at h
  · next u =>
    simp only at h
    split at h
    · simp at h
    · simp only [Option.some.injEq, Prod.mk.injEq] at h
      have := length_dropWhile_le Char.isDigit u
      simp only [← h.2, List.length_cons]
      omega
  · simp only [Option.some.injEq, Prod.mk.injEq] at h
    simp [h.2]

theorem length_readSign (t : Text) : (readSign t).2.length ≤ t.length := by
  unfold readSign
  split <;> simp

theorem length_of_readExponent? {t rest : Text} {exponent : Option (Bool × Text)}
    (h : readExponent? t = some (exponent, rest)) : rest.length ≤ t.length := by
  unfold readExponent? at h
  split at h
  · simp_all
  · next c u =>
    split at h
    · simp only at h
      split at h
      · simp at h
      · simp only [Option.some.injEq, Prod.mk.injEq] at h
        have := length_dropWhile_le Char.isDigit (readSign u).2
        have := length_readSign u
        simp only [← h.2, List.length_cons]
        omega
    · simp only [Option.some.injEq, Prod.mk.injEq] at h
      simp [← h.2]

theorem length_of_readUnsigned? {negative : Bool} {t rest : Text} {n : Numeral}
    (h : readUnsigned? negative t = some (n, rest)) : rest.length < t.length := by
  have hwhole : (wholeDigits t).length ≤ t.length := by
    unfold wholeDigits
    split
    · simp
    · exact (List.takeWhile_sublist _).length_le
  simp only [readUnsigned?] at h
  split at h
  · simp at h
  · next hne =>
    have hpos := List.length_pos_iff.2 hne
    split at h
    · simp at h
    · next fraction u hu =>
      split at h
      · simp at h
      · next exponent v hv =>
        simp only [Option.some.injEq, Prod.mk.injEq] at h
        have hlen := length_of_readFraction? hu
        have := length_of_readExponent? hv
        rw [List.length_drop] at hlen
        rw [← h.2]
        omega

/-- A numeral takes at least one character. -/
theorem length_of_read? {t rest : Text} {n : Numeral} (h : read? t = some (n, rest)) :
    rest.length < t.length := by
  unfold read? at h
  split at h
  · have := length_of_readUnsigned? h
    simp only [List.length_cons]
    omega
  · exact length_of_readUnsigned? h

end Numeral

end TicketMarkup.Json
