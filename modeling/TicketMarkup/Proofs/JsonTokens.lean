import TicketMarkup.Json.Printer
import Mathlib.Data.List.Chain

/-!
# Printed JSON as tokens

`tokenize?_print`: the text of a value, in either layout, is cut into the tokens of the value, if
its numbers are natural numbers below `2 ^ 64`.

1. Every escape is read back as its character, so every string is read up to its closing quote
   (`readString?_flatMap_escape`).
2. The digits of a natural number below `2 ^ 64` are read back as that number, if what follows does
   not go on with the numeral (`readNumber?_ofNat_append`).
3. Tokens are cut off one after the other. Only two numbers next to each other would run together,
   and the tokens of a value have none (`isChain_tokens_append`).
-/

namespace TicketMarkup.Json

variable {t rest : Text}

/-! ## Strings -/

theorem readString?_quote (t : Text) : readString? ('"' :: t) = some ([], t) := by
  rw [readString?]
  rfl

theorem readString?_escaped {c : Char} (h : escaped? t = some (c, rest)) :
    readString? ('\\' :: t) = (readString? rest).map fun s => (c :: s.1, s.2) := by
  rw [readString?]
  simp only [Char.reduceEq, if_false, if_true]
  split
  · next d rest' hd =>
    rw [h] at hd
    obtain ⟨rfl, rfl⟩ := Prod.mk.inj (Option.some.inj hd)
    rfl
  · next hnone => simp [h] at hnone

theorem readString?_plain {c : Char} (hquote : c ≠ '"') (hslash : c ≠ '\\') (hc : ¬c.toNat < 0x20)
    (t : Text) : readString? (c :: t) = (readString? t).map fun s => (c :: s.1, s.2) := by
  rw [readString?, if_neg hquote, if_neg hslash, if_neg hc]

theorem hexDigit?_digitChar : ∀ d < 16, hexDigit? (Nat.digitChar d) = some d := by decide

/-- A control character is read back from its number. -/
theorem escaped?_hexByte {c : Char} (hc : c.toNat < 0x20) (t : Text) :
    escaped? ('u' :: '0' :: '0' :: (hexByte c.toNat ++ t)) = some (c, t) := by
  have hzero : hexDigit? '0' = some 0 := rfl
  have hhigh := hexDigit?_digitChar (c.toNat / 16) (by omega)
  have hlow := hexDigit?_digitChar (c.toNat % 16) (by omega)
  have hnumber : ((0 * 16 + 0) * 16 + c.toNat / 16) * 16 + c.toNat % 16 = c.toNat := by omega
  have hread : hex? ('0' :: '0' :: (hexByte c.toNat ++ t)) = some (c.toNat, t) := by
    show (do
      let a ← hexDigit? '0'
      let b ← hexDigit? '0'
      let high ← hexDigit? (Nat.digitChar (c.toNat / 16))
      let low ← hexDigit? (Nat.digitChar (c.toNat % 16))
      some (((a * 16 + b) * 16 + high) * 16 + low, t)) = some (c.toNat, t)
    rw [hzero, hhigh, hlow]
    exact congrArg (fun n => some (n, t)) hnumber
  show unicodeEscape? ('0' :: '0' :: (hexByte c.toNat ++ t)) = some (c, t)
  rw [unicodeEscape?, hread]
  simp only
  rw [if_neg (by omega), if_neg (by omega), Char.ofNat_toNat]

/-- An escape is read back as its character. -/
theorem readString?_escape_append (c : Char) (t : Text) :
    readString? (escape c ++ t) = (readString? t).map fun s => (c :: s.1, s.2) := by
  unfold escape
  split
  case h_8 hquote hslash _ _ _ _ _ =>
    split
    · next hc => exact readString?_escaped (escaped?_hexByte hc t)
    · next hc => exact readString?_plain hquote hslash hc t
  all_goals exact readString?_escaped rfl

/-- A string is read up to its closing quote. -/
theorem readString?_flatMap_escape (s t : Text) :
    readString? (s.flatMap escape ++ '"' :: t) = some (s, t) := by
  induction s with
  | nil => exact readString?_quote t
  | cons c s ih =>
    rw [List.flatMap_cons, List.append_assoc, readString?_escape_append, ih]
    rfl

/-! ## Numbers -/

/-- A character that can stand in a numeral behind its first digit. -/
def continuesNumeral (c : Char) : Bool := c.isDigit || c = '.' || c = 'e' || c = 'E'

/-- A text does not go on with a numeral. -/
def EndsNumeral (t : Text) : Prop := ∀ c ∈ t.head?, continuesNumeral c = false

theorem endsNumeral_cons {c : Char} :
    EndsNumeral (c :: t) ↔ c.isDigit = false ∧ c ≠ '.' ∧ c ≠ 'e' ∧ c ≠ 'E' := by
  simp [EndsNumeral, continuesNumeral, and_assoc]

theorem isDigit_of_mem_ofNat {n : Nat} {c : Char} (h : c ∈ Text.ofNat n) : c.isDigit :=
  Nat.isDigit_of_mem_toDigits (by decide) (by decide) h

theorem ofDigits_ofNat (n : Nat) : ofDigits (Text.ofNat n) = n :=
  Nat.ofDigitChars_toDigits (by decide) (by decide)

theorem head?_ofNat_ne_zero {n : Nat} (h : 0 < n) : (Text.ofNat n).head? ≠ some '0' := by
  induction n using Nat.strong_induction_on with
  | _ n ih =>
    by_cases hlt : n < 10
    · have hdigit : ∀ d < 10, 0 < d → [Nat.digitChar d].head? ≠ some '0' := by decide
      rw [Text.ofNat, Nat.toDigits_of_lt_base hlt]
      exact hdigit n hlt h
    · rw [Text.ofNat, Nat.toDigits_of_base_le (by decide) (by omega),
        List.head?_append_of_ne_nil _ Nat.toDigits_ne_nil]
      exact ih (n / 10) (by omega) (by omega)

namespace Numeral

theorem wholeDigits_ofNat_append (n : Nat) (h : EndsNumeral t) :
    wholeDigits (Text.ofNat n ++ t) = Text.ofNat n := by
  have htake : (Text.ofNat n ++ t).takeWhile Char.isDigit = Text.ofNat n := by
    rw [List.takeWhile_append_of_pos fun c hc => isDigit_of_mem_ofNat hc]
    cases t with
    | nil => simp
    | cons c t => simp [(endsNumeral_cons.1 h).1]
  unfold wholeDigits
  split
  · next rest hrest =>
    cases n with
    | zero => rfl
    | succ n =>
      have hne : Text.ofNat (n + 1) ≠ [] := Nat.toDigits_ne_nil
      have hhead := congrArg List.head? hrest
      rw [List.head?_append_of_ne_nil _ hne] at hhead
      exact absurd hhead (head?_ofNat_ne_zero n.succ_pos)
  · exact htake

theorem readUnsigned?_ofNat_append (n : Nat) (h : EndsNumeral t) :
    readUnsigned? false (Text.ofNat n ++ t) = some (⟨false, Text.ofNat n, none, none⟩, t) := by
  have hfraction : readFraction? t = some (none, t) := by
    unfold readFraction?
    split
    · exact absurd rfl (endsNumeral_cons.1 h).2.1
    · rfl
  have hexponent : readExponent? t = some (none, t) := by
    unfold readExponent?
    split
    · rfl
    · next c rest =>
      obtain ⟨-, -, he, hE⟩ := endsNumeral_cons.1 h
      rw [if_neg (by simp [he, hE])]
  have hne : Text.ofNat n ≠ [] := Nat.toDigits_ne_nil
  simp only [readUnsigned?]
  rw [wholeDigits_ofNat_append n h, if_neg hne, List.drop_left, hfraction]
  simp only
  rw [hexponent]

/-! ### The range of a double -/

theorem le_foldl_digits (digits : Text) (k : Nat) :
    k ≤ digits.foldl (fun n c => 10 * n + digitValue c) k := by
  induction digits generalizing k with
  | nil => exact Nat.le_refl k
  | cons c digits ih => exact Nat.le_trans (by omega) (ih (10 * k + digitValue c))

/-- Digits of a number below `2 ^ 64` are all taken in. -/
theorem foldl_push {digits : Text} {k : Nat}
    (h : digits.foldl (fun n c => 10 * n + digitValue c) k < UInt64.size) :
    digits.foldl (Leading.push 0 1) ⟨k, 0, false⟩ =
      ⟨digits.foldl (fun n c => 10 * n + digitValue c) k, 0, false⟩ := by
  induction digits generalizing k with
  | nil => rfl
  | cons c digits ih =>
    have hlt : 10 * k + digitValue c < UInt64.size :=
      Nat.lt_of_le_of_lt (le_foldl_digits digits _) h
    have hpush : Leading.push 0 1 ⟨k, 0, false⟩ c = ⟨10 * k + digitValue c, 0, false⟩ := by
      simp [Leading.push, hlt]
    rw [List.foldl_cons, hpush, ih h]
    rfl

theorem round53_le (n : Nat) : round53 n ≤ 2 * n := by
  unfold round53
  split
  · omega
  · next hn =>
    have hunit : 1 <<< (n.log2 - 52) ≤ n := by
      rw [Nat.one_shiftLeft]
      have hne : n ≠ 0 := by
        rintro rfl
        exact hn (by decide)
      exact Nat.le_trans (Nat.pow_le_pow_right (by decide) (Nat.sub_le _ _)) (Nat.log2_self_le hne)
    generalize 1 <<< (n.log2 - 52) = unit at hunit
    have hdown : n / unit * unit ≤ n := Nat.div_mul_le_self n unit
    simp only
    split
    · rw [Nat.add_mul]
      omega
    · omega

theorem inRange_of_lt {digits : Text} (h : ofDigits digits < UInt64.size) :
    inRange ⟨false, digits, none, none⟩ := by
  have hleading : leading ⟨false, digits, none, none⟩ = ⟨ofDigits digits, 0, false⟩ := by
    simp only [leading, foldl_push h]
    rfl
  have hproduct : round53 (ofDigits digits) * round53 1 < overflowPoint :=
    calc round53 (ofDigits digits) * round53 1 ≤ 2 * UInt64.size * 2 :=
          Nat.mul_le_mul (Nat.le_trans (round53_le _) (by omega)) (round53_le 1)
      _ < overflowPoint := by decide +kernel
  simp [inRange, hleading, hproduct]

end Numeral

/-- The digits of a natural number are read back as the number. -/
theorem readNumber?_ofNat_append {n : Nat} (hn : n < UInt64.size) (h : EndsNumeral t) :
    readNumber? (Text.ofNat n ++ t) = some (.number (.natural n), t) := by
  have hread : Numeral.read? (Text.ofNat n ++ t) =
      some (⟨false, Text.ofNat n, none, none⟩, t) := by
    unfold Numeral.read?
    split
    · next rest hrest =>
      have hne : Text.ofNat n ≠ [] := Nat.toDigits_ne_nil
      have hmem : '-' ∈ (Text.ofNat n).head? := by
        rw [← List.head?_append_of_ne_nil _ hne, hrest]
        rfl
      exact absurd (isDigit_of_mem_ofNat (List.mem_of_mem_head? hmem)) (by decide)
    · exact Numeral.readUnsigned?_ofNat_append n h
  rw [← ofDigits_ofNat n] at hn
  rw [readNumber?, hread]
  simp only
  rw [if_pos (Numeral.inRange_of_lt hn), Numeral.number]
  simp only
  rw [if_pos hn, ofDigits_ofNat]

/-! ## Tokens -/

theorem isSpace_ne_of_isDigit {c : Char} (h : c.isDigit) : isSpace c = false := by
  have hne (d : Char) (hd : d.isDigit = false) : c ≠ d := by
    rintro rfl
    simp [hd] at h
  simp [isSpace, hne ' ' rfl, hne '\t' rfl, hne '\n' rfl, hne '\r' rfl]

theorem readToken?_of_isDigit {c : Char} (h : c.isDigit) (t : Text) :
    readToken? (c :: t) = readNumber? (c :: t) := by
  have hne (d : Char) (hd : d.isDigit = false) : d ≠ c := by
    rintro rfl
    simp [hd] at h
  have hword : readWord? (c :: t) = none := by
    simp [readWord?, Token.text, hne 'n' rfl, hne 't' rfl, hne 'f' rfl]
  unfold readToken?
  split
  case h_8 => rw [hword]; rfl
  all_goals next heq => exact absurd (List.head_eq_of_cons_eq heq).symm (hne _ rfl)

namespace Token

/-- A token whose number, if it is one, is a natural number below `2 ^ 64`. -/
def IsRegular : Token → Prop
  | number (.natural n) => n < UInt64.size
  | number (.decimal ..) => False
  | _ => True

/-- A token that is a number. -/
def IsNumber : Token → Prop
  | number _ => True
  | _ => False

/-- Two tokens do not run together. -/
def Parts (a b : Token) : Prop := ¬(a.IsNumber ∧ b.IsNumber)

/-- A token starts with a character that is no blank. Only a number goes on with a numeral. -/
theorem exists_text_eq_cons {token : Token} (h : token.IsRegular) :
    ∃ c t, token.text = c :: t ∧ isSpace c = false ∧
      (¬token.IsNumber → continuesNumeral c = false) := by
  cases token with
  | bool b => cases b <;> exact ⟨_, _, rfl, rfl, fun _ => rfl⟩
  | number n =>
    cases n with
    | natural n =>
      have hne : Text.ofNat n ≠ [] := Nat.toDigits_ne_nil
      obtain ⟨c, t, hcons⟩ := List.exists_cons_of_ne_nil hne
      have hdigit : c.isDigit := isDigit_of_mem_ofNat (hcons ▸ List.mem_cons_self ..)
      exact ⟨c, t, hcons, isSpace_ne_of_isDigit hdigit, fun hnumber => absurd trivial hnumber⟩
    | decimal => exact absurd h id
  | _ => exact ⟨_, _, rfl, rfl, fun _ => rfl⟩

/-- A token is read back, also in front of other text, unless that goes on with its numeral. -/
theorem readToken?_text_append {token : Token} (h : token.IsRegular)
    (hends : token.IsNumber → EndsNumeral t) : readToken? (token.text ++ t) = some (token, t) := by
  cases token with
  | bool b => cases b <;> rfl
  | number n =>
    cases n with
    | natural n =>
      have hne : Text.ofNat n ≠ [] := Nat.toDigits_ne_nil
      obtain ⟨c, u, hcons⟩ := List.exists_cons_of_ne_nil hne
      have hdigit : c.isDigit := isDigit_of_mem_ofNat (hcons ▸ List.mem_cons_self ..)
      show readToken? (Text.ofNat n ++ t) = some (.number (.natural n), t)
      rw [hcons, List.cons_append, readToken?_of_isDigit hdigit, ← List.cons_append, ← hcons,
        readNumber?_ofNat_append h (hends trivial)]
    | decimal => exact absurd h id
  | string s =>
    show (readString? (s.toList.flatMap escape ++ ['"'] ++ t)).map _ = _
    rw [List.append_assoc, List.singleton_append, readString?_flatMap_escape]
    simp
  | _ => rfl

end Token

theorem tokenize?_cons {c : Char} (h : isSpace c = false) {token : Token}
    (hread : readToken? (c :: t) = some (token, rest)) :
    tokenize? (c :: t) = (tokenize? rest).map (token :: ·) := by
  rw [tokenize?, h, if_neg (by decide)]
  split
  · next token' rest' heq =>
    rw [hread] at heq
    obtain ⟨rfl, rfl⟩ := Prod.mk.inj (Option.some.inj heq)
    rfl
  · next hnone => simp [hread] at hnone

theorem tokenize?_blanks_append {blanks : Text} (h : ∀ c ∈ blanks, isSpace c) (t : Text) :
    tokenize? (blanks ++ t) = tokenize? t := by
  induction blanks with
  | nil => rfl
  | cons c blanks ih =>
    rw [List.forall_mem_cons] at h
    rw [List.cons_append, tokenize?, if_pos h.1, ih h.2]

/-! ## Layouts -/

namespace Layout

/-- The token that a part of a layout is. -/
def token? : Layout → Option Token
  | token t => some t
  | space | newline _ => none

theorem isSpace_of_mem_text {l : Layout} (h : l.token? = none) : ∀ c ∈ l.text, isSpace c := by
  cases l with
  | token t => simp [token?] at h
  | space => exact List.forall_mem_singleton.2 rfl
  | newline level =>
    intro c hc
    rcases List.mem_cons.1 hc with rfl | hc
    · rfl
    · rw [List.eq_of_mem_replicate hc]
      rfl

end Layout

variable {layouts : List Layout}

/-- A layout that does not start with a number ends every numeral before it. -/
theorem endsNumeral_layouts (hregular : ∀ token ∈ layouts.filterMap Layout.token?, token.IsRegular)
    (h : ∀ token ∈ (layouts.filterMap Layout.token?).head?, ¬token.IsNumber) :
    EndsNumeral (layouts.flatMap Layout.text) := by
  intro c hc
  cases layouts with
  | nil => simp at hc
  | cons l rest =>
    cases l with
    | space | newline =>
      obtain rfl := Option.some.inj hc
      rfl
    | token token =>
      obtain ⟨d, t, htext, -, hends⟩ :=
        Token.exists_text_eq_cons (hregular token (List.mem_cons_self ..))
      rw [List.flatMap_cons, Layout.text, htext] at hc
      obtain rfl := Option.some.inj hc
      exact hends (h token rfl)

/-- Parts of a layout are cut into their tokens. -/
theorem tokenize?_layouts
    (hregular : ∀ token ∈ layouts.filterMap Layout.token?, token.IsRegular)
    (hparts : (layouts.filterMap Layout.token?).IsChain Token.Parts) :
    tokenize? (layouts.flatMap Layout.text) = some (layouts.filterMap Layout.token?) := by
  induction layouts with
  | nil => rw [List.flatMap_nil, tokenize?]; rfl
  | cons l rest ih =>
    rw [List.flatMap_cons]
    cases htoken : l.token? with
    | none =>
      rw [List.filterMap_cons_none htoken] at hregular hparts ⊢
      rw [tokenize?_blanks_append (Layout.isSpace_of_mem_text htoken), ih hregular hparts]
    | some token =>
      rw [List.filterMap_cons_some htoken] at hregular hparts ⊢
      rw [List.forall_mem_cons] at hregular
      rw [List.isChain_cons] at hparts
      obtain ⟨c, t, htext, hspace, -⟩ := token.exists_text_eq_cons hregular.1
      have hends : token.IsNumber → EndsNumeral (rest.flatMap Layout.text) := by
        intro hnumber
        exact endsNumeral_layouts hregular.2 fun next hnext hnext' =>
          hparts.1 next hnext ⟨hnumber, hnext'⟩
      have hl : l.text = token.text := by
        cases l with
        | token => rw [Option.some.inj htoken.symm]; rfl
        | space | newline => simp [Layout.token?] at htoken
      have hread := Token.readToken?_text_append hregular.1 hends
      rw [htext, List.cons_append] at hread
      rw [hl, htext, List.cons_append, tokenize?_cons hspace hread, ih hregular.2 hparts.2]
      rfl

/-! ## Values -/

theorem isChain_cons_of_not_isNumber {token : Token} (h : ¬token.IsNumber) {more : List Token}
    (hmore : more.IsChain Token.Parts) : (token :: more).IsChain Token.Parts :=
  List.isChain_cons.2 ⟨fun _ _ hparts => h hparts.1, hmore⟩

/-- What stands behind an item or a field, a comma or the end of the container, is no number. -/
theorem isChain_separator_append {α : Type} {rest : List α} {more : List Token}
    (hmore : more.IsChain Token.Parts)
    (hhead : rest = [] → ∀ token ∈ more.head?, ¬token.IsNumber) :
    (separator rest ++ more).IsChain Token.Parts ∧
      ∀ token ∈ (separator rest ++ more).head?, ¬token.IsNumber := by
  cases rest with
  | nil => exact ⟨hmore, hhead rfl⟩
  | cons => exact ⟨isChain_cons_of_not_isNumber id hmore, by simp [separator, Token.IsNumber]⟩

mutual

/-- No numbers run together in a value, whatever comes behind it. -/
theorem isChain_tokens_append {more : List Token} (hmore : more.IsChain Token.Parts)
    (hhead : ∀ token ∈ more.head?, ¬token.IsNumber) :
    ∀ json : Json, (json.tokens ++ more).IsChain Token.Parts
  | .null | .bool _ | .string _ => isChain_cons_of_not_isNumber id hmore
  | .number _ => List.isChain_cons.2 ⟨fun token htoken h => hhead token htoken h.2, hmore⟩
  | .array items => by
    have hclose := isChain_cons_of_not_isNumber (show ¬Token.IsNumber .closeArray from id) hmore
    have hitems := isChain_itemTokens_append hclose (by simp [Token.IsNumber]) items
    rw [tokens, List.cons_append, List.cons_append, List.append_assoc]
    exact isChain_cons_of_not_isNumber id hitems
  | .object fields => by
    have hclose := isChain_cons_of_not_isNumber (show ¬Token.IsNumber .closeObject from id) hmore
    have hfields := isChain_fieldTokens_append hclose (by simp [Token.IsNumber]) fields
    rw [tokens, List.cons_append, List.cons_append, List.append_assoc]
    exact isChain_cons_of_not_isNumber id hfields

theorem isChain_itemTokens_append {more : List Token} (hmore : more.IsChain Token.Parts)
    (hhead : ∀ token ∈ more.head?, ¬token.IsNumber) :
    ∀ items : List Json, (itemTokens items ++ more).IsChain Token.Parts
  | [] => hmore
  | item :: rest => by
    have hrest := isChain_itemTokens_append hmore hhead rest
    have hsep := isChain_separator_append hrest fun h : rest = [] => by rwa [h]
    rw [itemTokens, List.append_assoc, List.append_assoc]
    exact isChain_tokens_append hsep.1 hsep.2 item

theorem isChain_fieldTokens_append {more : List Token} (hmore : more.IsChain Token.Parts)
    (hhead : ∀ token ∈ more.head?, ¬token.IsNumber) :
    ∀ fields : List (String × Json), (fieldTokens fields ++ more).IsChain Token.Parts
  | [] => hmore
  | (key, value) :: rest => by
    have hrest := isChain_fieldTokens_append hmore hhead rest
    have hsep := isChain_separator_append hrest fun h : rest = [] => by rwa [h]
    have hvalue := isChain_tokens_append hsep.1 hsep.2 value
    simp only [fieldTokens, List.cons_append, List.append_assoc]
    exact isChain_cons_of_not_isNumber id (isChain_cons_of_not_isNumber id hvalue)

end

theorem isChain_tokens (json : Json) : json.tokens.IsChain Token.Parts := by
  have h := isChain_tokens_append .nil (by simp) json
  rwa [List.append_nil] at h

theorem filterMap_token (tokens : List Token) :
    (tokens.map Layout.token).filterMap Layout.token? = tokens := by
  rw [List.filterMap_map]
  exact List.filterMap_some

mutual

/-- The layout of a value has the tokens of the value. -/
theorem filterMap_layout (level : Nat) :
    ∀ json : Json, (json.layout level).filterMap Layout.token? = json.tokens
  | .null | .bool _ | .number _ | .string _ | .array [] | .object [] => rfl
  | .array (item :: rest) => by
    have h := filterMap_layoutItems (level + 1) (item :: rest)
    simp [layout, List.filterMap_cons, Layout.token?, h, tokens]
  | .object (field :: rest) => by
    have h := filterMap_layoutFields (level + 1) (field :: rest)
    simp [layout, List.filterMap_cons, Layout.token?, h, tokens]

theorem filterMap_layoutItems (level : Nat) :
    ∀ items : List Json, (layoutItems level items).filterMap Layout.token? = itemTokens items
  | [] => rfl
  | item :: rest => by
    have hitem := filterMap_layout level item
    have hrest := filterMap_layoutItems level rest
    simp [layoutItems, List.filterMap_cons, Layout.token?, hitem, hrest, itemTokens,
      filterMap_token, -List.filterMap_map]

theorem filterMap_layoutFields (level : Nat) :
    ∀ fields : List (String × Json),
      (layoutFields level fields).filterMap Layout.token? = fieldTokens fields
  | [] => rfl
  | (key, value) :: rest => by
    have hvalue := filterMap_layout level value
    have hrest := filterMap_layoutFields level rest
    simp [layoutFields, List.filterMap_cons, Layout.token?, hvalue, hrest, fieldTokens,
      filterMap_token, -List.filterMap_map]

end

/-- The numbers of a value are natural numbers below `2 ^ 64`. -/
def IsRegular (json : Json) : Prop := ∀ token ∈ json.tokens, token.IsRegular

theorem isRegular_string (s : String) : (string s).IsRegular := List.forall_mem_singleton.2 trivial

theorem isRegular_ofNat {n : Nat} (h : n < UInt64.size) : (ofNat n).IsRegular :=
  List.forall_mem_singleton.2 h

theorem isRegular_of_mem_separator {α : Type} {rest : List α} :
    ∀ token ∈ separator rest, token.IsRegular := by
  cases rest with
  | nil => exact fun token h => absurd h List.not_mem_nil
  | cons => exact List.forall_mem_singleton.2 trivial

theorem isRegular_array {items : List Json} (h : ∀ item ∈ items, item.IsRegular) :
    (array items).IsRegular := by
  have hitems : ∀ token ∈ itemTokens items, token.IsRegular := by
    induction items with
    | nil => exact fun token h => absurd h List.not_mem_nil
    | cons item rest ih =>
      rw [List.forall_mem_cons] at h
      rw [itemTokens, List.forall_mem_append, List.forall_mem_append]
      exact ⟨⟨h.1, isRegular_of_mem_separator⟩, ih h.2⟩
  rw [IsRegular, tokens, List.cons_append, List.forall_mem_cons, List.forall_mem_append]
  exact ⟨trivial, hitems, List.forall_mem_singleton.2 trivial⟩

theorem isRegular_object {fields : List (String × Json)} (h : ∀ f ∈ fields, f.2.IsRegular) :
    (object fields).IsRegular := by
  have hfields : ∀ token ∈ fieldTokens fields, token.IsRegular := by
    induction fields with
    | nil => exact fun token h => absurd h List.not_mem_nil
    | cons f rest ih =>
      rw [List.forall_mem_cons] at h
      simp only [fieldTokens, List.cons_append, List.forall_mem_cons, List.forall_mem_append]
      exact ⟨trivial, trivial, ⟨h.1, isRegular_of_mem_separator⟩, ih h.2⟩
  rw [IsRegular, tokens, List.cons_append, List.forall_mem_cons, List.forall_mem_append]
  exact ⟨trivial, hfields, List.forall_mem_singleton.2 trivial⟩

/-- **Printed tokens.** The text of a value in either layout is cut into the tokens of the value. -/
theorem tokenize?_print {json : Json} (h : json.IsRegular) (isPretty : Bool) :
    tokenize? (json.print isPretty) = some json.tokens := by
  have hread {layouts : List Layout} (htokens : layouts.filterMap Layout.token? = json.tokens) :
      tokenize? (layouts.flatMap Layout.text) = some json.tokens := by
    rw [← htokens]
    exact tokenize?_layouts (htokens ▸ h) (htokens ▸ isChain_tokens json)
  cases isPretty with
  | true => exact hread (filterMap_layout 0 json)
  | false =>
    have hcompact := hread (filterMap_token json.tokens)
    rwa [List.flatMap_map] at hcompact

end TicketMarkup.Json
