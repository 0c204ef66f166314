import TicketMarkup.Text.Basic

/-!
# References to links and images

A reference is written `[label](target "title")`; the title may be missing, and blanks may stand
around the target and before the closing parenthesis. The label runs to the first `]`, the target
to the first blank or `)`, the title to the first quote. Reading keeps every blank, so that
`Spelling.text` gives back exactly the text that was read: `read?_isPrefix`.
-/

namespace TicketMarkup

/-- What a link or an image refers to. -/
structure Reference where
  label : Text
  target : Text
  title : Option Text
  deriving Repr, DecidableEq

/-- The two uses of a reference; an image is marked by a `!` in front and needs a target. -/
inductive ReferenceKind
  | link
  | image
  deriving Repr, DecidableEq

namespace Reference

/-- A character that can stand in a target. -/
def isTargetChar (c : Char) : Bool := !isBlank c && c != ')'

/-- The end of a reference: a title with the blanks before it, and the blanks before the closing
parenthesis. -/
structure Ending where
  title : Option (Text × Text)
  space : Text
  deriving Repr, DecidableEq

/-- A reference as it is written, blanks included. -/
structure Spelling where
  label : Text
  lead : Text
  target : Text
  ending : Ending
  deriving Repr, DecidableEq

/-- The text of an ending. -/
def Ending.text (e : Ending) : Text :=
  match e.title with
  | none => e.space ++ [')']
  | some (gap, title) => gap ++ '"' :: title ++ '"' :: e.space ++ [')']

/-- The text of a reference, from its bracket to its closing parenthesis. -/
def Spelling.text (s : Spelling) : Text :=
  '[' :: s.label ++ ']' :: '(' :: s.lead ++ s.target ++ s.ending.text

/-- The reference that a spelling writes. -/
def Spelling.reference (s : Spelling) : Reference :=
  ⟨s.label, s.target, s.ending.title.map Prod.snd⟩

/-- Reads the end of a reference at the head of a text. -/
def Ending.read? (t : Text) : Option Ending :=
  let gap := t.takeWhile isBlank
  match t.dropWhile isBlank with
  | ')' :: _ => some ⟨none, gap⟩
  | '"' :: u =>
    if gap.isEmpty then none
    else
      match u.dropWhile (· != '"') with
      | '"' :: v =>
        match v.dropWhile isBlank with
        | ')' :: _ => some ⟨some (gap, u.takeWhile (· != '"')), v.takeWhile isBlank⟩
        | _ => none
      | _ => none
  | _ => none

/-- Reads a target and the end of the reference, after the opening parenthesis. -/
def readTarget? (kind : ReferenceKind) (label t : Text) : Option Spelling :=
  let lead := t.takeWhile isBlank
  let rest := t.dropWhile isBlank
  let target := rest.takeWhile isTargetChar
  if kind = .image ∧ target = [] then none
  else (Ending.read? (rest.dropWhile isTargetChar)).map (⟨label, lead, target, ·⟩)

/-- Reads a title right after the opening parenthesis, which leaves the target of a link empty. -/
def readUntargeted? (kind : ReferenceKind) (label t : Text) : Option Spelling :=
  match kind with
  | .link => (Ending.read? t).map (⟨label, [], [], ·⟩)
  | .image => none

/-- Reads a reference at the head of a text, from its bracket on. -/
def read? (kind : ReferenceKind) : Text → Option Spelling
  | '[' :: t =>
    match t.dropWhile (· != ']') with
    | ']' :: '(' :: rest =>
      let label := t.takeWhile (· != ']')
      readTarget? kind label rest <|> readUntargeted? kind label rest
    | _ => none
  | _ => none

/-- How far the failure of a reference that opens at the head of a text reaches: up to its `]`, or
to the end of its target if a parenthesis follows the `]`. -/
def failureLength (t : Text) : Nat :=
  let label := t.takeWhile (· != ']')
  match t.dropWhile (· != ']') with
  | ']' :: '(' :: rest =>
    let target := (rest.dropWhile isBlank).takeWhile isTargetChar
    label.length + 2 + (rest.takeWhile isBlank).length + target.length
  | _ => label.length

theorem Ending.read?_isPrefix {t : Text} {e : Ending} (h : read? t = some e) : e.text <+: t := by
  have split (p : Char → Bool) (l : Text) : l = l.takeWhile p ++ l.dropWhile p :=
    List.takeWhile_append_dropWhile.symm
  simp only [read?] at h
  split at h
  · next u hu =>
    obtain rfl := Option.some.inj h
    refine ⟨u, ?_⟩
    conv => rhs; rw [split isBlank t, hu]
    simp [text]
  · next u hu =>
    split at h
    · simp at h
    · split at h
      · next v hv =>
        split at h
        · next w hw =>
          obtain rfl := Option.some.inj h
          refine ⟨w, ?_⟩
          conv => rhs; rw [split isBlank t, hu, split (· != '"') u, hv, split isBlank v, hw]
          simp [text]
        · simp at h
      · simp at h
  · simp at h

/-- A reference is read off the head of the text, with nothing lost. -/
theorem read?_isPrefix {kind : ReferenceKind} {t : Text} {s : Spelling}
    (h : read? kind t = some s) : s.text <+: t := by
  have split (p : Char → Bool) (l : Text) : l = l.takeWhile p ++ l.dropWhile p :=
    List.takeWhile_append_dropWhile.symm
  unfold read? at h
  split at h
  · next t =>
    split at h
    · next rest hrest =>
      rw [Option.orElse_eq_orElse, Option.orElse_eq_or, Option.or_eq_some_iff] at h
      have ht : t = t.takeWhile (· != ']') ++ ']' :: '(' :: rest := hrest ▸ split (· != ']') t
      rcases h with h | ⟨_, h⟩
      · simp only [readTarget?] at h
        split at h
        · simp at h
        · obtain ⟨e, he, rfl⟩ := Option.map_eq_some_iff.1 h
          obtain ⟨w, hw⟩ := Ending.read?_isPrefix he
          refine ⟨w, ?_⟩
          conv => rhs; rw [ht, split isBlank rest, split isTargetChar (rest.dropWhile isBlank), ← hw]
          simp [Spelling.text]
      · cases kind with
        | image => simp [readUntargeted?] at h
        | link =>
          obtain ⟨e, he, rfl⟩ := Option.map_eq_some_iff.1 h
          obtain ⟨w, hw⟩ := Ending.read?_isPrefix he
          refine ⟨w, ?_⟩
          conv => rhs; rw [ht, ← hw]
          simp [Spelling.text]
    · simp at h
  · simp at h

end Reference

end TicketMarkup
