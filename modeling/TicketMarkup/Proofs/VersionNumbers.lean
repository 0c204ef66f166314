import TicketMarkup.Proofs.TextParts
import TicketMarkup.Request

/-!
# Numbers of versions

`ApiVersion.read_eq_iff`: which texts name a version of the tracker's interface, and which error the
others give.

A text names a version if it is the number with marks in front of it, each a `v` of either case, and
blanks around both. One mark at most is what the number is meant to have, but any number of them is
read (`ApiVersion.read_two_marks`).
-/

namespace TicketMarkup.ApiVersion

/-- The text is the number of a version behind marks, blanks at its ends aside. -/
structure NamedBy (version : ApiVersion) (marks t : Text) : Prop where
  isMark : ∀ c ∈ marks, c = 'v' ∨ c = 'V'
  trim : t.trim = marks ++ version.number

variable {version : ApiVersion} {t : Text}

theorem ofText?_of_namedBy {marks : Text} (h : version.NamedBy marks t) :
    ofText? t = some version := by
  have hmarks : ∀ c ∈ marks, decide (c = 'v' ∨ c = 'V') := fun c hc => decide_eq_true (h.isMark c hc)
  rw [ofText?, h.trim]
  cases version with
  | v2 => rw [number, Text.dropWhile_append_cons hmarks (by decide)]; rfl
  | v3 => rw [number, Text.dropWhile_append_cons hmarks (by decide)]; rfl

theorem namedBy_of_ofText? (h : ofText? t = some version) : ∃ marks, version.NamedBy marks t := by
  refine ⟨t.trim.takeWhile fun c => c = 'v' ∨ c = 'V', ?_, ?_⟩
  · intro c hc
    simpa using List.mem_takeWhile_imp hc
  · have hnumber : (t.trim.dropWhile fun c => c = 'v' ∨ c = 'V') = version.number := by
      unfold ofText? at h
      split at h
      · next heq => rw [heq, ← Option.some.inj h]; rfl
      · next heq => rw [heq, ← Option.some.inj h]; rfl
      · exact absurd h (by simp)
    rw [← hnumber, List.takeWhile_append_dropWhile]

theorem ofText?_eq_some_iff : ofText? t = some version ↔ ∃ marks, version.NamedBy marks t :=
  ⟨namedBy_of_ofText?, fun ⟨_, h⟩ => ofText?_of_namedBy h⟩

/-- **Numbers of versions.** A version is read from the texts that name it, with any number of marks.
Every other text gives an error, which holds the text as it stands, also in its message. -/
theorem read_eq_iff (t : Text) :
    (∀ version, read t = .ok version ↔ ∃ marks, NamedBy version marks t) ∧
      ∀ error, read t = .error error ↔
        (∀ version marks, ¬NamedBy version marks t) ∧ error.given = t ∧
          error.message =
            "Unsupported API version: ".toList ++ t ++ ". Use 2 or 3.".toList := by
  have hnamed (version : ApiVersion) :
      ofText? t = some version ↔ ∃ marks, version.NamedBy marks t := ofText?_eq_some_iff
  cases hread : ofText? t with
  | some version =>
    rw [read, hread]
    refine ⟨fun other => ?_, fun error => ?_⟩
    · rw [← hnamed, hread, Except.ok.injEq, Option.some.injEq]
    · refine iff_of_false (by simp) ?_
      rintro ⟨hnone, -⟩
      obtain ⟨marks, h⟩ := (hnamed version).1 hread
      exact hnone version marks h
  | none =>
    rw [read, hread]
    refine ⟨fun version => ?_, fun error => ?_⟩
    · rw [← hnamed, hread]
      simp
    · have hnone : ∀ version marks, ¬NamedBy version marks t := by
        intro version marks h
        rw [ofText?_of_namedBy h] at hread
        simp at hread
      constructor
      · rintro heq
        obtain rfl := Except.error.inj heq
        exact ⟨hnone, rfl, rfl⟩
      · rintro ⟨-, rfl, -⟩
        rfl

/-- A number behind two marks is read, although no single mark, and no number alone, is left of the
text when its blanks are trimmed. -/
theorem read_two_marks :
    let t : Text := "vv2".toList
    read t = .ok .v2 ∧
      ¬∃ (version : ApiVersion) (marks : Text), marks.length ≤ 1 ∧ version.NamedBy marks t := by
  refine ⟨by decide, ?_⟩
  rintro ⟨version, marks, hlength, h⟩
  have htrim := congrArg List.length h.trim
  rw [List.length_append] at htrim
  have hnumber : version.number.length = 1 := by cases version <;> rfl
  have hthree : (Text.trim "vv2".toList).length = 3 := by decide
  omega

end TicketMarkup.ApiVersion
