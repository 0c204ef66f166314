import TicketMarkup.Proofs.ReadBack
import TicketMarkup.Proofs.SortedFields
import TicketMarkup.Request

/-!
# Reading request bodies back

`ofInput_request`: the readable text of a request body, as it is printed, is the text that was put
into it.

A description is its own document and a comment holds it as its body (`locate?_body`), so both are
read as the value that the version makes of the text (`ofInput_body`). This value is a string or the
document of a plain text, which is not nested deeply (`Document.nesting_ofPlainText_le`).
-/

namespace TicketMarkup

/-- The document of a plain text holds paragraphs of texts without marks. -/
theorem Document.nesting_ofPlainText_le (t : Text) : (ofPlainText t).toJson.nesting ≤ 5 := by
  have hcontent : Node.nestingAll (ofPlainText t).content ≤ 3 := by
    refine Node.nestingAll_le.2 fun n hn => ?_
    obtain ⟨texts, htexts, rfl⟩ := List.mem_map.1 hn
    obtain ⟨paragraph, -, rfl⟩ := List.mem_map.1 (List.mem_of_mem_filter htexts)
    rw [Node.nesting_container]
    refine Nat.succ_le_succ (Nat.succ_le_succ (Node.nestingAll_le.2 fun m hm => ?_))
    obtain ⟨line, -, rfl⟩ := List.mem_map.1 hm
    exact Nat.le_refl 1
  have hdocument : (ofPlainText t).toJson.nesting =
      Node.nestingAll (ofPlainText t).content + 2 := by
    simp [toJson, Node.nestingAll, Json.nesting, Json.nestingFields, Json.ofNat]
  omega

namespace Request

/-- What a text is sent as does not have to be looked for. -/
theorem locate?_ofInput (version : ApiVersion) (isPlain : Bool) (t : Text) :
    Readable.locate? (ofInput version isPlain t) = some (ofInput version isPlain t) := by
  cases version <;> cases isPlain <;> rfl

theorem locate?_body (kind : BodyKind) (version : ApiVersion) (isPlain : Bool) (t : Text) :
    Readable.locate? (body kind version isPlain t) = some (ofInput version isPlain t) := by
  cases kind with
  | description => exact locate?_ofInput version isPlain t
  | comment => rfl

theorem isRegular_ofInput (version : ApiVersion) (isPlain : Bool) (t : Text) :
    (ofInput version isPlain t).IsRegular := by
  cases version <;> cases isPlain <;>
    first | exact Json.isRegular_string _ | exact Document.isRegular_toJson _

theorem isRegular_body (kind : BodyKind) (version : ApiVersion) (isPlain : Bool) (t : Text) :
    (body kind version isPlain t).IsRegular := by
  have hvalue := isRegular_ofInput version isPlain t
  cases kind with
  | description => exact hvalue
  | comment => exact Json.isRegular_object (List.forall_mem_singleton.2 hvalue)

/-- A body is nested at most one deeper than what the text is sent as. -/
theorem nesting_body_le (kind : BodyKind) (version : ApiVersion) (isPlain : Bool) (t : Text) :
    (body kind version isPlain t).nesting ≤ (ofInput version isPlain t).nesting + 1 := by
  cases kind with
  | description => exact Nat.le_succ _
  | comment => simp [body, Json.nesting, Json.nestingFields]

/-- A body is read as what the text is sent as, if that is not nested too deeply. -/
theorem ofInput_body (kind : BodyKind) {version : ApiVersion} {isPlain : Bool} {t : Text}
    (hnesting : (ofInput version isPlain t).nesting < Json.maxNesting) (isPretty : Bool) :
    Readable.ofInput ((body kind version isPlain t).sortKeys.print isPretty) =
      .ok ((Readable.ofField (ofInput version isPlain t)).getD []) :=
  Readable.ofInput_print_sortKeys (isRegular_body kind version isPlain t)
    ((nesting_body_le kind version isPlain t).trans hnesting)
    (locate?_body kind version isPlain t) isPretty

theorem ofField_ofText (t : Text) : Readable.ofField (.ofText t) = some t :=
  congrArg some String.toList_ofList

/-- A body with a string is read as the string. -/
theorem ofInput_body_v2 (kind : BodyKind) (isPlain : Bool) (t : Text) (isPretty : Bool) :
    Readable.ofInput ((body kind .v2 isPlain t).sortKeys.print isPretty) =
      .ok (if isPlain then t else Wiki.ofMarkdown t) := by
  have hvalue : ofInput .v2 isPlain t = .ofText (if isPlain then t else Wiki.ofMarkdown t) := by
    cases isPlain <;> rfl
  have hnesting : (ofInput .v2 isPlain t).nesting < Json.maxNesting := by
    rw [hvalue]
    exact Nat.zero_lt_succ _
  rw [ofInput_body kind hnesting, hvalue, ofField_ofText, Option.getD_some]

theorem isRegular_issue_v2 (draft : IssueDraft) : (issue .v2 draft).IsRegular := by
  refine Json.isRegular_object (List.forall_mem_singleton.2 (Json.isRegular_object ?_))
  refine List.forall_mem_append.2 ⟨?_, ?_⟩
  · simp only [List.forall_mem_cons]
    exact ⟨Json.isRegular_object (List.forall_mem_singleton.2 (Json.isRegular_string _)),
      Json.isRegular_object (List.forall_mem_singleton.2 (Json.isRegular_string _)),
      Json.isRegular_string _, fun f hf => absurd hf List.not_mem_nil⟩
  · cases draft.description with
    | none => exact fun f hf => absurd hf List.not_mem_nil
    | some markdown => exact List.forall_mem_singleton.2 (Json.isRegular_string _)

/-- An issue with a description in wiki markup is read as the description. -/
theorem ofInput_issue_v2 {draft : IssueDraft} {markdown : Text}
    (hdescription : draft.description = some markdown) (isPretty : Bool) :
    Readable.ofInput ((issue .v2 draft).sortKeys.print isPretty) =
      .ok (Wiki.ofMarkdown markdown) := by
  have hnesting : (issue .v2 draft).nesting ≤ Json.maxNesting := by
    simp [issue, hdescription, ofMarkdown, Json.nesting, Json.nestingFields, Json.ofText,
      Json.maxNesting]
  have hlocate : Readable.locate? (issue .v2 draft) =
      some (.ofText (Wiki.ofMarkdown markdown)) := by
    rw [issue, hdescription]
    rfl
  rw [Readable.ofInput_print_sortKeys (isRegular_issue_v2 draft) hnesting hlocate,
    ofField_ofText, Option.getD_some]

end Request

/-- **Reading requests back.** The readable text of a request body, in either layout, is the text in
wiki markup for version 2, the text itself if it is plain, and the readable text of its document for
a plain text in version 3. The readable text of a new issue is its description. -/
theorem ofInput_request (isPretty : Bool) (t : Text) :
    (∀ kind, Readable.ofInput ((Request.body kind .v2 false t).sortKeys.print isPretty) =
      .ok (Wiki.ofMarkdown t)) ∧
    (∀ kind, Readable.ofInput ((Request.body kind .v2 true t).sortKeys.print isPretty) = .ok t) ∧
    (∀ kind, Readable.ofInput ((Request.body kind .v3 true t).sortKeys.print isPretty) =
      .ok ((Readable.ofField (Document.ofPlainText t).toJson).getD [])) ∧
    ∀ draft : IssueDraft,
      Readable.ofInput
        ((Request.issue .v2 { draft with description := some t }).sortKeys.print isPretty) =
        .ok (Wiki.ofMarkdown t) := by
  have hplain : (Request.ofInput .v3 true t).nesting < Json.maxNesting :=
    Nat.lt_of_le_of_lt (Document.nesting_ofPlainText_le t) (by decide)
  refine ⟨fun kind => ?_, fun kind => ?_, fun kind => ?_, fun draft => ?_⟩
  · exact Request.ofInput_body_v2 kind false t isPretty
  · exact Request.ofInput_body_v2 kind true t isPretty
  · exact Request.ofInput_body kind hplain isPretty
  · exact Request.ofInput_issue_v2 rfl isPretty

end TicketMarkup
