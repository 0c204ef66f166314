import TicketMarkup.CommandLine.Run
import TicketMarkup.Proofs.DocumentNesting

/-!
# Reading printed documents back

`ofInput_converted`: the readable text of a printed document is that of the document, if no list
item is too deep, and otherwise the printed document is refused as if it were no JSON.

1. The numbers of a document are its version and the levels of headings, so what is printed is read
   back if it is not nested too deeply (`Readable.ofInput_print`).
2. At most 127 containers stand inside each other exactly if the items are at most 30 deep and those
   that are 30 deep show no link (`nesting_le_iff_shallow`). Items may be `maxListDepth` deep, which
   is two more.
-/

namespace TicketMarkup

/-! ## Numbers in documents -/

open Json

theorem isRegular_of_mem_optionalField {name : String} {value : Option Text} :
    ∀ f ∈ optionalField name value, f.2.IsRegular := by
  cases value with
  | none => exact fun f h => absurd h List.not_mem_nil
  | some t => exact List.forall_mem_singleton.2 (isRegular_string _)

theorem Mark.isRegular_toJson (m : Mark) : m.toJson.IsRegular := by
  cases m with
  | link href title =>
    refine isRegular_object (List.forall_mem_cons.2 ⟨isRegular_string _, ?_⟩)
    refine List.forall_mem_singleton.2 (isRegular_object (List.forall_mem_cons.2 ⟨?_, ?_⟩))
    · exact isRegular_string _
    · exact isRegular_of_mem_optionalField
  | _ => exact isRegular_object (List.forall_mem_singleton.2 (isRegular_string _))

theorem Media.isRegular_toJson (m : Media) : m.toJson.IsRegular := by
  refine isRegular_object ?_
  simp only [List.cons_append, List.forall_mem_cons, List.forall_mem_append]
  exact ⟨isRegular_string _, isRegular_string _, isRegular_of_mem_optionalField,
    isRegular_of_mem_optionalField⟩

theorem isRegular_of_mem_languageField {language : Option Text} :
    ∀ f ∈ Node.languageField language, f.2.IsRegular := by
  cases language with
  | none => exact fun f h => absurd h List.not_mem_nil
  | some t =>
    refine List.forall_mem_singleton.2 (isRegular_object (List.forall_mem_singleton.2 ?_))
    exact isRegular_string _

theorem isRegular_of_mem_marksField {marks : List Mark} :
    ∀ f ∈ Node.marksField marks, f.2.IsRegular := by
  unfold Node.marksField
  split_ifs
  · exact fun f h => absurd h List.not_mem_nil
  · refine List.forall_mem_singleton.2 (isRegular_array ?_)
    exact List.forall_mem_map.2 fun m _ => m.isRegular_toJson

namespace Node

mutual

theorem isRegular_toJson : ∀ n : Node, n.toJson.IsRegular
  | container kind content => by
    have hcontent := isRegular_array (isRegular_of_mem_toJsonAll content)
    refine isRegular_object (List.forall_mem_cons.2 ⟨isRegular_string _, ?_⟩)
    exact List.forall_mem_singleton.2 hcontent
  | heading level content => by
    have hlevel : level.toNat < UInt64.size := Nat.lt_trans level.toNat_lt (by decide)
    have hcontent := isRegular_array (isRegular_of_mem_toJsonAll content)
    refine isRegular_object (List.forall_mem_cons.2 ⟨isRegular_string _, ?_⟩)
    refine List.forall_mem_cons.2 ⟨?_, List.forall_mem_singleton.2 hcontent⟩
    exact isRegular_object (List.forall_mem_singleton.2 (isRegular_ofNat hlevel))
  | codeBlock language content => by
    have hcontent := isRegular_array (isRegular_of_mem_toJsonAll content)
    refine isRegular_object (List.forall_mem_cons.2 ⟨isRegular_string _, ?_⟩)
    refine List.forall_mem_append.2 ⟨isRegular_of_mem_languageField, ?_⟩
    exact List.forall_mem_singleton.2 hcontent
  | media m => by
    refine isRegular_object (List.forall_mem_cons.2 ⟨isRegular_string _, ?_⟩)
    exact List.forall_mem_singleton.2 m.isRegular_toJson
  | text t marks => by
    refine isRegular_object (List.forall_mem_cons.2 ⟨isRegular_string _, ?_⟩)
    exact List.forall_mem_cons.2 ⟨isRegular_string _, isRegular_of_mem_marksField⟩
  | rule | hardBreak => isRegular_object (List.forall_mem_singleton.2 (isRegular_string _))

theorem isRegular_of_mem_toJsonAll : ∀ nodes : List Node, ∀ json ∈ toJsonAll nodes, json.IsRegular
  | [] => fun _ h => absurd h List.not_mem_nil
  | n :: rest => List.forall_mem_cons.2 ⟨isRegular_toJson n, isRegular_of_mem_toJsonAll rest⟩

end

end Node

theorem Document.isRegular_toJson (d : Document) : d.toJson.IsRegular := by
  have hversion : d.version.toNat < UInt64.size := Nat.lt_trans d.version.toNat_lt (by decide)
  have hcontent := isRegular_array (Node.isRegular_of_mem_toJsonAll d.content)
  refine isRegular_object (List.forall_mem_cons.2 ⟨isRegular_ofNat hversion, ?_⟩)
  exact List.forall_mem_cons.2 ⟨isRegular_string _, List.forall_mem_singleton.2 hcontent⟩

/-! ## Reading -/

/-- A printed document is read back as the document, unless it is nested too deeply. -/
theorem Readable.ofInput_print (d : Document) (isPretty : Bool) :
    ofInput (d.toJson.print isPretty) =
      if d.toJson.nesting ≤ maxNesting then .ok ((ofField d.toJson).getD [])
      else .error .invalidJson := by
  have hlocate : locate? d.toJson = some d.toJson := rfl
  rw [ofInput, parse?_print d.isRegular_toJson]
  split_ifs
  · simp only [hlocate]
  · rfl

/-- Documents with the item can be read back: it is at most 30 deep, and if it is 30 deep, its text
shows no link. -/
def Event.Shallow : Event → Prop
  | .listItem item => item.depth < 30 ∨ item.depth = 30 ∧ item.text.hasLink = false
  | _ => True

instance : DecidablePred Event.Shallow := fun e => by
  cases e <;> unfold Event.Shallow <;> infer_instance

theorem nesting_le_iff_shallow (item : ListItem) :
    item.nesting ≤ 125 ↔ (Event.listItem item).Shallow := by
  have hfive := Node.nesting_paragraphOfLine_le (k := 1) (Nat.le_refl 1) item.text
  have hsix := nesting_paragraphOfLine_le_six item.text
  have hthree := Node.three_le_nesting_paragraphOfLine item.text
  have hlink : item.text.hasLink = false ↔ (Node.paragraphOfLine item.text).nesting ≤ 5 := by
    rw [hfive]
    simp
  rw [Event.Shallow, hlink, ListItem.nesting]
  omega

/-- **Reading back.** The readable text of a printed document is that of the document, if no item of
its lists is too deep. Otherwise the printed document is refused as if it were no JSON. -/
theorem ofInput_converted (markdown : Text) (isPretty : Bool) :
    Readable.ofInput (CommandLine.Command.converted .document isPretty markdown) =
      if ∀ e ∈ classify markdown, e.event.Shallow then
        .ok ((Readable.ofField (Document.ofMarkdown markdown).toJson).getD [])
      else .error .invalidJson := by
  have hnesting := nesting_ofMarkdown_le markdown (k := 125) (by decide)
  have hshallow : (Document.ofMarkdown markdown).toJson.nesting ≤ maxNesting ↔
      ∀ e ∈ classify markdown, e.event.Shallow := by
    rw [maxNesting, hnesting]
    simp only [nesting_le_iff_shallow, List.mem_map]
    constructor
    · intro h e he
      cases hevent : e.event with
      | listItem item => exact h item ⟨e, he, hevent⟩
      | _ => exact trivial
    · rintro h item ⟨e, he, hevent⟩
      exact hevent ▸ h e he
  rw [CommandLine.Command.converted, Readable.ofInput_print]
  exact if_congr hshallow rfl rfl

/-- Items of 31 levels, one inside the other, give JSON that is not read back. -/
theorem ofInput_converted_31_levels :
    Readable.ofInput (CommandLine.Command.converted .document false
      ((List.range 31).flatMap fun level =>
        List.replicate (2 * level) ' ' ++ ['-', ' ', 'x', '\n'])) = .error .invalidJson := by
  rw [CommandLine.Command.converted, Readable.ofInput_print, if_neg]
  decide +kernel

end TicketMarkup
