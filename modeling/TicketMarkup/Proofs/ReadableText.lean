import TicketMarkup.Proofs.Elements
import TicketMarkup.Proofs.Schema
import TicketMarkup.Readable.Render

/-!
# The text that a document shows

`textContent_ofDocument`: the readable text of a document has all of its texts, in their order and
apart from blanks, unless a text stands where lists and tables have no place for it. In documents
from Markdown none does.

1. Blanks are all that trimming, cutting into lines and drawing on one line can lose (`Text.ink`).
2. Nodes that show what they hold make a list, a table or a sequence that does (`ink_renderAll`,
   `ink_renderItems`, `ink_renderRows`), so every readable node shows what it holds
   (`Node.showsAll_of_isReadable`).
-/

namespace TicketMarkup

/-! ## Texts without blanks -/

namespace Text

/-- The characters of a text that are not blank. -/
def ink (t : Text) : Text := t.filter (!TicketMarkup.isBlank ·)

theorem ink_append (s t : Text) : ink (s ++ t) = s.ink ++ t.ink := List.filter_append ..

theorem ink_cons_of_isBlank {c : Char} (hc : TicketMarkup.isBlank c) (t : Text) :
    ink (c :: t) = t.ink := List.filter_cons_of_neg (by simp [hc])

theorem ink_cons_congr {s t : Text} (h : s.ink = t.ink) (c : Char) :
    ink (c :: s) = ink (c :: t) := by
  rw [ink, List.filter_cons, ← ink, h, ink, ink, List.filter_cons]

theorem ink_sublist {s t : Text} (h : s.Sublist t) : s.ink.Sublist t.ink := h.filter _

theorem ink_eq_nil_iff {t : Text} : t.ink = [] ↔ t.isBlank := by
  simp [ink, isBlank]

theorem ink_trimStart (t : Text) : ink t.trimStart = t.ink := by
  induction t with
  | nil => rfl
  | cons c t ih =>
    by_cases hc : TicketMarkup.isBlank c
    · rw [trimStart, List.dropWhile_cons_of_pos hc, ink_cons_of_isBlank hc]
      exact ih
    · rw [trimStart, List.dropWhile_cons_of_neg hc]

theorem ink_reverse (t : Text) : ink t.reverse = t.ink.reverse := List.filter_reverse ..

theorem ink_trimEnd (t : Text) : ink t.trimEnd = t.ink := by
  have hstart := ink_trimStart t.reverse
  rw [ink_reverse, trimStart] at hstart
  rw [trimEnd, dropEndWhile, ink_reverse, hstart, List.reverse_reverse]

theorem ink_trim (t : Text) : ink t.trim = t.ink := (ink_trimEnd _).trans (ink_trimStart t)

theorem flatten_consFirst (c : Char) (pieces : List Text) :
    (consFirst c pieces).flatten = c :: pieces.flatten := by
  cases pieces <;> rfl

theorem ink_flatten_splitOn {sep : Char} (hsep : TicketMarkup.isBlank sep) (t : Text) :
    ink (splitOn sep t).flatten = t.ink := by
  induction t with
  | nil => rfl
  | cons c t ih =>
    unfold splitOn
    split_ifs with hc
    · rw [hc, ink_cons_of_isBlank hsep]
      exact ih
    · rw [flatten_consFirst, ink_cons_congr ih]

theorem ink_dropSuffix_return (t : Text) : ink (dropSuffix ['\r'] t) = t.ink := by
  rcases eq_dropSuffix_or ['\r'] t with h | h
  · rw [← h]
  · have hreturn : ink ['\r'] = [] := ink_eq_nil_iff.2 (by decide)
    conv_rhs => rw [h, ink_append, hreturn, List.append_nil]

theorem ink_flatten_closeLines (pieces : List Text) :
    ink (closeLines pieces).flatten = ink pieces.flatten := by
  fun_induction closeLines pieces with
  | case1 => rfl
  | case2 last hlast => simp [List.isEmpty_iff.1 hlast]
  | case3 last hlast => rfl
  | case4 p rest hrest ih =>
    rw [List.flatten_cons, List.flatten_cons, ink_append, ink_append, ih, ink_dropSuffix_return]

/-- The lines of a text have all of its characters that are not blank. -/
theorem ink_flatten_lines (t : Text) : ink t.lines.flatten = t.ink := by
  rw [lines, ink_flatten_closeLines, ink_flatten_splitOn (by decide)]

theorem flatten_sublist_join (sep : Text) (texts : List Text) :
    texts.flatten.Sublist (join sep texts) := by
  fun_induction join sep texts with
  | case1 => exact List.Sublist.refl _
  | case2 t => simp
  | case3 t rest hrest ih =>
    rw [List.flatten_cons, List.append_assoc]
    exact (List.Sublist.refl t).append (ih.trans (List.sublist_append_right sep _))

/-- What loses nothing but blanks from every text loses nothing else from texts in a row. -/
theorem ink_flatten_map {f : Text → Text} (h : ∀ t : Text, t.ink.Sublist (f t).ink)
    (texts : List Text) : (ink texts.flatten).Sublist (ink (texts.map f).flatten) := by
  induction texts with
  | nil => exact List.Sublist.refl _
  | cons t rest ih =>
    rw [List.map_cons, List.flatten_cons, List.flatten_cons, ink_append, ink_append]
    exact (h t).append ih

end Text

/-! ## Drawing -/

namespace Element

theorem ink_itemLine (depth : Nat) (marker : Text) (isFirst : Bool) (body : Text) :
    body.ink.Sublist (itemLine depth marker isFirst body).ink := by
  rw [← body.ink_trim, itemLine]
  exact Text.ink_sublist ((List.sublist_append_right _ _).trans (List.sublist_append_left _ _))

theorem ink_headingLine (level : Nat) (body : Text) :
    body.ink.Sublist (headingLine level body).ink := by
  rw [← body.ink_trim, headingLine]
  refine Text.ink_sublist (List.Sublist.trans ?_ (List.sublist_append_left _ _))
  exact (List.sublist_cons_self ' ' _).trans (List.sublist_append_right _ _)

theorem ink_fenced (language body : Text) : body.ink.Sublist (fenced language body).ink := by
  rw [← body.ink_trimEnd, fenced]
  refine Text.ink_sublist (List.Sublist.trans ?_ (List.sublist_append_left _ _))
  exact (List.sublist_cons_self '\n' _).trans (List.sublist_append_right _ _)

theorem ink_quoted (body : Text) : body.ink.Sublist (quoted body).ink := by
  have hline : ∀ line : Text, line.ink.Sublist (Text.trimEnd ('>' :: ' ' :: line)).ink := by
    intro line
    rw [Text.ink_trimEnd]
    exact Text.ink_sublist ((List.sublist_cons_self _ _).trans (List.sublist_cons_self _ _))
  have hunlines := Text.flatten_sublist_join ['\n']
    (body.trimEnd.lines.map fun line => Text.trimEnd ('>' :: ' ' :: line))
  rw [← body.ink_trimEnd, ← Text.ink_flatten_lines, quoted]
  exact (Text.ink_flatten_map hline _).trans
    (Text.ink_sublist (hunlines.trans (List.sublist_append_left _ _)))

theorem ink_cellText (body : Text) : (cellText body).ink = body.ink := by
  have hmap : ∀ t : Text, Text.ink (t.map fun c => if c = '\n' then ' ' else c) = t.ink := by
    intro t
    induction t with
    | nil => rfl
    | cons c t ih =>
      rw [List.map_cons]
      split_ifs with hc
      · rw [hc, Text.ink_cons_of_isBlank (by decide), Text.ink_cons_of_isBlank (by decide), ih]
      · exact Text.ink_cons_congr ih c
  rw [cellText, hmap, Text.ink_trim]

theorem flatten_sublist_rowLine (cells : List Text) : cells.flatten.Sublist (rowLine cells) := by
  rw [rowLine]
  refine (Text.flatten_sublist_join [' ', '|', ' '] cells).trans ?_
  exact (List.sublist_append_right _ _).trans (List.sublist_append_left _ _)

theorem ink_endLine (t : Text) : t.ink.Sublist (endLine t).ink := by
  unfold endLine
  split_ifs
  · exact List.Sublist.refl _
  · exact Text.ink_sublist (List.sublist_append_left _ _)

/-- A node of an unknown type is drawn as what it holds. -/
theorem getD_render_other (depth : Nat) (children : List Element) :
    (render depth (mk .other children)).getD [] = renderAll depth children := by
  show (if renderAll depth children = [] then none else some (renderAll depth children)).getD [] = _
  split_ifs with h
  · exact h.symm
  · rfl

end Element

/-! ## Texts of nodes -/

namespace Node

mutual

/-- The texts of a node and of all nodes below it in preorder, one after the other. -/
def textContent : Node → Text
  | text t _ => t
  | container _ content | heading _ content | codeBlock _ content => textContentAll content
  | media _ | rule | hardBreak => []

/-- The texts of nodes and of all nodes below them in preorder, one after the other. -/
def textContentAll : List Node → Text
  | [] => []
  | n :: rest => textContent n ++ textContentAll rest

end

/-- The node is a text. -/
def isText : Node → Bool
  | text _ _ => true
  | _ => false

end Node

/-- No text stands directly in a list or a table, nor directly in a row. -/
def Container.admits (kind : Container) (content : List Node) : Bool :=
  match kind with
  | bulletList | orderedList => content.all (!·.isText)
  | table => content.all fun row => !row.isText && row.content.all (!·.isText)
  | _ => true

namespace Node

mutual

/-- Every list and table, from the node downwards, has texts only where it can show them. -/
def isReadable : Node → Bool
  | container kind content => kind.admits content && isReadableAll content
  | heading _ content | codeBlock _ content => isReadableAll content
  | media _ | text _ _ | rule | hardBreak => true

/-- All nodes are readable. -/
def isReadableAll : List Node → Bool
  | [] => true
  | n :: rest => isReadable n && isReadableAll rest

end

theorem textContent_eq_of_not_isText {n : Node} (h : n.isText = false) :
    n.textContent = textContentAll n.content := by
  cases n <;> first | rfl | exact absurd h (by simp [isText])

theorem isReadableAll_iff {nodes : List Node} :
    isReadableAll nodes ↔ ∀ n ∈ nodes, n.isReadable := by
  induction nodes with
  | nil => simp [isReadableAll]
  | cons n rest ih => rw [isReadableAll, Bool.and_eq_true, ih, List.forall_mem_cons]

/-- The nodes inside a readable node are readable. -/
theorem isReadable_of_mem_content {n m : Node} (h : n.isReadable) (hm : m ∈ n.content) :
    m.isReadable := by
  cases n with
  | container kind content =>
    rw [isReadable, Bool.and_eq_true] at h
    exact isReadableAll_iff.1 h.2 m hm
  | heading level content => exact isReadableAll_iff.1 h m hm
  | codeBlock language content => exact isReadableAll_iff.1 h m hm
  | _ => exact absurd hm List.not_mem_nil

theorem sizeOf_lt_of_mem_content {n m : Node} (hm : m ∈ n.content) : sizeOf m < sizeOf n := by
  have hcontent := List.sizeOf_lt_of_mem hm
  cases n <;> simp only [content, container.sizeOf_spec, heading.sizeOf_spec,
    codeBlock.sizeOf_spec] at hcontent ⊢ <;> first | omega | exact absurd hm List.not_mem_nil

/-- The text that a node is drawn with, at any depth, has the texts of the node. -/
def Shows (n : Node) : Prop :=
  ∀ depth, n.textContent.ink.Sublist (Text.ink ((n.element.render depth).getD []))

end Node

/-! ## Sequences of nodes -/

namespace Element

open Node

variable {nodes : List Node} {depth : Nat}

theorem ink_renderAll (h : ∀ n ∈ nodes, n.Shows) :
    (textContentAll nodes).ink.Sublist (renderAll depth (nodes.map element)).ink := by
  induction nodes with
  | nil => exact List.Sublist.refl _
  | cons n rest ih =>
    rw [List.forall_mem_cons] at h
    rw [textContentAll, List.map_cons, renderAll, Text.ink_append, Text.ink_append]
    exact (h.1 depth).append (ih h.2)

theorem ink_renderItem {marker : Text} (isFirst : Bool) (h : ∀ n ∈ nodes, n.Shows) :
    (textContentAll nodes).ink.Sublist
      (renderItem depth marker isFirst (nodes.map element)).ink := by
  induction nodes generalizing isFirst with
  | nil => exact List.nil_sublist _
  | cons n rest ih =>
    rw [List.forall_mem_cons] at h
    rw [textContentAll, List.map_cons, renderItem, Text.ink_append]
    split_ifs
    · rw [Text.ink_append]
      exact (h.1 (depth + 1)).append (ih isFirst h.2)
    · rw [Text.ink_append]
      exact ((h.1 depth).trans (ink_itemLine depth marker isFirst _)).append (ih false h.2)

theorem ink_renderItems {ordered : Bool} (number : Nat) (hitems : ∀ i ∈ nodes, i.isText = false)
    (h : ∀ i ∈ nodes, ∀ n ∈ i.content, n.Shows) :
    (textContentAll nodes).ink.Sublist
      (renderItems depth ordered number (nodes.map element)).ink := by
  induction nodes generalizing number with
  | nil => exact List.Sublist.refl _
  | cons i rest ih =>
    rw [List.forall_mem_cons] at hitems h
    rw [textContentAll, textContent_eq_of_not_isText hitems.1, List.map_cons, element_eq,
      renderItems, Text.ink_append, Text.ink_append]
    exact (ink_renderItem true h.1).append (ih (number + 1) hitems.2 h.2)

theorem ink_renderCells (hcells : ∀ c ∈ nodes, c.isText = false)
    (h : ∀ c ∈ nodes, ∀ n ∈ c.content, n.Shows) :
    (textContentAll nodes).ink.Sublist (Text.ink (renderCells (nodes.map element)).flatten) := by
  induction nodes with
  | nil => exact List.Sublist.refl _
  | cons c rest ih =>
    rw [List.forall_mem_cons] at hcells h
    rw [textContentAll, textContent_eq_of_not_isText hcells.1, List.map_cons, element_eq,
      renderCells, List.flatten_cons, Text.ink_append, Text.ink_append, ink_cellText]
    exact (ink_renderAll h.1).append (ih hcells.2 h.2)

theorem ink_renderRows (hrows : ∀ r ∈ nodes, r.isText = false ∧ ∀ c ∈ r.content, c.isText = false)
    (h : ∀ r ∈ nodes, ∀ c ∈ r.content, ∀ n ∈ c.content, n.Shows) :
    (textContentAll nodes).ink.Sublist (Text.ink (renderRows (nodes.map element)).flatten) := by
  induction nodes with
  | nil => exact List.Sublist.refl _
  | cons r rest ih =>
    rw [List.forall_mem_cons] at hrows h
    rw [textContentAll, textContent_eq_of_not_isText hrows.1.1, List.map_cons, element_eq,
      renderRows, List.flatten_cons, Text.ink_append, Text.ink_append]
    refine List.Sublist.append ?_ (ih hrows.2 h.2)
    exact (ink_renderCells hrows.1.2 h.1).trans (Text.ink_sublist (flatten_sublist_rowLine _))

end Element

/-! ## Documents -/

namespace Node

open Element

/-- What a list holds directly is no text. -/
theorem isText_of_admits {kind : Container} {content : List Node} (h : kind.admits content)
    (hkind : kind = .bulletList ∨ kind = .orderedList) : ∀ n ∈ content, n.isText = false := by
  rcases hkind with rfl | rfl <;> simpa [Container.admits] using h

theorem isText_of_admits_table {rows : List Node} (h : Container.table.admits rows) :
    ∀ r ∈ rows, r.isText = false ∧ ∀ c ∈ r.content, c.isText = false := by
  simpa [Container.admits] using h

/-- A node and all nodes below it show their texts. -/
inductive ShowsAll : Node → Prop
  | intro {n : Node} (shows : n.Shows) (content : ∀ m ∈ n.content, ShowsAll m) : ShowsAll n

theorem ShowsAll.shows {n : Node} : n.ShowsAll → n.Shows
  | intro h _ => h

theorem ShowsAll.content {n : Node} : n.ShowsAll → ∀ m ∈ n.content, m.ShowsAll
  | intro _ h => h

/-- A readable node shows its texts if all nodes below it do. -/
theorem shows_of_content {n : Node} (h : n.isReadable) (hbelow : ∀ m ∈ n.content, m.ShowsAll) :
    n.Shows := by
  -- Lists draw what their items hold, and tables what the cells of their rows hold.
  have hcontent : ∀ m ∈ n.content, m.Shows := fun m hm => (hbelow m hm).shows
  have hitems : ∀ i ∈ n.content, ∀ m ∈ i.content, m.Shows :=
    fun i hi m hm => ((hbelow i hi).content m hm).shows
  have hcells : ∀ r ∈ n.content, ∀ c ∈ r.content, ∀ m ∈ c.content, m.Shows :=
    fun r hr c hc m hm => (((hbelow r hr).content c hc).content m hm).shows
  intro depth
  rw [element_eq]
  have hall : ∀ depth, (textContentAll n.content).ink.Sublist
      (renderAll depth (n.content.map element)).ink := fun _ => ink_renderAll hcontent
  cases n with
  | container kind content =>
    have hadmits : kind.admits content := by
      rw [isReadable, Bool.and_eq_true] at h
      exact h.1
    cases kind with
    | paragraph => exact (hall depth).trans (Text.ink_sublist (List.sublist_append_left _ _))
    | bulletList => exact ink_renderItems 1 (isText_of_admits hadmits (.inl rfl)) hitems
    | orderedList => exact ink_renderItems 1 (isText_of_admits hadmits (.inr rfl)) hitems
    | listItem => exact hall depth
    | blockquote => exact (hall depth).trans (ink_quoted _)
    | table =>
      refine (ink_renderRows (isText_of_admits_table hadmits) hcells).trans (Text.ink_sublist ?_)
      exact (Text.flatten_sublist_join _ _).trans (List.sublist_append_left _ _)
    | tableRow | tableCell =>
      exact getD_render_other depth (content.map element) ▸ hall depth
    | mediaSingle => exact hall depth
  | heading level content => exact (hall 0).trans (ink_headingLine level.toNat _)
  | codeBlock language content => exact (hall 0).trans (ink_fenced _ _)
  | text t marks => exact List.Sublist.refl _
  | _ => exact List.nil_sublist _

theorem showsAll_of_isReadable (n : Node) (h : n.isReadable) : n.ShowsAll := by
  have hbelow : ∀ m ∈ n.content, m.ShowsAll := fun m hm =>
    showsAll_of_isReadable m (isReadable_of_mem_content h hm)
  exact ⟨shows_of_content h hbelow, hbelow⟩
termination_by sizeOf n
decreasing_by exact sizeOf_lt_of_mem_content hm

end Node

/-- The texts of a document in preorder, one after the other. -/
def Document.textContent (d : Document) : Text := Node.textContentAll d.content

/-- Every list and table of a document has texts only where it can show them. -/
def Document.isReadable (d : Document) : Bool := Node.isReadableAll d.content

open Node Element in
theorem ink_endLines {nodes : List Node} (h : ∀ n ∈ nodes, n.Shows) :
    (textContentAll nodes).ink.Sublist
      (Text.ink (((nodes.map element).filterMap (render 0)).flatMap endLine)) := by
  induction nodes with
  | nil => exact List.Sublist.refl _
  | cons n rest ih =>
    rw [List.forall_mem_cons] at h
    have hn := h.1 0
    rw [textContentAll, Text.ink_append, List.map_cons]
    cases hrender : n.element.render 0 with
    | none =>
      rw [hrender] at hn
      rw [List.filterMap_cons_none hrender, List.sublist_nil.1 hn]
      exact ih h.2
    | some t =>
      rw [hrender] at hn
      rw [List.filterMap_cons_some hrender, List.flatMap_cons, Text.ink_append]
      exact (hn.trans (ink_endLine t)).append (ih h.2)

theorem element_document (d : Document) :
    (Element.ofJson d.toJson).children = d.content.map Node.element := by
  rw [Element.ofJson_eq, ← Node.ofJsonAll_toJsonAll]
  rfl

theorem ink_ofDocument {d : Document} (h : d.isReadable) :
    d.textContent.ink.Sublist (Text.ink ((Readable.ofDocument d.toJson).getD [])) := by
  have hshows : ∀ n ∈ d.content, n.Shows := fun n hn =>
    (n.showsAll_of_isReadable (Node.isReadableAll_iff.1 h n hn)).shows
  have hlines := ink_endLines hshows
  rw [Readable.ofDocument, Element.renderDocument, element_document]
  split_ifs with hblank
  · rwa [Text.ink_eq_nil_iff.2 hblank] at hlines
  · rw [Option.getD_some, Text.ink_trim]
    exact hlines

/-! ## Documents from Markdown -/

namespace Node

theorem isReadable_of_inline {n : Node} (h : n = .hardBreak ∨ ∃ t marks, n = .text t marks) :
    n.isReadable := by
  rcases h with rfl | ⟨t, marks, rfl⟩ <;> rfl

theorem isReadable_container {kind : Container} {content : List Node}
    (hkind : kind.admits content) (h : ∀ m ∈ content, m.isReadable) :
    (container kind content).isReadable := by
  rw [isReadable, hkind, Bool.true_and]
  exact isReadableAll_iff.2 h

theorem IsParagraph.isReadable {n : Node} (h : n.IsParagraph) : n.isReadable := by
  obtain ⟨content, rfl, hcontent⟩ := h
  exact isReadable_container rfl fun m hm => isReadable_of_inline (hcontent.inline m hm)

theorem IsItem.isText {n : Node} (h : n.IsItem) : n.isText = false := by
  cases h
  rfl

mutual

theorem IsList.isReadable : ∀ {n : Node}, n.IsList → n.isReadable
  | _, @IsList.intro ordered items _ hitems => by
    refine isReadable_container ?_ fun i hi => (hitems i hi).isReadable
    have htexts : items.all (!·.isText) := by simpa using fun i hi => (hitems i hi).isText
    cases ordered <;> exact htexts

theorem IsItem.isReadable : ∀ {n : Node}, n.IsItem → n.isReadable
  | _, .intro hparagraph hlists => by
    refine isReadable_container rfl (List.forall_mem_cons.2 ⟨hparagraph.isReadable, ?_⟩)
    exact fun l hl => (hlists l hl).isReadable

end

theorem IsCell.isReadable {n : Node} (h : n.IsCell) : n.isReadable := by
  obtain ⟨content, rfl, hcontent⟩ := h
  refine isReadable_container rfl (List.forall_mem_singleton.2 ?_)
  exact IsParagraph.isReadable ⟨content, rfl, hcontent.1⟩

theorem IsRow.isReadable {n : Node} (h : n.IsRow) : n.isReadable := by
  obtain ⟨cells, rfl, -, hcells⟩ := h
  exact isReadable_container rfl fun c hc => (hcells c hc).isReadable

theorem IsRow.isText {n : Node} (h : n.IsRow) :
    (!n.isText && n.content.all (!·.isText)) = true := by
  obtain ⟨cells, rfl, -, hcells⟩ := h
  refine List.all_eq_true.2 fun c hc => ?_
  obtain ⟨content, rfl, -⟩ := hcells c hc
  rfl

theorem IsBlock.isReadable {n : Node} (h : n.IsBlock) : n.isReadable := by
  cases h with
  | paragraph h => exact h.isReadable
  | heading _ _ h => exact isReadableAll_iff.2 fun m hm => isReadable_of_inline (h.1.inline m hm)
  | list h => exact h.isReadable
  | blockquote _ h => exact isReadable_container rfl fun p hp => (h p hp).isReadable
  | codeBlock language code => rfl
  | table _ h =>
    exact isReadable_container (List.all_eq_true.2 fun r hr => (h r hr).isText)
      fun r hr => (h r hr).isReadable
  | rule => rfl
  | mediaSingle m => rfl

end Node

/-- Every block of the document of a Markdown text is a valid block. -/
theorem isBlock_of_mem_ofMarkdown {markdown : Text} {n : Node}
    (h : n ∈ (Document.ofMarkdown markdown).content) : n.IsBlock := by
  obtain ⟨blocks, hblocks, hcontent⟩ := exists_blocks_ofMarkdown markdown
  rw [hcontent] at h
  obtain ⟨b, hb, hn⟩ := List.mem_flatMap.1 h
  refine isBlock_of_mem_nodes (fun e he => ?_) n hn
  have hmem : e ∈ (classify markdown).map NumberedEvent.event := by
    rw [hblocks]
    exact List.mem_flatMap.2 ⟨b, hb, he⟩
  obtain ⟨numbered, hnumbered, rfl⟩ := List.mem_map.1 hmem
  exact exists_liesIn_of_mem_classify hnumbered

theorem isReadable_ofMarkdown (markdown : Text) : (Document.ofMarkdown markdown).isReadable :=
  Node.isReadableAll_iff.2 fun _ hn => (isBlock_of_mem_ofMarkdown hn).isReadable

/-- **Nothing is lost.** The texts of a document show in its readable text, in their order and apart
from blanks, if no text stands directly in a list, a table or a row of a table. In the document of a
Markdown text none does. -/
theorem textContent_ofDocument :
    (∀ d : Document, d.isReadable →
      d.textContent.ink.Sublist (Text.ink ((Readable.ofDocument d.toJson).getD []))) ∧
    ∀ markdown, (Document.ofMarkdown markdown).isReadable :=
  ⟨fun _ => ink_ofDocument, isReadable_ofMarkdown⟩

/-- A quote in place of a list item, and a list inside a cell. -/
theorem textContent_ofDocument_unusual :
    let d := Document.ofContent
      [.container .bulletList [.container .blockquote [.plain ['a', '\n', ' ', 'b']]],
        .container .table [.container .tableRow [.container .tableCell
          [.container .orderedList [.container .listItem [.plain ['c'], .plain ['\n', 'd']]]]]]]
    d.isReadable ∧ d.textContent.ink = ['a', 'b', 'c', 'd'] ∧
      d.textContent.ink.Sublist (Text.ink ((Readable.ofDocument d.toJson).getD [])) :=
  ⟨by decide, by decide, textContent_ofDocument.1 _ (by decide)⟩

end TicketMarkup
