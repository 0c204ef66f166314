import TicketMarkup.Document.Wire
import TicketMarkup.Proofs.BlockNodes
import TicketMarkup.Proofs.EventTexts
import TicketMarkup.Proofs.InlineContent
import TicketMarkup.Proofs.OpenLists

/-!
# The schema of documents

`valid_ofMarkdown`: the document of any Markdown text is valid. Which node may stand in which is
said by `Node.IsBlock` and the predicates it is made of; every container has content, an empty text
stands alone, line feeds stand in code only, and a break ends a paragraph outside tables.

The document is the nodes of complete blocks (`blocks_flatMap_events`), so each block is checked
apart: what its events carry lies in lines (`exists_liesIn_of_mem_classify`), and the open lists of
a run stay valid item by item (`isList_of_mem_nodesOfItems`).
-/

namespace TicketMarkup

/-! ## The schema -/

/-- Inline content without breaks, as headings and table cells hold it. -/
def UnbrokenContent (content : List Node) : Prop :=
  InlineContent content ∧ .hardBreak ∉ content

namespace Node

/-- A paragraph. -/
def IsParagraph (n : Node) : Prop :=
  ∃ content, n = .container .paragraph content ∧ InlineContent content

mutual

/-- A list: items, at least one. -/
inductive IsList : Node → Prop
  | intro (ordered : Bool) {items : List Node} (nonempty : items ≠ [])
      (items_valid : ∀ i ∈ items, IsItem i) : IsList (.container (listKind ordered) items)

/-- A list item: a paragraph and the lists inside the item. -/
inductive IsItem : Node → Prop
  | intro {paragraph : Node} {lists : List Node} (paragraph_valid : IsParagraph paragraph)
      (lists_valid : ∀ l ∈ lists, IsList l) :
      IsItem (.container .listItem (paragraph :: lists))

end

/-- A cell of a table: one paragraph without breaks. -/
def IsCell (n : Node) : Prop :=
  ∃ content, n = .container .tableCell [.container .paragraph content] ∧ UnbrokenContent content

/-- A row of a table: cells, at least one. -/
def IsRow (n : Node) : Prop :=
  ∃ cells, n = .container .tableRow cells ∧ cells ≠ [] ∧ ∀ c ∈ cells, c.IsCell

/-- A block at the top level of a document. -/
inductive IsBlock : Node → Prop
  | paragraph {n : Node} (h : n.IsParagraph) : IsBlock n
  | heading {level : UInt8} {content : List Node} (one_le : 1 ≤ level.toNat)
      (le_six : level.toNat ≤ 6) (h : UnbrokenContent content) : IsBlock (.heading level content)
  | list {n : Node} (h : n.IsList) : IsBlock n
  | blockquote {paragraphs : List Node} (nonempty : paragraphs ≠ [])
      (h : ∀ p ∈ paragraphs, p.IsParagraph) : IsBlock (.container .blockquote paragraphs)
  | codeBlock (language : Option Text) (code : Text) : IsBlock (.codeBlock language [.text code []])
  | table {rows : List Node} (nonempty : rows ≠ []) (h : ∀ r ∈ rows, r.IsRow) :
      IsBlock (.container .table rows)
  | rule : IsBlock .rule
  | mediaSingle (m : Media) : IsBlock (.container .mediaSingle [.media m])

end Node

/-- A valid document: the current version of the format, written as a `doc`, and valid blocks. -/
structure Document.Valid (d : Document) : Prop where
  version : d.version = 1
  type : d.toJson.get? "type" = some (.string "doc")
  blocks : ∀ n ∈ d.content, n.IsBlock

/-! ## Lines -/

variable {line : Text}

theorem isParagraph_of_isInfix {t : Text} (h : t <:+: line) (hline : '\n' ∉ line) :
    (Node.paragraphOfLine t).IsParagraph :=
  ⟨_, rfl, Node.inlineContent_ofLine fun hn => hline (h.subset hn)⟩

theorem unbrokenContent_of_isInfix {t : Text} (h : t <:+: line) (ht : t.EndsUnblank)
    (hline : '\n' ∉ line) : UnbrokenContent (Node.ofLine t) :=
  ⟨Node.inlineContent_ofLine fun hn => hline (h.subset hn), Node.hardBreak_not_mem_ofLine ht⟩

theorem isBlock_leaf {l : Leaf} (h : l.LiesIn line) (hline : '\n' ∉ line) : l.node.IsBlock := by
  cases l with
  | paragraph t => exact .paragraph (isParagraph_of_isInfix h hline)
  | heading level t =>
    obtain ⟨hpart, hend, hone, hsix⟩ := h
    have hlevel : level.toUInt8.toNat = level :=
      UInt8.toNat_ofNat_of_lt' (Nat.lt_of_le_of_lt hsix (by decide))
    exact .heading (by rwa [hlevel]) (by rwa [hlevel]) (unbrokenContent_of_isInfix hpart hend hline)
  | rule => exact .rule
  | image r => exact .mediaSingle _

theorem isRow_node {row : TableRow} (h : row.LiesIn line) (hline : '\n' ∉ line) :
    row.node.IsRow := by
  refine ⟨_, rfl, by simpa using h.1, ?_⟩
  intro c hc
  obtain ⟨cell, hcell, rfl⟩ := List.mem_map.1 hc
  obtain ⟨hpart, hend⟩ := h.2 cell hcell
  exact ⟨_, rfl, unbrokenContent_of_isInfix hpart hend hline⟩

theorem isParagraph_empty : (Node.container .paragraph (Node.orEmptyText [])).IsParagraph := by
  refine ⟨_, rfl, ?_⟩
  constructor <;> simp [Node.orEmptyText, Node.plain]

/-! ## Lists -/

namespace OpenList

/-- An open list whose parts are valid. -/
structure Valid (l : OpenList) : Prop where
  items : ∀ i ∈ l.items, i.IsItem
  text : (Node.paragraphOfLine l.text).IsParagraph
  nested : ∀ n ∈ l.nested, n.IsList

theorem Valid.isItem_lastItem {l : OpenList} (h : l.Valid) : l.lastItem.IsItem :=
  .intro h.text fun n hn => h.nested n (List.mem_reverse.1 hn)

theorem Valid.isList_node {l : OpenList} (h : l.Valid) : l.node.IsList := by
  apply Node.IsList.intro l.ordered (by simp)
  intro i hi
  rcases List.mem_cons.1 (List.mem_reverse.1 hi) with rfl | hi
  · exact h.isItem_lastItem
  · exact h.items i hi

theorem valid_start {item : ListItem} (h : (Node.paragraphOfLine item.text).IsParagraph) :
    (start item).Valid := ⟨by simp [start], h, by simp [start]⟩

theorem Valid.addItem {l : OpenList} (h : l.Valid) {item : ListItem}
    (hitem : (Node.paragraphOfLine item.text).IsParagraph) : (l.addItem item).Valid :=
  ⟨List.forall_mem_cons.2 ⟨h.isItem_lastItem, h.items⟩, hitem, by simp [OpenList.addItem]⟩

theorem Valid.nest {l : OpenList} (h : l.Valid) {list : Node} (hlist : list.IsList) :
    (l.nest list).Valid := ⟨h.items, h.text, List.forall_mem_cons.2 ⟨hlist, h.nested⟩⟩

theorem valid_closeTo (depth : Nat) {stack : List OpenList} (h : ∀ l ∈ stack, l.Valid) :
    ∀ l ∈ closeTo depth stack, l.Valid := by
  fun_induction closeTo depth stack with
  | case1 inner outer rest hdepth ih =>
    rw [List.forall_mem_cons, List.forall_mem_cons] at h
    exact ih (List.forall_mem_cons.2 ⟨h.2.1.nest h.1.isList_node, h.2.2⟩)
  | case2 inner outer rest hdepth => exact h
  | case3 stack hstack => exact h

theorem isList_of_mem_closeAll {stack : List OpenList} (h : ∀ l ∈ stack, l.Valid) :
    ∀ n ∈ closeAll stack, n.IsList := by
  intro n hn
  obtain ⟨l, hl, rfl⟩ := List.mem_map.1 hn
  exact (valid_closeTo 1 h l hl).isList_node

theorem Valid.close {l : OpenList} {below : List OpenList} (hl : l.Valid)
    (hbelow : ∀ l ∈ below, l.Valid) :
    (∀ n ∈ (l.close below).1, n.IsList) ∧ ∀ outer ∈ (l.close below).2, outer.Valid := by
  cases below with
  | nil => exact ⟨List.forall_mem_singleton.2 hl.isList_node, by simp [OpenList.close]⟩
  | cons outer rest =>
    rw [List.forall_mem_cons] at hbelow
    refine ⟨by simp [OpenList.close], List.forall_mem_cons.2 ⟨?_, hbelow.2⟩⟩
    exact hbelow.1.nest hl.isList_node

/-- An item leaves valid open lists, and the list that it ends is valid. -/
theorem valid_addToStack {stack : List OpenList} (h : ∀ l ∈ stack, l.Valid) {item : ListItem}
    (hitem : (Node.paragraphOfLine item.text).IsParagraph) :
    (∀ n ∈ (addToStack item stack).1, n.IsList) ∧ ∀ l ∈ (addToStack item stack).2, l.Valid := by
  have hclosed := valid_closeTo item.depth h
  have hstart := valid_start hitem
  rcases addToStack_cases item stack with ⟨-, hstep⟩ | ⟨l, below, heq, -, hstep⟩
  · rw [hstep]
    exact ⟨by simp, List.forall_mem_cons.2 ⟨hstart, hclosed⟩⟩
  · rw [heq, List.forall_mem_cons] at hclosed
    obtain ⟨hl, hbelow⟩ := hclosed
    rw [hstep]
    split_ifs
    · exact ⟨by simp, List.forall_mem_cons.2 ⟨hl.addItem hitem, hbelow⟩⟩
    · obtain ⟨hfinished, hopen⟩ := hl.close hbelow
      exact ⟨hfinished, List.forall_mem_cons.2 ⟨hstart, hopen⟩⟩

theorem isList_of_mem_nodesOfItems {stack : List OpenList} (h : ∀ l ∈ stack, l.Valid)
    {items : List ListItem}
    (hitems : ∀ item ∈ items, (Node.paragraphOfLine item.text).IsParagraph) :
    ∀ n ∈ nodesOfItems stack items, n.IsList := by
  induction items generalizing stack with
  | nil => exact isList_of_mem_closeAll h
  | cons item rest ih =>
    rw [List.forall_mem_cons] at hitems
    obtain ⟨hfinished, hstack⟩ := valid_addToStack h hitems.1
    exact List.forall_mem_append.2 ⟨hfinished, ih hstack hitems.2⟩

end OpenList

/-! ## Blocks and documents -/

/-- The nodes of a block whose events lie in lines are valid. -/
theorem isBlock_of_mem_nodes {b : Block}
    (h : ∀ e ∈ b.events, ∃ line, '\n' ∉ line ∧ e.LiesIn line) : ∀ n ∈ b.nodes, n.IsBlock := by
  cases b with
  | blank => simp [Block.nodes]
  | leaf l =>
    obtain ⟨line, hline, hl⟩ := h (.leaf l) (by simp [Block.events])
    exact List.forall_mem_singleton.2 (isBlock_leaf hl hline)
  | code language lines => exact List.forall_mem_singleton.2 (.codeBlock language _)
  | quote first rest =>
    refine List.forall_mem_singleton.2 ?_
    have hparagraphs : ∀ p ∈ quoteParagraphs (first :: rest), p.IsParagraph := by
      intro p hp
      obtain ⟨t, ht, rfl⟩ := List.mem_map.1 hp
      have hmem : t ∈ first :: rest := List.mem_of_mem_filter ht
      obtain ⟨line, hline, hpart⟩ := h (.quoteLine t) (by simpa [Block.events] using hmem)
      exact isParagraph_of_isInfix hpart hline
    split_ifs with hempty
    · exact .blockquote (by simp) (List.forall_mem_singleton.2 isParagraph_empty)
    · exact .blockquote (by rwa [List.isEmpty_iff] at hempty) hparagraphs
  | table first rest =>
    refine List.forall_mem_singleton.2 (.table (by simp) ?_)
    intro r hr
    obtain ⟨row, hrow, rfl⟩ := List.mem_map.1 hr
    obtain ⟨line, hline, hl⟩ := h (.tableRow row) (by simpa [Block.events] using hrow)
    exact isRow_node hl hline
  | list run =>
    refine fun n hn => .list (OpenList.isList_of_mem_nodesOfItems (by simp) ?_ n hn)
    intro item hitem
    have hmem : .listItem item ∈ (Block.list run).events := by
      rcases List.mem_cons.1 hitem with rfl | hitem
      · exact List.mem_cons_self ..
      · rw [List.reduceOption_mem_iff] at hitem
        exact List.mem_cons_of_mem _ (List.mem_append_left _ (List.mem_map.2 ⟨_, hitem, rfl⟩))
    obtain ⟨line, hline, hpart, -⟩ := h (.listItem item) hmem
    exact isParagraph_of_isInfix hpart hline

/-- **Validity.** The document of a Markdown text obeys the schema. -/
theorem valid_ofMarkdown (markdown : Text) : (Document.ofMarkdown markdown).Valid := by
  refine ⟨rfl, rfl, ?_⟩
  intro n hn
  obtain ⟨blocks, hblocks⟩ := complete_classify markdown
  have hcontent : n ∈ blocks.flatMap Block.nodes := by
    rwa [← OpenBlock.blocks_flatMap_events, ← hblocks]
  obtain ⟨b, hb, hnb⟩ := List.mem_flatMap.1 hcontent
  apply isBlock_of_mem_nodes _ n hnb
  intro e he
  have hmem : e ∈ (classify markdown).map NumberedEvent.event := by
    rw [hblocks]
    exact List.mem_flatMap.2 ⟨b, hb, he⟩
  obtain ⟨numbered, hnumbered, rfl⟩ := List.mem_map.1 hmem
  exact exists_liesIn_of_mem_classify hnumbered

end TicketMarkup
