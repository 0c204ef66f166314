import TicketMarkup.Document.Wire
import TicketMarkup.Proofs.BlockNodes
import TicketMarkup.Proofs.InlineContent
import TicketMarkup.Proofs.JsonNesting
import TicketMarkup.Proofs.OpenLists

/-!
# Nesting of documents

How deep the JSON of a document is nested follows from the depths of its list items and what their
lines hold (`nesting_ofMarkdown_le`).

1. A node that holds others adds an object and an array (`Node.nesting_container`). The text of a
   line adds three or, under a link, four (`Node.nesting_paragraphOfLine`).
2. A list in an item adds a list and an item, four in all (`OpenList.nesting_nest`). The nesting of
   open lists, each counted where it stands, is what it is with all lists closed
   (`OpenList.nestingAll_closeAll`), and an item adds its own and nothing else
   (`OpenList.nestingAll_addToStack`).
3. Blocks other than lists are nested less than 13 deep (`nesting_of_mem_nodes`).
-/

namespace TicketMarkup

namespace Node

/-- The nesting of a node in JSON. -/
def nesting (n : Node) : Nat := n.toJson.nesting

/-- The greatest nesting of nodes. -/
def nestingAll (nodes : List Node) : Nat := Json.nestingItems (toJsonAll nodes)

theorem nestingAll_nil : nestingAll [] = 0 := rfl

theorem nestingAll_cons (n : Node) (nodes : List Node) :
    nestingAll (n :: nodes) = max n.nesting (nestingAll nodes) := rfl

theorem nestingAll_append (nodes more : List Node) :
    nestingAll (nodes ++ more) = max (nestingAll nodes) (nestingAll more) := by
  induction nodes with
  | nil => exact (Nat.zero_max _).symm
  | cons n rest ih => rw [List.cons_append, nestingAll_cons, nestingAll_cons, ih, Nat.max_assoc]

theorem nestingAll_reverse (nodes : List Node) : nestingAll nodes.reverse = nestingAll nodes := by
  induction nodes with
  | nil => rfl
  | cons n rest ih =>
    rw [List.reverse_cons, nestingAll_append, ih, nestingAll_cons, nestingAll_cons, nestingAll_nil]
    omega

theorem nestingAll_le {k : Nat} {nodes : List Node} :
    nestingAll nodes ≤ k ↔ ∀ n ∈ nodes, n.nesting ≤ k := by
  induction nodes with
  | nil => simp [nestingAll_nil]
  | cons n rest ih => rw [nestingAll_cons, Nat.max_le, ih, List.forall_mem_cons]

theorem nesting_container (kind : Container) (content : List Node) :
    (container kind content).nesting = nestingAll content + 2 := by
  simp [nesting, nestingAll, toJson, Json.nesting, Json.nestingFields]

theorem nesting_heading (level : UInt8) (content : List Node) :
    (heading level content).nesting = nestingAll content + 2 := by
  simp [nesting, nestingAll, toJson, Json.nesting, Json.nestingFields, Json.ofNat]

/-! ## Lines -/

end Node

theorem Mark.nesting_toJson (m : Mark) : m.toJson.nesting = if m.isLink then 2 else 1 := by
  cases m with
  | link href title => cases title <;> rfl
  | _ => rfl

namespace Node

/-- A text under a link. -/
def isLinked : Node → Bool
  | text _ marks => marks.any Mark.isLink
  | _ => false

theorem one_le_nesting (n : Node) : 1 ≤ n.nesting := by
  cases n <;> simp [nesting, toJson, Json.nesting]

/-- A text is nested four deep under a link, and at most three deep elsewhere. -/
theorem nesting_text_le {k : Nat} (hk : 1 ≤ k) (t : Text) (marks : List Mark) :
    (text t marks).nesting ≤ k + 2 ↔ ((text t marks).isLinked → 2 ≤ k) := by
  cases marks with
  | nil => exact iff_of_true (Nat.le_add_left 1 (k + 1)) (by simp [isLinked])
  | cons m rest =>
    have hnesting : (text t (m :: rest)).nesting =
        Json.nestingItems ((m :: rest).map Mark.toJson) + 2 := by
      simp [nesting, toJson, Json.nesting, Json.nestingFields, marksField, Json.ofText]
    rw [hnesting, Nat.add_le_add_iff_right, Json.nestingItems_le, List.forall_mem_map, isLinked,
      List.any_eq_true]
    constructor
    · rintro h ⟨link, hmem, hlink⟩
      have hle := h link hmem
      rwa [link.nesting_toJson, if_pos hlink] at hle
    · intro h mark hmem
      rw [mark.nesting_toJson]
      split_ifs with hlink
      · exact h ⟨mark, hmem, hlink⟩
      · exact hk

end Node

/-- A line shows a link, or an image, which is shown as a link to it. -/
def Text.hasLink (line : Text) : Bool := (Node.ofLine line).any Node.isLinked

namespace Node

theorem ofLine_ne_nil (line : Text) : ofLine line ≠ [] := by
  unfold ofLine orEmptyText
  split_ifs with h
  · simp
  · simpa using h

theorem nesting_paragraphOfLine_le {k : Nat} (hk : 1 ≤ k) (line : Text) :
    (paragraphOfLine line).nesting ≤ k + 4 ↔ (line.hasLink → 2 ≤ k) := by
  have hnode : ∀ n ∈ ofLine line, n.nesting ≤ k + 2 ↔ (n.isLinked → 2 ≤ k) := by
    intro n hn
    rcases inline_of_mem_ofLine hn with rfl | ⟨t, marks, rfl⟩
    · exact iff_of_true (Nat.le_add_left 1 (k + 1)) (by simp [isLinked])
    · exact nesting_text_le hk t marks
  rw [paragraphOfLine, nesting_container, Nat.add_le_add_iff_right, nestingAll_le, Text.hasLink,
    List.any_eq_true]
  constructor
  · rintro h ⟨n, hn, hlink⟩
    exact (hnode n hn).1 (h n hn) hlink
  · exact fun h n hn => (hnode n hn).2 fun hlink => h ⟨n, hn, hlink⟩

theorem three_le_nesting_paragraphOfLine (line : Text) : 3 ≤ (paragraphOfLine line).nesting := by
  obtain ⟨n, hn⟩ := List.exists_mem_of_ne_nil _ (ofLine_ne_nil line)
  have hle : n.nesting ≤ nestingAll (ofLine line) := nestingAll_le.1 (Nat.le_refl _) n hn
  have hone := n.one_le_nesting
  rw [paragraphOfLine, nesting_container]
  omega

end Node

/-! ## Lists -/

/-- The nesting of an item together with the lists and items around it. -/
def ListItem.nesting (item : ListItem) : Nat :=
  (Node.paragraphOfLine item.text).nesting + 4 * item.depth

namespace OpenList

open Node

theorem nesting_lastItem (l : OpenList) :
    l.lastItem.nesting = max (paragraphOfLine l.text).nesting (nestingAll l.nested) + 2 := by
  rw [lastItem, nesting_container, nestingAll_cons, nestingAll_reverse]

theorem nesting_node (l : OpenList) :
    l.node.nesting = max l.lastItem.nesting (nestingAll l.items) + 2 := by
  rw [node, nesting_container, nestingAll_reverse, nestingAll_cons]

theorem nesting_start (item : ListItem) :
    (start item).node.nesting = (paragraphOfLine item.text).nesting + 4 := by
  rw [nesting_node, nesting_lastItem]
  simp only [start, nestingAll_nil]
  omega

theorem nesting_addItem (l : OpenList) (item : ListItem) :
    (l.addItem item).node.nesting =
      max l.node.nesting ((paragraphOfLine item.text).nesting + 4) := by
  have hitems : nestingAll (l.addItem item).items = max l.lastItem.nesting (nestingAll l.items) :=
    nestingAll_cons ..
  rw [nesting_node, nesting_lastItem, hitems, nesting_node]
  simp only [addItem, nestingAll_nil]
  omega

theorem nesting_nest (l : OpenList) (list : Node) :
    (l.nest list).node.nesting = max l.node.nesting (list.nesting + 4) := by
  rw [nesting_node, nesting_lastItem, nesting_node, nesting_lastItem]
  simp only [nest, nestingAll_cons]
  omega

/-- The greatest nesting of open lists, each with the lists and items around it. -/
def nestingOfStack : List OpenList → Nat
  | [] => 0
  | l :: below => max (l.node.nesting + 4 * below.length) (nestingOfStack below)

variable {l : OpenList} {below stack : List OpenList} {item : ListItem}

/-- Closing a list inside another one keeps the nesting. -/
theorem nestingOfStack_nest (inner outer : OpenList) (rest : List OpenList) :
    nestingOfStack (outer.nest inner.node :: rest) = nestingOfStack (inner :: outer :: rest) := by
  simp only [nestingOfStack, nesting_nest, List.length_cons]
  omega

theorem nestingOfStack_closeTo (depth : Nat) (stack : List OpenList) :
    nestingOfStack (closeTo depth stack) = nestingOfStack stack := by
  fun_induction closeTo depth stack with
  | case1 inner outer rest hdepth ih => rw [ih, nestingOfStack_nest]
  | case2 | case3 => rfl

theorem nestingAll_closeAll (stack : List OpenList) :
    nestingAll (closeAll stack) = nestingOfStack stack := by
  match stack with
  | [] => rw [closeAll_nil]; rfl
  | [l] => rw [closeAll_singleton]; rfl
  | inner :: outer :: rest =>
    rw [closeAll_cons_cons, nestingAll_closeAll, nestingOfStack_nest]
termination_by stack.length

theorem nestingOfStack_close (l : OpenList) (below : List OpenList) :
    max (nestingAll (l.close below).1) (nestingOfStack (l.close below).2) =
      nestingOfStack (l :: below) := by
  cases below with
  | nil => rfl
  | cons outer rest =>
    show max 0 (nestingOfStack (outer.nest l.node :: rest)) = _
    rw [Nat.zero_max, nestingOfStack_nest]

/-- **One item.** An item adds its own nesting, and as many lists are open behind it as it is
deep. -/
theorem nestingAll_addToStack (hdeepens : Deepens stack.length item.depth) :
    max (nestingAll (addToStack item stack).1) (nestingOfStack (addToStack item stack).2) =
        max (nestingOfStack stack) item.nesting ∧
      (addToStack item stack).2.length = item.depth := by
  obtain ⟨hone, hsucc, -⟩ := hdeepens
  by_cases hnew : item.depth = stack.length + 1
  · rw [addToStack_of_depth_eq hnew]
    refine ⟨?_, hnew.symm⟩
    simp only [nestingAll_nil, nestingOfStack, nesting_start, ListItem.nesting, hnew]
    omega
  · have hle : item.depth ≤ stack.length := by omega
    obtain ⟨l, below, hclose, hdepth, hstep⟩ := addToStack_of_depth_le hone hle
    rw [hstep, ← nestingOfStack_closeTo item.depth stack, hclose]
    split_ifs
    · refine ⟨?_, hdepth.symm⟩
      simp only [nestingAll_nil, nestingOfStack, nesting_addItem, ListItem.nesting, hdepth]
      omega
    · rw [← nestingOfStack_close l below]
      refine ⟨?_, by rw [List.length_cons, length_close, hdepth]⟩
      simp only [nestingOfStack, nesting_start, ListItem.nesting, hdepth, length_close]
      omega

/-- **One run.** The lists of a run are nested as deep as its items. -/
theorem nestingAll_nodesOfItems_le {items : List ListItem}
    (hitems : (stack.length :: items.map ListItem.depth).IsChain Deepens) {k : Nat} :
    nestingAll (nodesOfItems stack items) ≤ k ↔
      nestingOfStack stack ≤ k ∧ ∀ item ∈ items, item.nesting ≤ k := by
  induction items generalizing stack with
  | nil => rw [nodesOfItems, nestingAll_closeAll]; simp
  | cons item rest ih =>
    obtain ⟨hdeepens, hrest⟩ := List.isChain_cons_cons.1 hitems
    obtain ⟨hnesting, hlength⟩ := nestingAll_addToStack hdeepens
    rw [← hlength] at hrest
    rw [nodesOfItems, nestingAll_append, Nat.max_le, ih hrest, ← and_assoc, ← Nat.max_le, hnesting,
      Nat.max_le, and_assoc, List.forall_mem_cons]

end OpenList

/-! ## Blocks and documents -/

open Node

theorem nesting_paragraphOfLine_le_six (line : Text) : (paragraphOfLine line).nesting ≤ 6 :=
  (nesting_paragraphOfLine_le (k := 2) (by decide) line).2 fun _ => Nat.le_refl 2

theorem nestingAll_ofLine_le (line : Text) : nestingAll (ofLine line) ≤ 4 := by
  have hle := nesting_paragraphOfLine_le_six line
  rw [paragraphOfLine, nesting_container] at hle
  omega

theorem nesting_media (m : Media) : (media m).nesting = 2 := by
  obtain ⟨url, alt, title⟩ := m
  cases alt <;> cases title <;> rfl

theorem nesting_leaf_le (l : Leaf) : l.node.nesting ≤ 6 := by
  cases l with
  | paragraph t => exact nesting_paragraphOfLine_le_six t
  | heading level t =>
    show (heading level.toUInt8 (ofLine t)).nesting ≤ 6
    rw [nesting_heading]
    exact Nat.add_le_add_right (nestingAll_ofLine_le t) 2
  | rule => decide
  | image reference =>
    show (container .mediaSingle [media _]).nesting ≤ 6
    rw [nesting_container, nestingAll_cons, nesting_media]
    decide

theorem nesting_row_le (row : TableRow) : row.node.nesting ≤ 10 := by
  rw [TableRow.node, nesting_container, Nat.add_le_add_iff_right (k := 8), nestingAll_le]
  intro cell hcell
  obtain ⟨t, -, rfl⟩ := List.mem_map.1 hcell
  rw [nesting_container, Nat.add_le_add_iff_right (k := 6), nestingAll_le]
  exact List.forall_mem_singleton.2 (nesting_paragraphOfLine_le_six t)

/-- A block without items is nested at most twelve deep. -/
theorem nestingAll_nodes_le {b : Block} (h : ∀ run, b ≠ .list run) : nestingAll b.nodes ≤ 12 := by
  rw [nestingAll_le]
  cases b with
  | blank => exact fun n hn => absurd hn List.not_mem_nil
  | leaf l => exact List.forall_mem_singleton.2 (Nat.le_trans (nesting_leaf_le l) (by decide))
  | code language lines =>
    refine List.forall_mem_singleton.2 ?_
    cases language <;> exact Nat.le_of_ble_eq_true rfl
  | quote first rest =>
    refine List.forall_mem_singleton.2 ?_
    rw [nesting_container, Nat.add_le_add_iff_right (k := 10), nestingAll_le]
    intro p hp
    split_ifs at hp
    · rw [List.mem_singleton.1 hp]
      decide
    · obtain ⟨t, -, rfl⟩ := List.mem_map.1 hp
      exact Nat.le_trans (nesting_paragraphOfLine_le_six t) (by decide)
  | table first rest =>
    refine List.forall_mem_singleton.2 ?_
    rw [nesting_container, Nat.add_le_add_iff_right (k := 10), nestingAll_le]
    intro row hrow
    obtain ⟨row, -, rfl⟩ := List.mem_map.1 hrow
    exact nesting_row_le row
  | list run => exact absurd rfl (h run)

theorem listItem_mem_events {b : Block} {item : ListItem} :
    .listItem item ∈ b.events ↔ ∃ run, b = .list run ∧ item ∈ run.items := by
  cases b with
  | list run =>
    have hline (line : Option ListItem) :
        ListRun.lineEvent line = .listItem item ↔ line = some item := by
      cases line <;> simp [ListRun.lineEvent, eq_comm]
    simp [Block.events, ListRun.items, List.reduceOption_mem_iff, hline, eq_comm]
  | _ => simp [Block.events]

/-- A block is nested as deep as its items. -/
theorem nestingAll_nodes_le_iff (b : Block) {k : Nat} (hk : 12 ≤ k) :
    nestingAll b.nodes ≤ k ↔ ∀ item, .listItem item ∈ b.events → item.nesting ≤ k := by
  by_cases hb : ∃ run, b = .list run
  · obtain ⟨run, rfl⟩ := hb
    have hchain : (([] : List OpenList).length :: run.items.map ListItem.depth).IsChain Deepens := by
      refine List.isChain_cons_cons.2 ⟨?_, run.deepens⟩
      rw [Deepens, run.depth_first, maxListDepth]
      omega
    rw [Block.nodes, OpenList.nestingAll_nodesOfItems_le hchain]
    simp [OpenList.nestingOfStack, listItem_mem_events]
  · have hb : ∀ run, b ≠ .list run := fun run hrun => hb ⟨run, hrun⟩
    refine iff_of_true (Nat.le_trans (nestingAll_nodes_le hb) hk) ?_
    intro item hitem
    obtain ⟨run, hrun, -⟩ := listItem_mem_events.1 hitem
    exact absurd hrun (hb run)

/-- **Nesting of documents.** The JSON of the document of a Markdown text is nested as deep as the
items of the text. -/
theorem nesting_ofMarkdown_le (markdown : Text) {k : Nat} (hk : 12 ≤ k) :
    (Document.ofMarkdown markdown).toJson.nesting ≤ k + 2 ↔
      ∀ item, .listItem item ∈ (classify markdown).map NumberedEvent.event → item.nesting ≤ k := by
  obtain ⟨blocks, hblocks, hcontent⟩ := exists_blocks_ofMarkdown markdown
  have hdocument (d : Document) : d.toJson.nesting = nestingAll d.content + 2 := by
    simp [Document.toJson, nestingAll, Json.nesting, Json.nestingFields, Json.ofNat]
  rw [hdocument, hcontent, hblocks, Nat.add_le_add_iff_right, nestingAll_le]
  simp only [List.mem_flatMap]
  constructor
  · rintro h item ⟨b, hb, hitem⟩
    have hle : nestingAll b.nodes ≤ k := nestingAll_le.2 fun n hn => h n ⟨b, hb, hn⟩
    exact (nestingAll_nodes_le_iff b hk).1 hle item hitem
  · rintro h n ⟨b, hb, hn⟩
    have hle := (nestingAll_nodes_le_iff b hk).2 fun item hitem => h item ⟨b, hb, hitem⟩
    exact nestingAll_le.1 hle n hn

end TicketMarkup
