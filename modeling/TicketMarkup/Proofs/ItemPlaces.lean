import TicketMarkup.Proofs.BlockNodes
import TicketMarkup.Proofs.InlineContent
import TicketMarkup.Proofs.OpenLists

/-!
# The list items of a document

1. `Document.itemPlaces` lists the items of a document in preorder, each with its address, the
   positions that lead to it (`nodeAt_of_mem_itemPlaces`). The addresses grow in the order of the
   list (`pairwise_itemPlaces`).
2. An open list takes items at its end and lists at the end of its last item, so nothing that comes
   in later moves an item (`itemPlaces_addItem`, `itemPlaces_nest`).
3. The next list inside open lists stands at their `OpenList.slot`. With all lists closed, the
   items of the innermost one are the last (`placesOfStack_cons`).
-/

namespace TicketMarkup

/-- Where a list item stands: the positions that lead to it from the top of the document, the names
of the nodes around it, outermost first, and the first node inside it. -/
structure ItemPlace where
  address : List Nat
  around : List String
  first : Option Node

/-- The address of the node that holds an item. -/
def ItemPlace.list (p : ItemPlace) : List Nat := p.address.dropLast

variable {address : List Nat} {around : List String} {position : Nat}

namespace Node

mutual

/-- The list items in a node, the node included, in preorder. -/
def itemPlaces (address : List Nat) (around : List String) : Node → List ItemPlace
  | container kind content =>
    (if kind = .listItem then [⟨address, around, content.head?⟩] else []) ++
      itemPlacesAll address (around ++ [kind.name]) 0 content
  | heading _ content => itemPlacesAll address (around ++ ["heading"]) 0 content
  | codeBlock _ content => itemPlacesAll address (around ++ ["codeBlock"]) 0 content
  | _ => []

/-- The list items in the nodes that a node holds from a position on. -/
def itemPlacesAll (address : List Nat) (around : List String) (position : Nat) :
    List Node → List ItemPlace
  | [] => []
  | n :: rest =>
    itemPlaces (address ++ [position]) around n ++
      itemPlacesAll address around (position + 1) rest

end

theorem itemPlacesAll_append (nodes more : List Node) :
    itemPlacesAll address around position (nodes ++ more) =
      itemPlacesAll address around position nodes ++
        itemPlacesAll address around (position + nodes.length) more := by
  induction nodes generalizing position with
  | nil => rfl
  | cons n rest ih =>
    rw [List.cons_append, itemPlacesAll, ih, itemPlacesAll, List.append_assoc, List.length_cons,
      Nat.add_assoc, Nat.add_comm 1]

/-! ## Addresses -/

/-- The node that positions lead to. -/
def descend? (n : Node) : List Nat → Option Node
  | [] => some n
  | i :: rest => n.content[i]?.bind (·.descend? rest)

/-- Positions lead to a list item with the given first node. -/
def HasItem (n : Node) (positions : List Nat) (first : Option Node) : Prop :=
  ∃ content, n.descend? positions = some (container .listItem content) ∧ first = content.head?

theorem HasItem.cons {n m : Node} {i : Nat} {rest : List Nat} {first : Option Node}
    (h : m.HasItem rest first) (hm : n.content[i]? = some m) : n.HasItem (i :: rest) first := by
  obtain ⟨content, hcontent, hfirst⟩ := h
  refine ⟨content, ?_, hfirst⟩
  rw [descend?, hm]
  exact hcontent

mutual

theorem exists_hasItem_of_mem {address : List Nat} {around : List String} {p : ItemPlace} :
    ∀ {n : Node}, p ∈ n.itemPlaces address around →
      ∃ rest, p.address = address ++ rest ∧ n.HasItem rest p.first
  | container kind content, h => by
    rw [itemPlaces, List.mem_append] at h
    rcases h with h | h
    · split_ifs at h with hkind
      · rw [List.mem_singleton.1 h, hkind]
        exact ⟨[], (List.append_nil address).symm, content, rfl, rfl⟩
      · exact absurd h List.not_mem_nil
    · obtain ⟨i, m, rest, hm, haddress, hitem⟩ := exists_hasItem_of_mem_all h
      exact ⟨(0 + i) :: rest, haddress, hitem.cons (by rwa [Nat.zero_add])⟩
  | heading _ content, h | codeBlock _ content, h => by
    obtain ⟨i, m, rest, hm, haddress, hitem⟩ := exists_hasItem_of_mem_all h
    exact ⟨(0 + i) :: rest, haddress, hitem.cons (by rwa [Nat.zero_add])⟩
  | media _, h | text _ _, h | rule, h | hardBreak, h => absurd h List.not_mem_nil

theorem exists_hasItem_of_mem_all {address : List Nat} {around : List String} {position : Nat}
    {p : ItemPlace} :
    ∀ {nodes : List Node}, p ∈ itemPlacesAll address around position nodes →
      ∃ i m rest, nodes[i]? = some m ∧ p.address = address ++ (position + i) :: rest ∧
        m.HasItem rest p.first
  | [], h => absurd h List.not_mem_nil
  | n :: nodes, h => by
    rw [itemPlacesAll, List.mem_append] at h
    rcases h with h | h
    · obtain ⟨rest, haddress, hitem⟩ := exists_hasItem_of_mem h
      refine ⟨0, n, rest, rfl, ?_, hitem⟩
      rw [haddress, List.append_assoc]
      rfl
    · obtain ⟨i, m, rest, hm, haddress, hitem⟩ := exists_hasItem_of_mem_all h
      refine ⟨i + 1, m, rest, hm, ?_, hitem⟩
      rw [haddress, Nat.add_assoc, Nat.add_comm 1]

end

/-! ## Preorder -/

mutual

theorem pairwise_itemPlaces (address : List Nat) (around : List String) :
    ∀ n : Node, (n.itemPlaces address around).Pairwise (·.address < ·.address)
  | container kind content => by
    have hcontent := pairwise_itemPlacesAll address (around ++ [kind.name]) 0 content
    rw [itemPlaces]
    split_ifs
    · refine List.pairwise_cons.2 ⟨?_, hcontent⟩
      intro p hp
      obtain ⟨i, _, rest, _, haddress, _⟩ := exists_hasItem_of_mem_all hp
      have hlt : address ++ [] < address ++ (0 + i) :: rest :=
        List.append_left_lt (List.nil_lt_cons (0 + i) rest)
      rwa [List.append_nil, ← haddress] at hlt
    · exact hcontent
  | heading _ content => pairwise_itemPlacesAll address (around ++ ["heading"]) 0 content
  | codeBlock _ content => pairwise_itemPlacesAll address (around ++ ["codeBlock"]) 0 content
  | media _ | text _ _ | rule | hardBreak => List.Pairwise.nil

theorem pairwise_itemPlacesAll (address : List Nat) (around : List String) (position : Nat) :
    ∀ nodes : List Node,
      (itemPlacesAll address around position nodes).Pairwise (·.address < ·.address)
  | [] => List.Pairwise.nil
  | n :: rest => by
    rw [itemPlacesAll, List.pairwise_append]
    refine ⟨pairwise_itemPlaces _ around n, pairwise_itemPlacesAll address around _ rest, ?_⟩
    intro p hp q hq
    obtain ⟨inner, hp, _⟩ := exists_hasItem_of_mem hp
    obtain ⟨i, _, rest, _, hq, _⟩ := exists_hasItem_of_mem_all hq
    have hlt : position < position + 1 + i := by omega
    rw [hp, hq, List.append_assoc]
    exact List.append_left_lt (List.cons_lt_cons_iff.2 (.inl hlt))

end

mutual

theorem length_around_itemPlaces (address : List Nat) (around : List String) :
    ∀ n : Node, (n.itemPlaces address around).map (·.around.length) =
      ((n.outline around.length).filter (·.2 = "listItem")).map Prod.fst
  | container kind content => by
    have hcontent := length_around_itemPlacesAll address (around ++ [kind.name]) 0 content
    rw [List.length_append] at hcontent
    rw [itemPlaces, outline, List.map_append, hcontent]
    cases kind <;> rfl
  | heading level content => by
    have hcontent := length_around_itemPlacesAll address (around ++ ["heading"]) 0 content
    rw [List.length_append] at hcontent
    rw [itemPlaces, outline, hcontent]
    rfl
  | codeBlock language content => by
    have hcontent := length_around_itemPlacesAll address (around ++ ["codeBlock"]) 0 content
    rw [List.length_append] at hcontent
    rw [itemPlaces, outline, hcontent]
    rfl
  | media _ | text _ _ | rule | hardBreak => rfl

theorem length_around_itemPlacesAll (address : List Nat) (around : List String) (position : Nat) :
    ∀ nodes : List Node, (itemPlacesAll address around position nodes).map (·.around.length) =
      ((outlineAll around.length nodes).filter (·.2 = "listItem")).map Prod.fst
  | [] => rfl
  | n :: rest => by
    rw [itemPlacesAll, outlineAll, List.map_append, List.filter_append, List.map_append,
      length_around_itemPlaces _ around n, length_around_itemPlacesAll address around _ rest]

end

end Node

namespace Document

/-- The list items of a document in preorder. -/
def itemPlaces (d : Document) : List ItemPlace := Node.itemPlacesAll [] [] 0 d.content

/-- The node at an address of a document. -/
def nodeAt? (d : Document) : List Nat → Option Node
  | [] => none
  | i :: rest => d.content[i]?.bind (·.descend? rest)

/-- An item stands at its address. -/
theorem nodeAt_of_mem_itemPlaces {d : Document} {p : ItemPlace} (h : p ∈ d.itemPlaces) :
    ∃ content, d.nodeAt? p.address = some (.container .listItem content) ∧
      p.first = content.head? := by
  obtain ⟨i, n, rest, hn, haddress, content, hcontent, hfirst⟩ := Node.exists_hasItem_of_mem_all h
  refine ⟨content, ?_, hfirst⟩
  rw [haddress, Nat.zero_add, List.nil_append, nodeAt?, hn]
  exact hcontent

/-- The addresses of the items grow. -/
theorem pairwise_itemPlaces (d : Document) :
    d.itemPlaces.Pairwise (·.address < ·.address) :=
  Node.pairwise_itemPlacesAll [] [] 0 d.content

/-- The places are those of all items in the outline of the document. -/
theorem length_around_itemPlaces (d : Document) :
    d.itemPlaces.map (·.around.length) = (d.outline.filter (·.2 = "listItem")).map Prod.fst :=
  Node.length_around_itemPlacesAll [] [] 0 d.content

end Document

/-! ## Nodes without items -/

namespace Node

/-- A node that is no list item and holds none. -/
def ItemFree (n : Node) : Prop := ∀ address around, n.itemPlaces address around = []

theorem itemPlacesAll_eq_nil {nodes : List Node} (h : ∀ n ∈ nodes, n.ItemFree) :
    itemPlacesAll address around position nodes = [] := by
  induction nodes generalizing position with
  | nil => rfl
  | cons n rest ih =>
    rw [List.forall_mem_cons] at h
    rw [itemPlacesAll, h.1, ih h.2, List.append_nil]

theorem itemFree_container {kind : Container} {content : List Node} (hkind : kind ≠ .listItem)
    (h : ∀ n ∈ content, n.ItemFree) : (container kind content).ItemFree := by
  intro address around
  rw [itemPlaces, if_neg hkind, itemPlacesAll_eq_nil h, List.append_nil]

theorem itemFree_of_mem_ofLine {t : Text} : ∀ n ∈ ofLine t, n.ItemFree := by
  intro n hn _ _
  rcases inline_of_mem_ofLine hn with rfl | ⟨_, _, rfl⟩ <;> rfl

theorem itemFree_paragraphOfLine (t : Text) : (paragraphOfLine t).ItemFree :=
  itemFree_container (by simp) itemFree_of_mem_ofLine

end Node

open Node in
/-- Only the lists of list runs have items. -/
theorem itemFree_of_mem_nodes {b : Block} (h : ∀ run, b ≠ .list run) :
    ∀ n ∈ b.nodes, n.ItemFree := by
  cases b with
  | blank => exact fun n hn => absurd hn List.not_mem_nil
  | leaf l =>
    refine List.forall_mem_singleton.2 ?_
    cases l with
    | paragraph t => exact itemFree_paragraphOfLine t
    | heading level t => exact fun _ _ => itemPlacesAll_eq_nil itemFree_of_mem_ofLine
    | rule | image => exact fun _ _ => rfl
  | code language lines => exact List.forall_mem_singleton.2 fun _ _ => rfl
  | quote first rest =>
    refine List.forall_mem_singleton.2 (itemFree_container (by simp) ?_)
    intro n hn
    split_ifs at hn
    · rw [List.mem_singleton.1 hn]
      exact fun _ _ => rfl
    · obtain ⟨t, _, rfl⟩ := List.mem_map.1 hn
      exact itemFree_paragraphOfLine t
  | table first rest =>
    refine List.forall_mem_singleton.2 (itemFree_container (by simp) ?_)
    intro n hn
    obtain ⟨row, _, rfl⟩ := List.mem_map.1 hn
    apply itemFree_container (by simp)
    intro cell hcell
    obtain ⟨t, _, rfl⟩ := List.mem_map.1 hcell
    exact itemFree_container (by simp) (List.forall_mem_singleton.2 (itemFree_paragraphOfLine t))
  | list run => exact absurd rfl (h run)

/-! ## Open lists -/

namespace OpenList

open Node

/-- The items of the lists in a stack whose outermost list is at a position of the document, as if
all lists were closed. -/
def placesOfStack (position : Nat) (stack : List OpenList) : List ItemPlace :=
  itemPlacesAll [] [] position (closeAll stack)

/-- The address of the next list inside the innermost list of a stack. -/
def slot (position : Nat) : List OpenList → List Nat
  | [] => [position]
  | l :: below => slot position below ++ [l.items.length, l.nested.length + 1]

/-- The names of the nodes around the next list inside the innermost list of a stack. -/
def slotAround : List OpenList → List String
  | [] => []
  | l :: below => slotAround below ++ [(listKind l.ordered).name, "listItem"]

/-- The place of an item that is the one at `index` of a list behind `below`. -/
def placeBehind (position : Nat) (below : List OpenList) (index : Nat) (item : ListItem) :
    ItemPlace :=
  ⟨slot position below ++ [index], slotAround below ++ [(listKind item.ordered).name],
    some (paragraphOfLine item.text)⟩

theorem length_slot (stack : List OpenList) :
    (slot position stack).length = 2 * stack.length + 1 := by
  induction stack with
  | nil => rfl
  | cons l below ih =>
    rw [slot, List.length_append, ih]
    show 2 * below.length + 1 + 2 = 2 * (below.length + 1) + 1
    omega

theorem itemPlaces_list (ordered : Bool) (items : List Node) :
    (container (listKind ordered) items).itemPlaces address around =
      itemPlacesAll address (around ++ [(listKind ordered).name]) 0 items := by
  have hkind : listKind ordered ≠ .listItem := by
    unfold listKind
    split_ifs <;> simp
  rw [itemPlaces, if_neg hkind, List.nil_append]

theorem itemPlaces_node (l : OpenList) :
    l.node.itemPlaces address around =
      itemPlacesAll address (around ++ [(listKind l.ordered).name]) 0 l.items.reverse ++
        ⟨address ++ [l.items.length], around ++ [(listKind l.ordered).name],
            some (paragraphOfLine l.text)⟩ ::
          itemPlacesAll (address ++ [l.items.length])
            (around ++ [(listKind l.ordered).name, "listItem"]) 1 l.nested.reverse := by
  have hlast : ∀ address around, l.lastItem.itemPlaces address around =
      ⟨address, around, some (paragraphOfLine l.text)⟩ ::
        itemPlacesAll address (around ++ ["listItem"]) 1 l.nested.reverse := by
    intro address around
    rw [lastItem, itemPlaces, itemPlacesAll, itemFree_paragraphOfLine]
    rfl
  rw [node, itemPlaces_list, List.reverse_cons, itemPlacesAll_append, itemPlacesAll,
    itemPlacesAll, List.append_nil, hlast, Nat.zero_add, List.length_reverse,
    List.append_assoc around]
  rfl

theorem itemPlaces_start (item : ListItem) :
    (start item).node.itemPlaces address around =
      [⟨address ++ [0], around ++ [(listKind item.ordered).name],
        some (paragraphOfLine item.text)⟩] :=
  itemPlaces_node (start item)

theorem itemPlaces_addItem (l : OpenList) {item : ListItem} (h : l.ordered = item.ordered) :
    (l.addItem item).node.itemPlaces address around =
      l.node.itemPlaces address around ++
        [⟨address ++ [l.items.length + 1], around ++ [(listKind item.ordered).name],
          some (paragraphOfLine item.text)⟩] := by
  rw [itemPlaces_node, node, itemPlaces_list, ← h]
  rfl

theorem itemPlaces_nest (l : OpenList) (n : Node) :
    (l.nest n).node.itemPlaces address around =
      l.node.itemPlaces address around ++
        n.itemPlaces (address ++ [l.items.length, l.nested.length + 1])
          (around ++ [(listKind l.ordered).name, "listItem"]) := by
  have hnested : (l.nest n).nested.reverse = l.nested.reverse ++ [n] := List.reverse_cons
  rw [itemPlaces_node, itemPlaces_node, hnested, itemPlacesAll_append, itemPlacesAll,
    itemPlacesAll, List.append_nil, List.length_reverse, List.append_assoc, List.append_assoc,
    Nat.add_comm 1]
  rfl

theorem placesOfStack_nil : placesOfStack position [] = [] := by
  rw [placesOfStack, closeAll_nil]
  rfl

/-- The items of the innermost list are the last ones, and they stand at the slot of the lists
below it. -/
theorem placesOfStack_cons (l : OpenList) (below : List OpenList) :
    placesOfStack position (l :: below) =
      placesOfStack position below ++
        l.node.itemPlaces (slot position below) (slotAround below) := by
  induction below generalizing l with
  | nil =>
    rw [placesOfStack_nil, placesOfStack, closeAll_singleton]
    exact List.append_nil _
  | cons outer rest ih =>
    rw [placesOfStack, closeAll_cons_cons]
    exact (ih _).trans (by rw [itemPlaces_nest, ← List.append_assoc, ← ih outer]; rfl)

theorem placesOfStack_start (item : ListItem) (below : List OpenList) :
    placesOfStack position (start item :: below) =
      placesOfStack position below ++ [placeBehind position below 0 item] := by
  rw [placesOfStack_cons, itemPlaces_start]
  rfl

theorem placesOfStack_addItem (l : OpenList) (below : List OpenList) {item : ListItem}
    (h : l.ordered = item.ordered) :
    placesOfStack position (l.addItem item :: below) =
      placesOfStack position (l :: below) ++
        [placeBehind position below (l.items.length + 1) item] := by
  rw [placesOfStack_cons, placesOfStack_cons, itemPlaces_addItem l h, List.append_assoc]
  rfl

theorem placesOfStack_close (l : OpenList) (below : List OpenList) :
    itemPlacesAll [] [] position (l.close below).1 ++
        placesOfStack (position + (l.close below).1.length) (l.close below).2 =
      placesOfStack position (l :: below) := by
  cases below with
  | nil =>
    show itemPlacesAll [] [] position [l.node] ++ placesOfStack (position + 1) [] =
      placesOfStack position [l]
    rw [placesOfStack_nil, List.append_nil, placesOfStack, closeAll_singleton]
  | cons outer rest =>
    show placesOfStack position (outer.nest l.node :: rest) = _
    rw [placesOfStack, placesOfStack, closeAll_cons_cons]

end OpenList

end TicketMarkup
