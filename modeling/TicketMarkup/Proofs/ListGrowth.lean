import TicketMarkup.Proofs.OpenLists
import TicketMarkup.Proofs.TreeGrowth

/-!
# Open lists that grow at their end

The open lists and their last items are the last containers of the nodes so far, one inside the
other: the list at depth `d` stands `2 * (d - 1)` deep among them, and its last item one deeper. A
list that starts, or an item that goes on with one, is added there (`closeAll_start`,
`closeAll_addItem`).

Lists that are linked by number follow the same containers (`ListLinks.Follow`). An item changes both
alike (`LinkedDocument.Matches.exists_addItem`).
-/

namespace TicketMarkup

/-! ## Lists as nodes -/

namespace OpenList

/-- A node in the last item of open lists, each inside the next. -/
def around (n : Node) : List OpenList → List Node
  | [] => [n]
  | outer :: rest => around (outer.nest n).node rest

theorem closeAll_cons (l : OpenList) (below : List OpenList) :
    closeAll (l :: below) = around l.node below := by
  induction below generalizing l with
  | nil => exact closeAll_singleton l
  | cons outer rest ih => rw [closeAll_cons_cons, ih, around]

theorem around_ne_nil (n : Node) (stack : List OpenList) : around n stack ≠ [] := by
  induction stack generalizing n with
  | nil => simp [around]
  | cons outer rest ih => exact ih (outer.nest n).node

theorem closeAll_cons_ne_nil (l : OpenList) (below : List OpenList) :
    closeAll (l :: below) ≠ [] := by
  rw [closeAll_cons]
  exact around_ne_nil l.node below

theorem node_eq (l : OpenList) :
    l.node = .container (Node.listKind l.ordered) (l.items.reverse ++ [l.lastItem]) := by
  rw [node, List.reverse_cons]

theorem node_nest (outer : OpenList) (n : Node) :
    (outer.nest n).node = .container (Node.listKind outer.ordered) (outer.items.reverse ++
      [.container .listItem (Node.paragraphOfLine outer.text :: outer.nested.reverse ++ [n])]) := by
  simp [node, nest, lastItem]

/-- What is added inside a container stays there with lists around the container. -/
theorem addLast_around (n : Node) (depth : Nat) (kind : Container) (content : List Node)
    (stack : List OpenList) :
    Node.addLast n (2 * stack.length + depth + 1) (around (.container kind content) stack) =
      around (.container kind (Node.addLast n depth content)) stack := by
  induction stack generalizing depth kind content with
  | nil =>
    rw [List.length_nil, Nat.mul_zero, Nat.zero_add]
    exact Node.addLast_concat_container n depth [] kind content
  | cons outer rest ih =>
    have hdepth : 2 * (outer :: rest).length + depth + 1 = 2 * rest.length + (depth + 2) + 1 := by
      rw [List.length_cons]
      omega
    rw [around, around, node_nest, node_nest, hdepth, ih, Node.addLast_concat_container,
      Node.addLast_concat_container]

/-- A node in the last item comes behind what is there. -/
theorem around_eq_addLast (n : Node) (stack : List OpenList) :
    around n stack = Node.addLast n (2 * stack.length) (closeAll stack) := by
  cases stack with
  | nil => rw [closeAll_nil]; rfl
  | cons l below =>
    have hdepth : 2 * (l :: below).length = 2 * below.length + 1 + 1 := rfl
    rw [around, closeAll_cons, node_nest, hdepth, node_eq l, addLast_around, lastItem,
      Node.addLast_concat_container]
    rfl

/-- **A list that starts.** It comes behind what is in the last item, with its item inside it. -/
theorem closeAll_start (item : ListItem) (stack : List OpenList) :
    closeAll (start item :: stack) =
      Node.addLast (.itemOfLine item.text) (2 * stack.length + 1)
        (Node.addLast (.container (Node.listKind item.ordered) []) (2 * stack.length)
          (closeAll stack)) := by
  rw [closeAll_cons, ← around_eq_addLast]
  exact (addLast_around (.itemOfLine item.text) 0 _ [] stack).symm

/-- **A list that goes on.** The item comes behind the others of the list. -/
theorem closeAll_addItem (l : OpenList) (item : ListItem) (below : List OpenList) :
    closeAll (l.addItem item :: below) =
      Node.addLast (.itemOfLine item.text) (2 * below.length + 1) (closeAll (l :: below)) := by
  have hnode : (l.addItem item).node = .container (Node.listKind l.ordered)
      (Node.addLast (.itemOfLine item.text) 0 (l.items.reverse ++ [l.lastItem])) := by
    rw [node_eq, Node.addLast, addItem, List.reverse_cons]
    rfl
  rw [closeAll_cons, closeAll_cons, node_eq l, hnode]
  exact (addLast_around (.itemOfLine item.text) 0 _ _ below).symm

theorem closeAll_close (l : OpenList) (below : List OpenList) :
    (l.close below).1 ++ closeAll (l.close below).2 = closeAll (l :: below) := by
  cases below with
  | nil => rw [close, closeAll_singleton, closeAll_nil]; rfl
  | cons outer rest => rw [close, closeAll_cons_cons]; rfl

/-! ## Kinds -/

theorem map_ordered_close (l : OpenList) (below : List OpenList) :
    (l.close below).2.map OpenList.ordered = below.map OpenList.ordered := by
  cases below <;> rfl

/-- Lists that are left open are of the kinds they were of. -/
theorem map_ordered_closeTo {depth : Nat} (hone : 1 ≤ depth) (stack : List OpenList) :
    (closeTo depth stack).map OpenList.ordered =
      (stack.map OpenList.ordered).drop (stack.length - depth) := by
  fun_induction closeTo depth stack with
  | case1 inner outer rest hdepth ih =>
    have hlength : (inner :: outer :: rest).length - depth = rest.length + 1 - depth + 1 := by
      rw [List.length_cons, List.length_cons]
      omega
    rw [ih, hlength]
    rfl
  | case2 inner outer rest hdepth =>
    have hlength : (inner :: outer :: rest).length - depth = 0 := by
      rw [List.length_cons, List.length_cons]
      omega
    rw [hlength, List.drop_zero]
  | case3 stack hstack =>
    have hlength : stack.length ≤ 1 := by
      rcases stack with _ | ⟨inner, _ | ⟨outer, rest⟩⟩
      · exact Nat.zero_le 1
      · exact Nat.le_refl 1
      · exact absurd rfl (hstack inner outer rest)
    rw [Nat.sub_eq_zero_of_le (Nat.le_trans hlength hone), List.drop_zero]

end OpenList

/-! ## Lists that are linked by number -/

open NodeTree

namespace ListLinks

/-- Open lists are the last containers of trees, innermost first: each list but the outermost stands
in the last item of the next. -/
inductive Follow (trees : List NodeTree) : List ListLinks → Prop
  | nil : Follow trees []
  | cons {l : ListLinks} {outer : List ListLinks} {item : Nat} (lastItem : l.lastItem = some item)
      (atList : LastAt (2 * outer.length) trees l.list)
      (atItem : LastAt (2 * outer.length + 1) trees item) (rest : Follow trees outer) :
    Follow trees (l :: outer)

variable {trees : List NodeTree} {lists outer : List ListLinks}

/-- Growth inside the innermost item keeps all links. -/
theorem Follow.plantAt (h : Follow trees lists) {depth : Nat} (hdepth : 2 * lists.length ≤ depth)
    (n : Node) : Follow (plantAt n depth trees) lists := by
  induction h with
  | nil => exact .nil
  | cons lastItem atList atItem rest ih =>
    rw [List.length_cons] at hdepth
    exact .cons lastItem (atList.plantAt (by omega) n) (atItem.plantAt (by omega) n) (ih (by omega))

theorem Follow.drop (h : Follow trees lists) (count : Nat) : Follow trees (lists.drop count) := by
  induction h generalizing count with
  | nil => rw [List.drop_nil]; exact .nil
  | cons lastItem atList atItem rest ih =>
    cases count with
    | zero => exact .cons lastItem atList atItem rest
    | succ count => exact ih count

/-- A container that is added inside the innermost item, or as a block, has the next number. -/
theorem Follow.lastAt_plantAt (h : Follow trees outer) (kind : Container) (own : List Node) :
    LastAt (2 * outer.length) (NodeTree.plantAt (.container kind own) (2 * outer.length) trees)
      (sizeAll trees) := by
  cases h with
  | nil => exact lastAt_plantAt_zero trees kind own
  | cons lastItem atList atItem rest => exact atItem.planted kind own

/-- A list with a new last item goes on being followed. -/
theorem Follow.cons_plantAt {l : ListLinks} (h : Follow trees outer)
    (atList : LastAt (2 * outer.length) trees l.list) (own : List Node) :
    Follow (NodeTree.plantAt (.container .listItem own) (2 * outer.length + 1) trees)
      ({ l with lastItem := some (sizeAll trees) } :: outer) :=
  .cons rfl (atList.plantAt (Nat.lt_succ_self _) _) (atList.planted .listItem own)
    (h.plantAt (Nat.le_succ _) _)

/-- The last item of each list is its last child. -/
theorem Follow.getLast?_list (h : Follow trees lists) :
    ∀ l ∈ lists, ∃ item, l.lastItem = some item ∧
      (Arena.children (slotsAll 0 trees) l.list).getLast? = some item := by
  induction h with
  | nil => exact List.forall_mem_nil _
  | @cons l outer item lastItem atList atItem rest ih =>
    refine List.forall_mem_cons.2 ⟨⟨item, lastItem, ?_⟩, ih⟩
    rw [atList.getLast?_children atItem, Nat.zero_add]

/-- Each list inside another is the last child of the other's last item. -/
theorem Follow.isChain (h : Follow trees lists) :
    lists.IsChain fun inner outer => ∃ item, outer.lastItem = some item ∧
      (Arena.children (slotsAll 0 trees) item).getLast? = some inner.list := by
  induction h with
  | nil => exact .nil
  | @cons l outer item lastItem atList atItem rest ih =>
    cases rest with
    | nil => exact .singleton l
    | @cons l' outer' item' lastItem' atList' atItem' rest' =>
      refine List.isChain_cons_cons.2 ⟨⟨item', lastItem', ?_⟩, ih⟩
      rw [atItem'.getLast?_children atList, Nat.zero_add]

end ListLinks

namespace LinkedDocument

open ListLinks

variable {d : LinkedDocument} {trees : List NodeTree} {lists outer : List ListLinks}

/-- A document with the slots of trees. -/
def withTrees (d : LinkedDocument) (trees : List NodeTree) : LinkedDocument :=
  { d with arena := slotsAll 0 trees, roots := numbers 0 trees }

theorem length_arena_withTrees : (d.withTrees trees).arena.length = sizeAll trees :=
  length_slotsAll 0 trees

theorem plant_none_withTrees (n : Node) :
    (d.withTrees trees).plant none n = d.withTrees (plantAt n 0 trees) := by
  rw [plant, length_arena_withTrees, withTrees, withTrees, slotsAll_plantAt_zero, plantAt,
    numbers_concat, Nat.zero_add]

theorem plant_some_withTrees {depth id : Nat} (h : LastAt depth trees id) (n : Node) :
    (d.withTrees trees).plant (some id) n = d.withTrees (plantAt n (depth + 1) trees) := by
  rw [plant, withTrees, withTrees, slotsAll_plantAt h, numbers_plantAt_succ h]

/-- A list is opened inside the innermost item or, without one, as a block. -/
theorem openList_withTrees (h : Follow trees outer) {depth : Nat} (hlt : outer.length < depth)
    (ordered : Bool) :
    (withTrees { lists := outer } trees).openList depth ordered =
      withTrees { lists := ⟨sizeAll trees, ordered, none⟩ :: outer }
        (plantAt (.container (Node.listKind ordered) []) (2 * outer.length) trees) := by
  have hplant : (withTrees { lists := outer } trees).plant
      (withTrees { lists := outer } trees).listParent (.container (Node.listKind ordered) []) =
        withTrees { lists := outer }
          (plantAt (.container (Node.listKind ordered) []) (2 * outer.length) trees) := by
    cases h with
    | nil => exact plant_none_withTrees _
    | @cons l outer item lastItem atList atItem rest =>
      have hparent : (withTrees { lists := l :: outer } trees).listParent = some item := by
        rw [listParent, withTrees, List.head?_cons, Option.map_some, lastItem, Option.getD_some]
      rw [hparent]
      exact plant_some_withTrees atItem _
  have hopen : (withTrees { lists := outer } trees).lists.length < depth := hlt
  rw [openList, if_pos hopen, hplant, length_arena_withTrees]
  rfl

theorem plantItem_of_lists {l : ListLinks} (h : d.lists = l :: outer) (text : Text) :
    d.plantItem text =
      { d.plant (some l.list) (.itemOfLine text) with
        lists := { l with lastItem := some d.arena.length } :: outer } := by
  rw [plantItem, h]

/-- An item is added to the innermost list. -/
theorem plantItem_withTrees {l : ListLinks} (atList : LastAt (2 * outer.length) trees l.list)
    (text : Text) :
    (withTrees { lists := l :: outer } trees).plantItem text =
      withTrees { lists := { l with lastItem := some (sizeAll trees) } :: outer }
        (plantAt (.itemOfLine text) (2 * outer.length + 1) trees) := by
  rw [plantItem_of_lists rfl, plant_some_withTrees atList, length_arena_withTrees]
  rfl

/-! ## Items -/

/-- Linked lists and the trees that they follow are those of open lists behind finished blocks. -/
structure Matches (trees : List NodeTree) (lists : List ListLinks) (finished : List Node)
    (stack : List OpenList) : Prop where
  follow : Follow trees lists
  kinds : lists.map ListLinks.ordered = stack.map OpenList.ordered
  nodes : toNodes trees = finished ++ OpenList.closeAll stack

variable {finished : List Node} {stack below : List OpenList} {item : ListItem}

theorem Matches.length_eq (h : Matches trees lists finished stack) :
    lists.length = stack.length := by
  rw [← List.length_map ListLinks.ordered, h.kinds, List.length_map]

/-- What is added to the nodes inside the innermost item, or as a block. -/
theorem Matches.nodes_plantAt (h : Matches trees lists finished stack) (n : Node) :
    toNodes (plantAt n (2 * lists.length) trees) = finished ++ OpenList.around n stack := by
  rw [OpenList.around_eq_addLast, ← h.length_eq]
  cases h.follow with
  | nil =>
    have hstack : stack = [] := List.length_eq_zero_iff.1 h.length_eq.symm
    rw [List.length_nil, Nat.mul_zero, toNodes_plantAt_zero, h.nodes, List.append_assoc]
    rfl
  | @cons l outer item lastItem atList atItem rest =>
    have hne : OpenList.closeAll stack ≠ [] := by
      cases stack with
      | nil => exact absurd h.length_eq (by simp)
      | cons m below => exact OpenList.closeAll_cons_ne_nil m below
    exact (toNodes_plantAt atItem n).trans
      ((congrArg _ h.nodes).trans (Node.addLast_append n finished (.inr hne)))

/-- An item that starts a list. -/
theorem Matches.start (h : Matches trees outer finished stack) (item : ListItem) :
    ∃ trees' l, ((withTrees { lists := outer } trees).openList (outer.length + 1)
        item.ordered).plantItem item.text = withTrees { lists := l :: outer } trees' ∧
      Matches trees' (l :: outer) finished (.start item :: stack) := by
  let kind := Node.listKind item.ordered
  let grown := plantAt (.container kind []) (2 * outer.length) trees
  let l : ListLinks := ⟨sizeAll trees, item.ordered, none⟩
  have atList : LastAt (2 * outer.length) grown l.list := h.follow.lastAt_plantAt kind []
  refine ⟨plantAt (.itemOfLine item.text) (2 * outer.length + 1) grown,
    { l with lastItem := some (sizeAll grown) }, ?_, ?_, ?_, ?_⟩
  · rw [openList_withTrees h.follow (Nat.lt_succ_self _)]
    exact plantItem_withTrees atList item.text
  · exact (h.follow.plantAt (Nat.le_refl _) _).cons_plantAt atList _
  · rw [List.map_cons, List.map_cons, h.kinds]
    rfl
  · have hgrown : toNodes grown = finished ++ OpenList.around (.container kind []) stack :=
      h.nodes_plantAt _
    have hne := OpenList.around_ne_nil (.container kind []) stack
    rw [toNodes_plantAt atList, hgrown, Node.addLast_append _ _ (.inr hne), OpenList.closeAll_start,
      ← OpenList.around_eq_addLast, h.length_eq]

/-- An item that goes on with a list. -/
theorem Matches.addItem {l : ListLinks} {m : OpenList}
    (h : Matches trees (l :: outer) finished (m :: below)) (item : ListItem) :
    ∃ trees' l', (withTrees { lists := l :: outer } trees).plantItem item.text =
        withTrees { lists := l' :: outer } trees' ∧
      Matches trees' (l' :: outer) finished (m.addItem item :: below) := by
  cases h.follow with
  | cons lastItem atList atItem rest =>
    have hlength : outer.length = below.length := Nat.succ_inj.1 h.length_eq
    have hne := OpenList.closeAll_cons_ne_nil m below
    refine ⟨plantAt (.itemOfLine item.text) (2 * outer.length + 1) trees,
      { l with lastItem := some (sizeAll trees) }, plantItem_withTrees atList item.text,
      rest.cons_plantAt atList _, h.kinds, ?_⟩
    rw [toNodes_plantAt atList, h.nodes, Node.addLast_append _ _ (.inr hne),
      OpenList.closeAll_addItem, hlength]

/-- The lists that an item leaves open. -/
theorem Matches.closeTo (h : Matches trees lists finished stack) {depth : Nat} (hone : 1 ≤ depth) :
    Matches trees (lists.drop (lists.length - depth)) finished (OpenList.closeTo depth stack) where
  follow := h.follow.drop _
  kinds := by rw [List.map_drop, OpenList.map_ordered_closeTo hone, h.kinds, h.length_eq]
  nodes := by rw [h.nodes, OpenList.closeAll_closeTo]

/-- The innermost list ends. -/
theorem Matches.close {l : ListLinks} {m : OpenList}
    (h : Matches trees (l :: outer) finished (m :: below)) :
    Matches trees outer (finished ++ (m.close below).1) (m.close below).2 where
  follow := h.follow.drop 1
  kinds := by rw [OpenList.map_ordered_close]; exact (List.cons_eq_cons.1 h.kinds).2
  nodes := by rw [h.nodes, List.append_assoc, OpenList.closeAll_close]

theorem closeDeeper_withTrees (depth : Nat) :
    (withTrees { lists := lists } trees).closeDeeper depth =
      withTrees { lists := lists.drop (lists.length - depth) } trees := rfl

theorem openList_of_le {depth : Nat} (h : depth ≤ d.lists.length) (ordered : Bool) :
    d.openList depth ordered = d := if_neg (Nat.not_lt.2 h)

/-- An item at the depth of the innermost list goes on with it, or ends it and starts a list. -/
theorem Matches.exists_addItem_of_cons {l : ListLinks} {m : OpenList}
    (h : Matches trees (l :: outer) finished (m :: below)) (item : ListItem) :
    ∃ trees' l', (((withTrees { lists := l :: outer } trees).closeOtherKind (outer.length + 1)
        item.ordered).openList (outer.length + 1) item.ordered).plantItem item.text =
          withTrees { lists := l' :: outer } trees' ∧
      let next := if m.ordered = item.ordered then ([], m.addItem item :: below)
        else ((m.close below).1, .start item :: (m.close below).2)
      Matches trees' (l' :: outer) (finished ++ next.1) next.2 := by
  have hkind : l.ordered = m.ordered := (List.cons_eq_cons.1 h.kinds).1
  by_cases hsame : m.ordered = item.ordered
  · obtain ⟨trees', l', hplant, hmatches⟩ := h.addItem item
    have hopen : outer.length + 1 ≤ (withTrees { lists := l :: outer } trees).lists.length :=
      Nat.le_refl _
    refine ⟨trees', l', ?_, ?_⟩
    · rw [closeOtherKind, if_neg (by simp [withTrees, hkind, hsame]), openList_of_le hopen, hplant]
    · simpa only [if_pos hsame, List.append_nil] using hmatches
  · obtain ⟨trees', l', hplant, hmatches⟩ := h.close.start item
    refine ⟨trees', l', ?_, ?_⟩
    · rw [closeOtherKind, if_pos (by simp [withTrees, hkind, hsame])]
      exact hplant
    · rw [if_neg hsame]
      exact hmatches

/-- **Items.** Linked lists that match open lists do so behind a further item, unless it is too deep
for them. -/
theorem Matches.exists_addItem (h : Matches trees lists finished stack) (hone : 1 ≤ item.depth)
    (hdepth : item.depth ≤ lists.length + 1) :
    ∃ trees' lists', (withTrees { lists := lists } trees).addItem item =
        withTrees { lists := lists' } trees' ∧ lists'.length = item.depth ∧
      Matches trees' lists' (finished ++ (OpenList.addToStack item stack).1)
        (OpenList.addToStack item stack).2 := by
  have hclamp : (withTrees { lists := lists } trees).clampDepth item.depth = item.depth := by
    show max 1 (min item.depth (lists.length + 1)) = item.depth
    omega
  rw [LinkedDocument.addItem, hclamp, closeDeeper_withTrees]
  rcases Nat.lt_or_eq_of_le hdepth with hlt | hdeeper
  · have hle : item.depth ≤ stack.length := h.length_eq ▸ Nat.le_of_lt_succ hlt
    obtain ⟨m, below, hstack, hlength, hadd⟩ := OpenList.addToStack_of_depth_le hone hle
    have hclosed := h.closeTo hone
    rw [hstack] at hclosed
    obtain ⟨l, outer, hlists⟩ := List.exists_cons_of_length_eq_add_one hclosed.length_eq
    rw [hlists] at hclosed ⊢
    have houter : item.depth = outer.length + 1 := hlength.trans hclosed.length_eq.symm
    obtain ⟨trees', l', hplant, hmatches⟩ := hclosed.exists_addItem_of_cons item
    refine ⟨trees', l' :: outer, ?_, houter.symm, ?_⟩
    · rw [houter, hplant]
    · rw [hadd]
      exact hmatches
  · -- The item is one level deeper than the lists, so none of them ends.
    have hadd := OpenList.addToStack_of_depth_eq (hdeeper.trans (congrArg (· + 1) h.length_eq))
    obtain ⟨trees', l, hplant, hmatches⟩ := h.start item
    refine ⟨trees', l :: lists, ?_, hdeeper.symm, ?_⟩
    · rw [hdeeper, Nat.sub_eq_zero_of_le (Nat.le_succ _), List.drop_zero, closeOtherKind,
        if_neg (by simp [withTrees]), hplant]
    · rw [hadd, List.append_nil]
      exact hmatches

end LinkedDocument

end TicketMarkup
