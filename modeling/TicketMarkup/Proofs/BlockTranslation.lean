import TicketMarkup.Proofs.BlockNodes
import TicketMarkup.Proofs.EventTexts
import TicketMarkup.Proofs.OpenLists
import Mathlib.Data.List.SplitBy
import Mathlib.Data.List.TakeWhile

/-!
# The translation of blocks

`content_ofMarkdown`: a document has the blocks of its text, one after the other, each translated
apart.

1. `Block.translation` says what each block becomes. A run of list items is cut into its items of
   depth 1, each with the deeper items behind it; neighbours of the same kind share a list, and the
   deeper items become lists inside their item in the same way (`itemNodes`).
2. The builder reads a run item by item and keeps a stack of open lists. A stretch of deeper items
   adds lists to the open item, and the items of its own depth go on with the open list or close it
   (`nodesOfItems_append`, by induction on the number of items). So it ends with the lists of the
   translation (`nodesOfItems_items`).
-/

namespace TicketMarkup

/-! ## Translating blocks -/

/-- The lists of neighbouring items, each a kind and a node: one list for each longest stretch of
items of the same kind. -/
def listsOf (items : List (Bool × Node)) : List Node :=
  (items.splitBy fun a b => a.1 == b.1).map fun group =>
    .container (Node.listKind (group.any Prod.fst)) (group.map Prod.snd)

/-- The item with the lists inside it. -/
def ListItem.node (item : ListItem) (lists : List Node) : Node :=
  .container .listItem (Node.paragraphOfLine item.text :: lists)

/-- The items of a depth, each a kind and a node. The deeper items that follow an item make the
lists inside it. -/
def itemNodes (depth : Nat) : List ListItem → List (Bool × Node)
  | [] => []
  | item :: rest =>
    (item.ordered, item.node (listsOf (itemNodes (depth + 1) (rest.takeWhile (depth < ·.depth))))) ::
      itemNodes depth (rest.dropWhile (depth < ·.depth))
termination_by items => items.length
decreasing_by
  · exact Nat.lt_succ_of_le (List.takeWhile_prefix _).length_le
  · exact Nat.lt_succ_of_le (List.dropWhile_suffix _).length_le

/-- The nodes that a block becomes. -/
def Block.translation : Block → List Node
  | blank => []
  | leaf (.paragraph text) => [.container .paragraph (Node.ofLine text)]
  | leaf (.heading level text) => [.heading level.toUInt8 (Node.ofLine text)]
  | leaf .rule => [.rule]
  | leaf (.image r) =>
    [.container .mediaSingle [.media ⟨r.target, if r.label.isEmpty then none else r.label, r.title⟩]]
  | code language lines => [.codeBlock language [.text (Text.join ['\n'] lines) []]]
  | quote first rest =>
    match (first :: rest).filter (!·.isBlank) with
    | [] => [.container .blockquote [.container .paragraph [.text [] []]]]
    | shown => [.container .blockquote
        (shown.map fun line => .container .paragraph (Node.ofLine line))]
  | table first rest =>
    [.container .table ((first :: rest).map fun row =>
      .container .tableRow (row.cells.map fun cell =>
        .container .tableCell [.container .paragraph (Node.ofLine cell)]))]
  | list run => listsOf (itemNodes 1 run.items)

/-! ## Open lists and stretches of items -/

namespace OpenList

/-- The list with further lists inside its last item. -/
def nestAll (l : OpenList) (lists : List Node) : OpenList :=
  { l with nested := lists.reverse ++ l.nested }

/-- The items of the list, each with its kind. -/
def parts (l : OpenList) : List (Bool × Node) := (l.lastItem :: l.items).reverse.map (l.ordered, ·)

/-- Finished lists go into the item around them or, if there is none, into the document. -/
def deliver (lists : List Node) : List OpenList → List Node × List OpenList
  | [] => (lists, [])
  | outer :: rest => ([], outer.nestAll lists :: rest)

theorem close_eq_deliver (l : OpenList) (below : List OpenList) :
    l.close below = deliver [l.node] below := by
  cases below <;> rfl

theorem length_deliver (lists : List Node) (below : List OpenList) :
    (deliver lists below).2.length = below.length := by
  cases below <;> rfl

theorem parts_ne_nil (l : OpenList) : l.parts ≠ [] := by
  simp [parts]

theorem isChain_parts (l : OpenList) : l.parts.IsChain fun a b => a.1 == b.1 := by
  rw [parts, List.isChain_map]
  exact (List.pairwise_of_forall fun _ _ => beq_self_eq_true l.ordered).isChain

theorem fst_of_mem_parts {l : OpenList} {part : Bool × Node} (h : part ∈ l.parts) :
    part.1 = l.ordered := by
  obtain ⟨n, -, rfl⟩ := List.mem_map.1 h
  rfl

theorem container_parts (l : OpenList) :
    Node.container (Node.listKind (l.parts.any Prod.fst)) (l.parts.map Prod.snd) = l.node := by
  have hkind : l.parts.any Prod.fst = l.ordered := by
    rw [parts, List.any_map]
    cases l.ordered <;> simp
  rw [hkind, parts, List.map_map, node]
  congr 1
  exact List.map_id _

theorem listsOf_parts (l : OpenList) : listsOf l.parts = [l.node] := by
  rw [listsOf, List.splitBy_of_isChain l.parts_ne_nil l.isChain_parts, List.map_singleton,
    container_parts]

/-- An item of the other kind ends a list. -/
theorem listsOf_parts_append {l : OpenList} {part : Bool × Node} (h : l.ordered ≠ part.1)
    (rest : List (Bool × Node)) :
    listsOf (l.parts ++ part :: rest) = l.node :: listsOf (part :: rest) := by
  have hends : ∀ last ∈ l.parts.getLast?, (last.1 == part.1) = false := by
    intro last hlast
    rwa [fst_of_mem_parts (List.mem_of_getLast? hlast), beq_eq_false_iff_ne]
  rw [listsOf, List.splitBy_append_cons rest hends, List.map_append]
  exact congrArg (· ++ listsOf (part :: rest)) l.listsOf_parts

theorem parts_start (item : ListItem) (lists : List Node) :
    ((start item).nestAll lists).parts = [(item.ordered, item.node lists)] := by
  simp [parts, nestAll, start, lastItem, ListItem.node]

theorem parts_addItem {l : OpenList} {item : ListItem} (h : l.ordered = item.ordered)
    (lists : List Node) :
    ((l.addItem item).nestAll lists).parts = l.parts ++ [(item.ordered, item.node lists)] := by
  simp [parts, nestAll, addItem, lastItem, ListItem.node, h]

/-! ## Runs of items -/

/-- What comes of further items behind finished lists. -/
def nodesBehind (lists : List Node) (below : List OpenList) (items : List ListItem) : List Node :=
  (deliver lists below).1 ++ nodesOfItems (deliver lists below).2 items

/-- Lists are delivered one after the other. -/
theorem nodesBehind_cons (n : Node) (lists : List Node) (below : List OpenList)
    (items : List ListItem) :
    nodesBehind (n :: lists) below items =
      (deliver [n] below).1 ++ nodesBehind lists (deliver [n] below).2 items := by
  cases below with
  | nil => rfl
  | cons outer more => simp [nodesBehind, deliver, nestAll]

/-- A list is closed by an item that is less deep, and at the end. -/
theorem nodesOfItems_close (l : OpenList) (below : List OpenList) {items : List ListItem}
    (h : ∀ item ∈ items.head?, 1 ≤ item.depth ∧ item.depth ≤ below.length) :
    nodesOfItems (l :: below) items = nodesBehind [l.node] below items := by
  cases below with
  | nil =>
    cases items with
    | nil =>
      rw [nodesBehind, deliver, nodesOfItems, nodesOfItems, closeAll_singleton, closeAll_nil]
      rfl
    | cons item rest =>
      have := h item rfl
      rw [List.length_nil] at this
      omega
  | cons outer more =>
    cases items with
    | nil => rw [nodesOfItems, closeAll_cons_cons]; rfl
    | cons item rest =>
      have hclose : closeTo item.depth (l :: outer :: more) =
          closeTo item.depth (outer.nest l.node :: more) := by
        rw [closeTo]
        exact if_pos (h item rfl).2
      rw [nodesOfItems, addToStack, hclose]
      rfl

theorem nodesOfItems_start {item : ListItem} {stack : List OpenList}
    (h : item.depth = stack.length + 1) (rest : List ListItem) :
    nodesOfItems stack (item :: rest) = nodesOfItems (start item :: stack) rest := by
  rw [nodesOfItems, addToStack_of_depth_eq h]
  rfl

/-- An item of the depth of the open list goes on with it or takes its place. -/
theorem nodesOfItems_of_depth_eq {item : ListItem} {l : OpenList} {below : List OpenList}
    (h : item.depth = below.length + 1) (rest : List ListItem) :
    nodesOfItems (l :: below) (item :: rest) =
      if l.ordered = item.ordered then nodesOfItems (l.addItem item :: below) rest
      else (deliver [l.node] below).1 ++
        nodesOfItems (start item :: (deliver [l.node] below).2) rest := by
  have hle : item.depth ≤ (l :: below).length := Nat.le_of_eq h
  have hge : (l :: below).length ≤ item.depth := Nat.le_of_eq h.symm
  obtain ⟨l', below', heq, -, hstep⟩ := addToStack_of_depth_le (by omega) hle
  rw [closeTo_of_length_le hge] at heq
  obtain ⟨rfl, rfl⟩ := List.cons_eq_cons.1 heq
  rw [nodesOfItems, hstep, close_eq_deliver]
  split_ifs <;> rfl

/-! ## Stretches of items -/

/-- Items behind one of the given depth: each is at most one deeper than the one before it. -/
def Climbs (depth : Nat) (items : List ListItem) : Prop :=
  (depth :: items.map ListItem.depth).IsChain fun a b => b ≤ a + 1

theorem le_of_mem_head?_dropWhile (depth : Nat) (items : List ListItem) :
    ∀ item ∈ (items.dropWhile (depth < ·.depth)).head?, item.depth ≤ depth := by
  intro item hitem
  simpa using Text.not_of_mem_head?_dropWhile hitem

/-- A stretch of items is cut into the deeper items at its head and the items from the first other
one on. -/
theorem Climbs.exists_split {k : Nat} {items : List ListItem} (h : Climbs k items) (depth : Nat) :
    ∃ inner more, items = inner ++ more ∧ items.takeWhile (depth < ·.depth) = inner ∧
      items.dropWhile (depth < ·.depth) = more ∧ (∀ item ∈ inner, depth + 1 ≤ item.depth) ∧
      (∀ item ∈ more.head?, item.depth ≤ depth) ∧ Climbs k inner ∧ Climbs depth more := by
  have hsplit := List.takeWhile_append_dropWhile (p := fun i : ListItem => depth < i.depth)
    (l := items)
  have hhead := le_of_mem_head?_dropWhile depth items
  refine ⟨_, _, hsplit.symm, rfl, rfl, ?_, hhead, ?_⟩
  · intro item hitem
    have := List.mem_takeWhile_imp hitem
    exact Nat.succ_le_of_lt (by simpa using this)
  · rw [Climbs, ← hsplit, List.map_append, ← List.cons_append, List.isChain_append] at h
    refine ⟨h.1, List.isChain_cons.2 ⟨?_, h.2.1⟩⟩
    rw [List.head?_map]
    rintro d hd
    obtain ⟨item, hitem, rfl⟩ := Option.map_eq_some_iff.1 hd
    exact Nat.le_succ_of_le (hhead item hitem)

/-- The items of the open list `l` with everything that a stretch of items adds: the items deeper
than the list make lists inside its last item, and the items of its depth follow. -/
def partsWith (l : OpenList) (depth : Nat) (items : List ListItem) : List (Bool × Node) :=
  (l.nestAll (listsOf (itemNodes (depth + 1) (items.takeWhile (depth < ·.depth))))).parts ++
    itemNodes depth (items.dropWhile (depth < ·.depth))

theorem itemNodes_cons (depth : Nat) (item : ListItem) (rest : List ListItem) :
    itemNodes depth (item :: rest) =
      (item.ordered,
        item.node (listsOf (itemNodes (depth + 1) (rest.takeWhile (depth < ·.depth))))) ::
        itemNodes depth (rest.dropWhile (depth < ·.depth)) := by
  rw [itemNodes]

theorem partsWith_start (item : ListItem) (depth : Nat) (items : List ListItem) :
    (start item).partsWith depth items = itemNodes depth (item :: items) := by
  rw [partsWith, parts_start, itemNodes_cons]
  rfl

theorem partsWith_addItem {l : OpenList} {item : ListItem} (h : l.ordered = item.ordered)
    (depth : Nat) (items : List ListItem) :
    (l.addItem item).partsWith depth items = l.parts ++ itemNodes depth (item :: items) := by
  rw [partsWith, parts_addItem h, itemNodes_cons, List.append_assoc]
  rfl

theorem partsWith_of_le (l : OpenList) {depth : Nat} {items : List ListItem}
    (h : ∀ item ∈ items.head?, item.depth ≤ depth) :
    l.partsWith depth items = l.parts ++ itemNodes depth items := by
  have htake : items.takeWhile (depth < ·.depth) = [] := by
    cases items with
    | nil => rfl
    | cons item rest => exact List.takeWhile_cons_of_neg (by simpa using h item rfl)
  have hdrop : items.dropWhile (depth < ·.depth) = items := by
    have := List.takeWhile_append_dropWhile (p := fun i : ListItem => depth < i.depth) (l := items)
    rwa [htake, List.nil_append] at this
  rw [partsWith, htake, hdrop, itemNodes]
  rfl

/-- The deeper items at the head of a stretch go into the open item, the others follow. -/
theorem partsWith_cons_of_lt (l : OpenList) {depth : Nat} {item : ListItem} (h : depth < item.depth)
    (items : List ListItem) :
    l.partsWith depth (item :: items) =
      (l.nestAll (listsOf (itemNodes (depth + 1)
        (item :: items.takeWhile (depth < ·.depth))))).partsWith depth
          (items.dropWhile (depth < ·.depth)) := by
  rw [partsWith_of_le _ (le_of_mem_head?_dropWhile depth items), partsWith,
    List.takeWhile_cons_of_pos (by simpa using h), List.dropWhile_cons_of_pos (by simpa using h)]

/-- A stretch of items that are no less deep than the open list adds to it what the translation
puts there, and closes it behind them. -/
theorem nodesOfItems_append (l : OpenList) (below : List OpenList) (items rest : List ListItem)
    (hchain : Climbs (below.length + 1) items)
    (hitems : ∀ item ∈ items, below.length + 1 ≤ item.depth)
    (hrest : ∀ item ∈ rest.head?, 1 ≤ item.depth ∧ item.depth ≤ below.length) :
    nodesOfItems (l :: below) (items ++ rest) =
      nodesBehind (listsOf (l.partsWith (below.length + 1) items)) below rest := by
  induction hlength : items.length using Nat.strong_induction_on
    generalizing l below items rest with
  | _ n ih =>
    cases items with
    | nil =>
      rw [List.nil_append, nodesOfItems_close l below hrest, partsWith_of_le l (by simp),
        itemNodes, List.append_nil, listsOf_parts]
    | cons item items =>
      obtain ⟨hclimb, hchain⟩ := List.isChain_cons_cons.1 hchain
      obtain ⟨hitem, hitems⟩ := List.forall_mem_cons.1 hitems
      rw [List.length_cons] at hlength
      by_cases hdeeper : below.length + 1 < item.depth
      · -- The item and the deeper ones behind it make lists inside the open item. Behind them the
        -- open list goes on.
        have hdepth : item.depth = below.length + 1 + 1 := by omega
        rw [hdepth] at hchain
        obtain ⟨inner, more, rfl, htake, hdrop, hinner, hhead, hchainInner, hchainMore⟩ :=
          Climbs.exists_split hchain (below.length + 1)
        rw [List.forall_mem_append] at hitems
        rw [List.length_append] at hlength
        have hnext : ∀ i ∈ (more ++ rest).head?, 1 ≤ i.depth ∧ i.depth ≤ (l :: below).length := by
          cases more with
          | nil =>
            intro i hi
            have := hrest i hi
            exact ⟨this.1, Nat.le_succ_of_le this.2⟩
          | cons i more =>
            intro j hj
            obtain rfl : i = j := Option.some.inj hj
            have := hitems.2 i List.mem_cons_self
            exact ⟨by omega, hhead i rfl⟩
        rw [partsWith_cons_of_lt l hdeeper, htake, hdrop, List.cons_append,
          nodesOfItems_start hdepth, List.append_assoc,
          ih _ (by omega) (start item) (l :: below) inner (more ++ rest) hchainInner hinner hnext
            rfl, partsWith_start, List.length_cons]
        exact ih _ (by omega) _ below more rest hchainMore hitems.2 hrest rfl
      · have hdepth : item.depth = below.length + 1 := by omega
        rw [List.cons_append, nodesOfItems_of_depth_eq hdepth,
          partsWith_of_le l (by simpa using hdeeper)]
        rw [hdepth] at hchain
        split_ifs with hkind
        · rw [ih _ (by omega) (l.addItem item) below items rest hchain hitems hrest rfl,
            partsWith_addItem hkind]
        · rw [itemNodes_cons, listsOf_parts_append hkind, nodesBehind_cons, ← itemNodes_cons,
            ← partsWith_start]
          have hsame := length_deliver [l.node] below
          generalize deliver [l.node] below = delivered at hsame ⊢
          rw [← hsame] at hchain hitems hrest ⊢
          rw [ih _ (by omega) (start item) delivered.2 items rest hchain hitems hrest rfl]

theorem one_le_of_isChain {depth : Nat} {items : List ListItem}
    (h : (depth :: items.map ListItem.depth).IsChain Deepens) : ∀ item ∈ items, 1 ≤ item.depth := by
  induction items generalizing depth with
  | nil => exact fun _ h => absurd h List.not_mem_nil
  | cons item rest ih =>
    obtain ⟨hitem, hrest⟩ := List.isChain_cons_cons.1 h
    exact List.forall_mem_cons.2 ⟨hitem.1, ih hrest⟩

/-- The builder makes of a run of items what the translation does. -/
theorem nodesOfItems_items (run : ListRun) :
    nodesOfItems [] run.items = listsOf (itemNodes 1 run.items) := by
  have hdeepens := run.deepens
  rw [List.map_cons, run.depth_first] at hdeepens
  have hchain : Climbs 1 run.rest.reduceOption := hdeepens.imp fun _ _ h => h.2.1
  have hitems := one_le_of_isChain hdeepens
  rw [ListRun.items, nodesOfItems_start (by rw [run.depth_first]; rfl),
    ← List.append_nil run.rest.reduceOption,
    nodesOfItems_append (start run.first) [] _ [] hchain hitems (by simp), List.append_nil,
    partsWith_start, nodesBehind, deliver, nodesOfItems, closeAll_nil, List.append_nil]
  rfl

end OpenList

/-! ## Documents -/

/-- Each block becomes its translation. -/
theorem nodes_eq_translation (b : Block) : b.nodes = b.translation := by
  cases b with
  | blank => rfl
  | leaf l =>
    cases l with
    | paragraph text | heading level text | rule => rfl
    | image r =>
      rw [Block.nodes, Leaf.node, Block.translation]
      cases r.label <;> rfl
  | code language lines => rfl
  | quote first rest =>
    rw [Block.nodes, Block.translation, quoteParagraphs]
    cases (first :: rest).filter (!·.isBlank) <;> rfl
  | table first rest => rfl
  | list run => exact OpenList.nodesOfItems_items run

/-- The levels of headings are at most six, so they keep their value in a byte. -/
theorem toNat_toUInt8_level (markdown : Text) {level : Nat} (text : Text)
    (h : .leaf (.heading level text) ∈ (classify markdown).map NumberedEvent.event) :
    level.toUInt8.toNat = level := by
  obtain ⟨e, he, hevent⟩ := List.mem_map.1 h
  obtain ⟨line, -, hlies⟩ := exists_liesIn_of_mem_classify he
  rw [hevent] at hlies
  obtain ⟨-, -, -, hsix⟩ := hlies
  exact UInt8.toNat_ofNat_of_lt' (Nat.lt_of_le_of_lt hsix (by decide))

/-- **Translation.** The events of a Markdown text are those of exactly one sequence of blocks, and
its document is their translations, one after the other; headings keep their level. -/
theorem content_ofMarkdown (markdown : Text) :
    ∃ blocks : List Block,
      (∀ bs : List Block, (classify markdown).map NumberedEvent.event = bs.flatMap Block.events ↔
        bs = blocks) ∧
      (Document.ofMarkdown markdown).content = blocks.flatMap Block.translation ∧
      ∀ level text, .leaf (.heading level text) ∈ blocks → level.toUInt8.toNat = level := by
  obtain ⟨blocks, hblocks, hcontent⟩ := exists_blocks_ofMarkdown markdown
  refine ⟨blocks, ?_, ?_, ?_⟩
  · intro bs
    rw [hblocks]
    exact ⟨fun h => flatMap_events_injective h.symm, fun h => by rw [h]⟩
  · rw [hcontent, funext nodes_eq_translation]
  · intro level text hmem
    refine toNat_toUInt8_level markdown text ?_
    rw [hblocks]
    exact List.mem_flatMap.2 ⟨_, hmem, List.mem_singleton_self _⟩

end TicketMarkup
