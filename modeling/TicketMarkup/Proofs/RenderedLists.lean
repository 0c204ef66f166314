import TicketMarkup.Proofs.ListNesting
import TicketMarkup.Proofs.ReadableText

/-!
# The lines of lists

`render_list_ofMarkdown`: a list of a document is drawn as one line for each item of the text that
is in it, in their order.

1. A place alone says how its item is drawn: how deep and where in its list it stands, and what it
   holds first (`ItemPlace.line`).
2. A list is drawn as the lines of the places in it, whatever is around it (`Node.DrawsList`); this
   follows from the same for the items and from there for the lists in them.
3. A place that shows an item has the line of the item (`PlacedItem.Shown.line_eq`), and the places
   in a block are those whose address begins with its position (`filter_itemPlacesAll`).
-/

namespace TicketMarkup

/-! ## Lines of items -/

/-- How an item is drawn: two spaces for each list around its own, a bullet or its number, counted
in its list, and its text. -/
def PlacedItem.line (p : PlacedItem) : Text :=
  let number := p.place.address.getLastD 0 + 1
  let marker := if p.item.ordered then Text.ofNat number ++ ['.'] else ['•']
  List.replicate (2 * (p.item.depth - 1)) ' ' ++ marker ++ ' ' ::
    Text.trim (Node.textContentAll (Node.ofLine p.item.text))

/-- How the item at a place is drawn. -/
def ItemPlace.line (p : ItemPlace) : Text :=
  Element.indent (p.around.countP isListName - 1) ++
    Element.itemMarker (p.around.getLast? = some "orderedList") (p.address.getLastD 0 + 1) ++
    ' ' :: Text.trim ((p.first.map Node.textContent).getD [])

theorem PlacedItem.Shown.line_eq {p : PlacedItem} (h : p.Shown) : p.place.line = p.line := by
  have hkind : decide (p.place.around.getLast? = some "orderedList") = p.item.ordered := by
    rw [h.kind]
    cases p.item.ordered <;> decide
  rw [ItemPlace.line, h.depth, h.first, hkind]
  rfl

/-- A text is the lines of places. -/
structure Draws (t : Text) (places : List ItemPlace) : Prop where
  eq_terminate : t = Text.terminate (places.map ItemPlace.line)
  isLine : ∀ p ∈ places, p.line.IsLine

theorem draws_nil : Draws [] [] := ⟨rfl, fun _ h => absurd h List.not_mem_nil⟩

theorem draws_singleton {p : ItemPlace} (h : p.line.IsLine) : Draws (p.line ++ ['\n']) [p] :=
  ⟨(List.append_nil _).symm, List.forall_mem_singleton.2 h⟩

theorem Draws.append {s t : Text} {places more : List ItemPlace} (hs : Draws s places)
    (ht : Draws t more) : Draws (s ++ t) (places ++ more) := by
  refine ⟨?_, List.forall_mem_append.2 ⟨hs.isLine, ht.isLine⟩⟩
  rw [hs.eq_terminate, ht.eq_terminate, List.map_append, Text.terminate, Text.terminate,
    Text.terminate, List.flatMap_append]

/-! ## Texts of paragraphs -/

namespace Node

open Element

/-- Inline content is drawn as its texts, and blanks behind them. -/
theorem exists_renderAll_eq {content : List Node} (depth : Nat)
    (hinline : ∀ n ∈ content, n = .hardBreak ∨ ∃ t marks, n = .text t marks)
    (hbreak : .hardBreak ∉ content.dropLast) :
    ∃ blanks, Text.isBlank blanks ∧
      renderAll depth (content.map element) = textContentAll content ++ blanks := by
  induction content with
  | nil => exact ⟨[], rfl, rfl⟩
  | cons n rest ih =>
    rw [List.forall_mem_cons] at hinline
    obtain ⟨rfl | ⟨t, marks, rfl⟩, hrest⟩ := hinline
    · cases rest with
      | nil =>
        refine ⟨['\n'], by decide, ?_⟩
        rw [List.map_singleton, element_eq]
        rfl
      | cons m rest => exact absurd (List.mem_cons_self ..) hbreak
    · have hbreak' : .hardBreak ∉ rest.dropLast := by
        cases rest with
        | nil => exact List.not_mem_nil
        | cons m rest => exact fun hmem => hbreak (List.mem_cons_of_mem _ hmem)
      obtain ⟨blanks, hblanks, heq⟩ := ih hrest hbreak'
      refine ⟨blanks, hblanks, ?_⟩
      rw [List.map_cons, renderAll, heq, element_eq, textContentAll, List.append_assoc]
      rfl

/-- Around its text a paragraph is drawn with blanks only. -/
theorem IsParagraph.trim_render {n : Node} (h : n.IsParagraph) (depth : Nat) :
    Text.trim ((n.element.render depth).getD []) = Text.trim n.textContent := by
  obtain ⟨content, rfl, hcontent⟩ := h
  obtain ⟨blanks, hblanks, heq⟩ :=
    exists_renderAll_eq depth hcontent.inline hcontent.break_last
  have hend : Text.isBlank (blanks ++ ['\n']) := by
    rw [Text.isBlank, List.all_append, ← Text.isBlank, hblanks]
    decide
  rw [element_eq]
  show Text.trim (renderAll depth (content.map element) ++ ['\n']) = _
  rw [heq, List.append_assoc, Text.trim_append_of_isBlank _ hend]
  rfl

theorem exists_mem_of_mem_textContentAll {nodes : List Node} {c : Char}
    (h : c ∈ textContentAll nodes) : ∃ n ∈ nodes, c ∈ n.textContent := by
  induction nodes with
  | nil => exact absurd h List.not_mem_nil
  | cons n rest ih =>
    rw [textContentAll, List.mem_append] at h
    rcases h with h | h
    · exact ⟨n, List.mem_cons_self, h⟩
    · obtain ⟨m, hm, hc⟩ := ih h
      exact ⟨m, List.mem_cons_of_mem n hm, hc⟩

theorem IsParagraph.newline_not_mem {n : Node} (h : n.IsParagraph) : '\n' ∉ n.textContent := by
  obtain ⟨content, rfl, hcontent⟩ := h
  intro hmem
  obtain ⟨n, hn, hmem⟩ := exists_mem_of_mem_textContentAll hmem
  rcases hcontent.inline n hn with rfl | ⟨t, marks, rfl⟩
  · exact List.not_mem_nil hmem
  · exact hcontent.no_newline t marks hn hmem

theorem IsParagraph.itemFree {n : Node} (h : n.IsParagraph) : n.ItemFree := by
  obtain ⟨content, rfl, hcontent⟩ := h
  refine itemFree_container (by simp) fun n hn _ _ => ?_
  rcases hcontent.inline n hn with rfl | ⟨t, marks, rfl⟩ <;> rfl

end Node

theorem newline_not_mem_itemMarker (ordered : Bool) (number : Nat) :
    '\n' ∉ Element.itemMarker ordered number := by
  intro hmem
  cases ordered with
  | false => exact absurd (List.mem_singleton.1 hmem) (by decide)
  | true =>
    rcases List.mem_append.1 hmem with hnumber | hpoint
    · exact Text.newline_not_mem_ofNat number hnumber
    · exact absurd (List.mem_singleton.1 hpoint) (by decide)

/-- An item whose text has no line feed is drawn on one line. -/
theorem isLine_line {p : ItemPlace} (h : '\n' ∉ (p.first.map Node.textContent).getD []) :
    p.line.IsLine := by
  refine Text.isLine_append_trim ?_ h
  rw [List.mem_append, not_or]
  refine ⟨fun hmem => ?_, newline_not_mem_itemMarker _ _⟩
  exact absurd (List.eq_of_mem_replicate hmem) (by decide)

/-! ## Items and lists -/

namespace Node

open Element

/-- A list is drawn as the lines of the items in it, indented for the lists around it. -/
def DrawsList (l : Node) : Prop :=
  ∀ address around, ∃ t, l.element.render (around.countP isListName) = some t ∧
    Draws t (l.itemPlaces address around)

/-- An item is drawn as its own line and the lines of the items in it. -/
def DrawsItem (i : Node) : Prop :=
  ∀ address around (ordered : Bool) position,
    Draws (renderItem (around.countP isListName) (itemMarker ordered (position + 1)) true
        (i.content.map element))
      (i.itemPlaces (address ++ [position]) (around ++ [(listKind ordered).name]))

variable {address : List Nat} {around : List String}

theorem draws_renderItems (ordered : Bool) {items : List Node} (h : ∀ i ∈ items, i.DrawsItem)
    (position : Nat) :
    Draws (renderItems (around.countP isListName) ordered (position + 1) (items.map element))
      (itemPlacesAll address (around ++ [(listKind ordered).name]) position items) := by
  induction items generalizing position with
  | nil => exact draws_nil
  | cons i rest ih =>
    rw [List.forall_mem_cons] at h
    rw [List.map_cons, element_eq, renderItems, itemPlacesAll]
    exact (h.1 address around ordered position).append (ih h.2 (position + 1))

theorem elementKind_list (ordered : Bool) (items : List Node) :
    (container (listKind ordered) items).elementKind = .list ordered := by
  cases ordered <;> rfl

theorem IsList.isList_element {l : Node} (h : l.IsList) : l.element.isList := by
  cases h with
  | intro ordered =>
    rw [element_eq, elementKind_list]
    rfl

theorem drawsList_of_items {ordered : Bool} {items : List Node} (h : ∀ i ∈ items, i.DrawsItem) :
    (container (listKind ordered) items).DrawsList := by
  intro address around
  rw [element_eq, elementKind_list, OpenList.itemPlaces_list]
  exact ⟨_, rfl, draws_renderItems ordered h 0⟩

theorem draws_renderItem_lists {lists : List Node} (h : ∀ l ∈ lists, l.IsList ∧ l.DrawsList)
    {depth : Nat} (hdepth : around.countP isListName = depth + 1) (marker : Text)
    (position : Nat) :
    Draws (renderItem depth marker false (lists.map element))
      (itemPlacesAll address around position lists) := by
  induction lists generalizing position with
  | nil => exact draws_nil
  | cons l rest ih =>
    rw [List.forall_mem_cons] at h
    obtain ⟨t, ht, hdraws⟩ := h.1.2 (address ++ [position]) around
    rw [hdepth] at ht
    rw [List.map_cons, renderItem, if_pos h.1.1.isList_element, ht, itemPlacesAll]
    exact hdraws.append (ih h.2 (position + 1))

theorem countP_append_listKind (around : List String) (ordered : Bool) :
    (around ++ [(listKind ordered).name]).countP isListName = around.countP isListName + 1 := by
  rw [List.countP_append]
  cases ordered <;> rfl

/-- The first line of an item is the line of its place. -/
theorem itemLine_eq_line {paragraph : Node} (h : paragraph.IsParagraph) (address : List Nat)
    (around : List String) (ordered : Bool) (position : Nat) :
    itemLine (around.countP isListName) (itemMarker ordered (position + 1)) true
        ((paragraph.element.render (around.countP isListName)).getD []) =
      ItemPlace.line ⟨address ++ [position], around ++ [(listKind ordered).name],
        some paragraph⟩ ++ ['\n'] := by
  have hkind : decide (some (listKind ordered).name = some "orderedList") = ordered := by
    cases ordered <;> decide
  rw [itemLine, ItemPlace.line, h.trim_render, countP_append_listKind, List.getLast?_concat, hkind,
    List.getLastD_concat]
  simp

theorem drawsItem_of_lists {paragraph : Node} {lists : List Node}
    (hparagraph : paragraph.IsParagraph) (h : ∀ l ∈ lists, l.IsList ∧ l.DrawsList) :
    (container .listItem (paragraph :: lists)).DrawsItem := by
  intro address around ordered position
  have hplaces : (container .listItem (paragraph :: lists)).itemPlaces (address ++ [position])
        (around ++ [(listKind ordered).name]) =
      ⟨address ++ [position], around ++ [(listKind ordered).name], some paragraph⟩ ::
        itemPlacesAll (address ++ [position])
          (around ++ [(listKind ordered).name] ++ ["listItem"]) 1 lists := by
    rw [itemPlaces, itemPlacesAll, hparagraph.itemFree]
    rfl
  have hlist : paragraph.element.isList = false := by
    obtain ⟨content, rfl, -⟩ := hparagraph
    rw [element_eq]
    rfl
  have hinner : (around ++ [(listKind ordered).name] ++ ["listItem"]).countP isListName =
      around.countP isListName + 1 := by
    rw [List.countP_append, countP_append_listKind]
    rfl
  rw [hplaces]
  show Draws (renderItem _ _ true (paragraph.element :: lists.map element)) _
  rw [renderItem, hlist, itemLine_eq_line hparagraph address]
  refine (draws_singleton (isLine_line ?_)).append (draws_renderItem_lists h hinner _ 1)
  exact hparagraph.newline_not_mem

mutual

theorem IsList.drawsList : ∀ {n : Node}, n.IsList → n.DrawsList
  | _, .intro _ _ hitems => drawsList_of_items fun i hi => (hitems i hi).drawsItem

theorem IsItem.drawsItem : ∀ {n : Node}, n.IsItem → n.DrawsItem
  | _, .intro hparagraph hlists =>
    drawsItem_of_lists hparagraph fun l hl => ⟨hlists l hl, (hlists l hl).drawsList⟩

end

/-! ## Lists of documents -/

/-- The items in one of some nodes are those whose address begins with its position. -/
theorem filter_itemPlacesAll {nodes : List Node} {n : Node} {i : Nat} (h : nodes[i]? = some n)
    (position : Nat) :
    (itemPlacesAll [] [] position nodes).filter (·.address.head? = some (position + i)) =
      n.itemPlaces [position + i] [] := by
  induction nodes generalizing position i with
  | nil => exact absurd h (by simp)
  | cons m rest ih =>
    have hfirst : ∀ p ∈ m.itemPlaces [position] [], p.address.head? = some position := by
      intro p hp
      obtain ⟨inner, haddress, -⟩ := exists_hasItem_of_mem hp
      rw [haddress]
      rfl
    have hrest : ∀ p ∈ itemPlacesAll [] [] (position + 1) rest,
        p.address.head? ≠ some position := by
      intro p hp hhead
      obtain ⟨j, m', inner, -, haddress, -⟩ := exists_hasItem_of_mem_all hp
      rw [haddress] at hhead
      have heq : position + 1 + j = position := Option.some.inj hhead
      omega
    rw [itemPlacesAll, List.filter_append]
    cases i with
    | zero =>
      obtain rfl : m = n := by simpa using h
      rw [Nat.add_zero, List.filter_eq_self.2 (by simpa using hfirst),
        List.filter_eq_nil_iff.2 (by simpa using hrest), List.append_nil]
      rfl
    | succ i =>
      have hother : ∀ p ∈ m.itemPlaces [position] [],
          p.address.head? ≠ some (position + (i + 1)) := by
        intro p hp hhead
        rw [hfirst p hp, Option.some.injEq] at hhead
        omega
      rw [List.getElem?_cons_succ] at h
      have hih := ih h (position + 1)
      rw [Nat.add_assoc, Nat.add_comm 1] at hih
      rw [← hih, List.filter_eq_nil_iff.2 (by simpa using hother)]
      rfl

theorem IsBlock.isList {ordered : Bool} {items : List Node}
    (h : (container (listKind ordered) items).IsBlock) :
    (container (listKind ordered) items).IsList := by
  cases ordered <;> cases h with
  | list h => exact h
  | paragraph h =>
    obtain ⟨content, heq, -⟩ := h
    cases heq

end Node

/-- **Drawing lists.** A list of the document of a Markdown text is drawn as one line for each item
of the text that is in it, in their order: two spaces for each list around its own, a bullet or the
number of the item in its list, a space, and its text without blanks at the ends. -/
theorem render_list_ofMarkdown (markdown : Text) :
    ∃ placed : List PlacedItem,
      placed.map PlacedItem.source =
        Event.itemsFrom 0 ((classify markdown).map NumberedEvent.event) ∧
      placed.map PlacedItem.place = (Document.ofMarkdown markdown).itemPlaces ∧
      (∀ p ∈ placed, p.Shown) ∧
      ∀ i ordered items,
        (Document.ofMarkdown markdown).content[i]? =
          some (.container (Node.listKind ordered) items) →
        let lines := (placed.filter (·.place.address.head? = some i)).map PlacedItem.line
        (Element.ofJson (Node.container (Node.listKind ordered) items).toJson).render 0 =
            some (Text.terminate lines) ∧
          Text.lines (Text.terminate lines) = lines := by
  obtain ⟨blocks, hblocks, hcontent⟩ := exists_blocks_ofMarkdown markdown
  obtain ⟨placed, hsources, hplaces, hgrown⟩ :=
    exists_placed_blocks 0 0 blocks PlacedItem.grown_nil (by simp)
  rw [List.nil_append] at hgrown
  rw [← hcontent] at hplaces
  have hshown : ∀ p ∈ placed, p.Shown := by
    intro p hp
    obtain ⟨before, after, heq⟩ := List.append_of_mem hp
    exact (hgrown heq).shown
  refine ⟨placed, by rw [hsources, hblocks], hplaces, hshown, ?_⟩
  intro i ordered items hitems
  have hlist := (isBlock_of_mem_ofMarkdown (List.mem_of_getElem? hitems)).isList
  obtain ⟨t, ht, hdraws⟩ := hlist.drawsList [i] []
  have hfilter := Node.filter_itemPlacesAll hitems 0
  rw [Nat.zero_add, ← hplaces, List.filter_map] at hfilter
  have hlines : ((Node.container (Node.listKind ordered) items).itemPlaces [i] []).map
        ItemPlace.line =
      (placed.filter (·.place.address.head? = some i)).map PlacedItem.line := by
    rw [← hfilter, List.map_map]
    exact List.map_congr_left fun p hp => (hshown p (List.mem_of_mem_filter hp)).line_eq
  rw [hdraws.eq_terminate, hlines] at ht
  refine ⟨ht, Text.lines_terminate ?_⟩
  rw [← hlines]
  exact List.forall_mem_map.2 hdraws.isLine

/-- A numbered list inside a bulleted one, and a break that is not drawn. -/
theorem render_list_ofMarkdown_numbered :
    ∃ placed : List PlacedItem,
      placed.map PlacedItem.source = Event.itemsFrom 0
        ((classify "- a\n  1. b  \n  2. c\n- d".toList).map NumberedEvent.event) ∧
      Text.terminate ((placed.filter (·.place.address.head? = some 0)).map PlacedItem.line) =
        "• a\n  1. b\n  2. c\n• d\n".toList := by
  obtain ⟨placed, hsources, -, -, hlists⟩ :=
    render_list_ofMarkdown "- a\n  1. b  \n  2. c\n- d".toList
  obtain ⟨hrender, -⟩ := hlists 0 false
    [.container .listItem [Node.paragraphOfLine ['a'],
        .container (Node.listKind true)
          [.container .listItem [Node.paragraphOfLine ['b', ' ', ' ']],
            .container .listItem [Node.paragraphOfLine ['c']]]],
      .container .listItem [Node.paragraphOfLine ['d']]] (by with_unfolding_all rfl)
  have hlines : _ = some "• a\n  1. b\n  2. c\n• d\n".toList :=
    hrender.symm.trans (by with_unfolding_all rfl)
  exact ⟨placed, hsources, Option.some.inj hlines⟩

end TicketMarkup
