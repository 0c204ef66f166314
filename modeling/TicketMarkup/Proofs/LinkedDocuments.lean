import TicketMarkup.Proofs.BlockNodes
import TicketMarkup.Proofs.EventContexts
import TicketMarkup.Proofs.ListGrowth

/-!
# Documents whose nodes are linked by number

A document with linked nodes is built from the first events of a Markdown text, however many of them.

1. What is open is known from the events (`LinkedDocument.Agrees`), and an event that can come next
   changes the linked document as it changes the blocks that are built without links
   (`Agrees.step`).
2. The lists that are open are as many as the depth of the last item, and each is linked at the end
   of the last item around it (`Chained`). The links form a forest, from which every node is taken
   once (`Assembles`). Both are in `ofEvents_classify`.
-/

namespace TicketMarkup

open NodeTree

/-! ## Depths -/

namespace Event

/-- The depth behind an event that is an item or the end of a list. -/
def listDepth? : Event → Option Nat
  | listItem item => some item.depth
  | listEnd => some 0
  | _ => none

/-- The depth of the last item behind the last end of a list, zero if there is none. -/
def openDepth (events : List Event) : Nat := (events.reverse.findSome? listDepth?).getD 0

theorem openDepth_concat (events : List Event) (e : Event) :
    openDepth (events ++ [e]) = e.listDepth?.getD (openDepth events) := by
  rw [openDepth, List.reverse_concat, List.findSome?_cons]
  cases e.listDepth? <;> rfl

end Event

theorem Context.Takes.openDepth_concat {c c' : Context} {e : Event} (h : c.Takes e c')
    {events : List Event} (hdepth : Event.openDepth events = c.listDepth) :
    Event.openDepth (events ++ [e]) = c'.listDepth := by
  rw [Event.openDepth_concat]
  cases h with
  | listItem | listEnd => rfl
  | _ => exact hdepth

namespace LinkedDocument

/-! ## Agreement -/

/-- A linked document, and finished blocks with an open one behind them, are at the same place of a
text, where the context tells what is open. -/
inductive Agrees : Context → LinkedDocument → List Node → OpenBlock → Prop
  | idle (trees : List NodeTree) : Agrees .idle (withTrees {} trees) (toNodes trees) .none
  | list {trees : List NodeTree} {lists : List ListLinks} {finished : List Node}
      {stack : List OpenList} (h : Matches trees lists finished stack) :
    Agrees (.list lists.length) (withTrees { lists := lists } trees) finished (.lists stack)
  | code (trees : List NodeTree) (language : Option Text) (lines : List Text) :
    Agrees .fenced (withTrees { code := some (language, lines) } trees) (toNodes trees)
      (.code language lines.reverse)
  | quote (trees paragraphs : List NodeTree) :
    Agrees .quoted (withTrees { quote := some (sizeAll trees) }
      (trees ++ [.branch .blockquote [] paragraphs])) (toNodes trees)
      (.quote (toNodes paragraphs).reverse)
  | table (trees rows : List NodeTree) :
    Agrees .table (withTrees { table := some (sizeAll trees) } (trees ++ [.branch .table [] rows]))
      (toNodes trees) (.table (toNodes rows).reverse)

variable {c c' : Context} {d : LinkedDocument} {finished : List Node} {b : OpenBlock} {e : Event}
  {trees : List NodeTree}

theorem agrees_idle (h : toNodes trees = finished) :
    Agrees .idle (withTrees {} trees) finished .none := h ▸ .idle trees

theorem Agrees.length_lists (h : Agrees c d finished b) : d.lists.length = c.listDepth := by
  cases h <;> rfl

/-- Without other blocks that are open, the document is known from its lists. -/
theorem Agrees.exists_matches (h : Agrees c d finished b) (hc : c = .idle ∨ c.inList) :
    ∃ trees, d = withTrees { lists := d.lists } trees ∧ Matches trees d.lists finished b.stack := by
  cases h with
  | idle trees =>
    have hnodes : toNodes trees = toNodes trees ++ OpenList.closeAll [] := by
      rw [OpenList.closeAll_nil, List.append_nil]
    exact ⟨trees, rfl, .nil, rfl, hnodes⟩
  | list h => exact ⟨_, rfl, h⟩
  | code | quote | table => simp [Context.inList] at hc

/-! ### Ends of blocks -/

theorem closeCode_withTrees (language : Option Text) (lines : List Text) :
    (withTrees { code := some (language, lines) } trees).closeCode =
      withTrees {} (plantAt (.codeBlock language [.plain (Text.unlines lines)]) 0 trees) :=
  plant_none_withTrees (d := {}) _

/-- What is added to the container that is the last block. -/
theorem plant_some_concat (kind : Container) (own : List Node) (below : List NodeTree) (n : Node) :
    (d.withTrees (trees ++ [.branch kind own below])).plant (some (sizeAll trees)) n =
      d.withTrees (trees ++ [.branch kind own (plantAt n 0 below)]) := by
  rw [plant_some_withTrees (.here trees kind own below), plantAt_concat_branch]

theorem closeQuote_of_quote {id : Nat} (h : d.quote = some id) :
    d.closeQuote =
      if (d.arena.children id).isEmpty then
        { d with quote := none }.plant (some id) (.container .paragraph (Node.orEmptyText []))
      else { d with quote := none } := by
  rw [closeQuote, h]

/-- The end of a quote: whether it is empty is known from its links. -/
theorem exists_closeQuote (trees paragraphs : List NodeTree) :
    ∃ trees', (withTrees { quote := some (sizeAll trees) }
        (trees ++ [.branch .blockquote [] paragraphs])).closeQuote = withTrees {} trees' ∧
      toNodes trees' = toNodes trees ++ (OpenBlock.quote (toNodes paragraphs).reverse).nodes := by
  have hchildren : (withTrees { quote := some (sizeAll trees) }
      (trees ++ [.branch .blockquote [] paragraphs])).arena.children (sizeAll trees) =
        numbers (0 + sizeAll trees + 1) paragraphs :=
    children_slotsAll_concat 0 trees (.branch .blockquote [] paragraphs) 0
  rw [closeQuote_of_quote rfl, hchildren, OpenBlock.nodes_quote]
  cases paragraphs with
  | nil => exact ⟨_, plant_some_concat (d := {}) .blockquote [] [] _, toNodes_concat ..⟩
  | cons p rest => exact ⟨trees ++ [.branch .blockquote [] (p :: rest)], rfl, toNodes_concat ..⟩

/-- What is open at the end is closed, and the trees are those of all blocks. -/
theorem Agrees.exists_close (h : Agrees c d finished b) :
    ∃ d' trees, d.close = withTrees d' trees ∧ toNodes trees = finished ++ b.nodes := by
  cases h with
  | idle trees => exact ⟨{}, trees, rfl, (List.append_nil _).symm⟩
  | @list trees lists _ _ h => exact ⟨{ lists := lists }, trees, rfl, h.nodes⟩
  | code trees language lines =>
    refine ⟨{}, _, congrArg closeQuote (closeCode_withTrees language lines), ?_⟩
    rw [toNodes_plantAt_zero, OpenBlock.nodes, List.reverse_reverse]
  | quote trees paragraphs =>
    obtain ⟨trees', hclose, hnodes⟩ := exists_closeQuote trees paragraphs
    exact ⟨{}, trees', hclose, hnodes⟩
  | table trees rows =>
    refine ⟨{ table := some (sizeAll trees) }, _, rfl, ?_⟩
    rw [toNodes_concat, OpenBlock.nodes, List.reverse_reverse]
    rfl

/-! ### Steps -/

theorem step_quoteLine {id : Nat} (h : d.quote = some id) (text : Text) :
    d.step (.quoteLine text) =
      if text.isBlank then d else d.plant (some id) (Node.paragraphOfLine text) := by
  rw [LinkedDocument.step, h]

theorem step_tableRow {id : Nat} (h : d.table = some id) (row : TableRow) :
    d.step (.tableRow row) = d.plant (some id) row.node := by
  rw [LinkedDocument.step, h]

/-- **One event.** An event that can come next keeps the agreement. -/
theorem Agrees.step (h : Agrees c d finished b) (htakes : c.Takes e c') :
    Agrees c' (d.step e) (finished ++ (b.step e).1) (b.step e).2 := by
  cases htakes with
  | blank hc =>
    rw [OpenBlock.step, List.append_nil]
    exact h
  | leaf l =>
    cases h with
    | idle trees =>
      rw [LinkedDocument.step, plant_none_withTrees]
      exact agrees_idle (toNodes_plantAt_zero trees l.node)
  | @listItem _ item hc hdepth =>
    -- The item is not too deep for the lists, as they are as many as the last item is deep.
    obtain ⟨trees, hd, hmatches⟩ := h.exists_matches hc
    have hle : item.depth ≤ d.lists.length + 1 := h.length_lists ▸ hdepth.2.1
    obtain ⟨trees', lists', hadd, hlength, hmatches'⟩ := hmatches.exists_addItem hdepth.1 hle
    rw [LinkedDocument.step, hd, hadd, ← hlength]
    exact .list hmatches'
  | listEnd depth =>
    cases h with
    | list h => exact agrees_idle h.nodes
  | codeStart language =>
    cases h with
    | idle trees =>
      rw [OpenBlock.step, OpenBlock.nodes, List.append_nil]
      exact .code trees language []
  | codeLine text =>
    cases h with
    | code trees language lines =>
      rw [OpenBlock.step, OpenBlock.addLine, List.append_nil, ← List.reverse_concat]
      exact .code trees language (lines ++ [text])
  | codeEnd =>
    cases h with
    | code trees language lines =>
      rw [LinkedDocument.step, closeCode_withTrees, OpenBlock.step, OpenBlock.nodes,
        List.reverse_reverse]
      exact agrees_idle (toNodes_plantAt_zero ..)
  | quoteStart =>
    cases h with
    | idle trees =>
      rw [LinkedDocument.step, plant_none_withTrees, length_arena_withTrees, OpenBlock.step,
        OpenBlock.nodes, List.append_nil]
      exact .quote trees []
  | quoteLine text =>
    cases h with
    | quote trees paragraphs =>
      rw [step_quoteLine rfl, OpenBlock.step, OpenBlock.addLine, List.append_nil]
      by_cases hblank : text.isBlank
      · rw [if_pos hblank, if_pos hblank]
        exact .quote trees paragraphs
      · rw [if_neg hblank, if_neg hblank, plant_some_concat, ← List.reverse_concat,
          ← toNodes_plantAt_zero]
        exact .quote trees _
  | quoteEnd =>
    cases h with
    | quote trees paragraphs =>
      obtain ⟨trees', hclose, hnodes⟩ := exists_closeQuote trees paragraphs
      rw [LinkedDocument.step, hclose]
      exact agrees_idle hnodes
  | tableStart =>
    cases h with
    | idle trees =>
      rw [LinkedDocument.step, plant_none_withTrees, length_arena_withTrees, OpenBlock.step,
        OpenBlock.nodes, List.append_nil]
      exact .table trees []
  | tableRow row =>
    cases h with
    | table trees rows =>
      rw [step_tableRow rfl, plant_some_concat, OpenBlock.step, OpenBlock.addLine, List.append_nil,
        ← List.reverse_concat, ← toNodes_plantAt_zero]
      exact .table trees _
  | tableEnd =>
    cases h with
    | table trees rows =>
      rw [OpenBlock.step, OpenBlock.nodes, List.reverse_reverse]
      exact agrees_idle (toNodes_concat ..)

/-! ## Links -/

/-- The number of the last node that is linked below the one with a number. -/
def lastChild? (d : LinkedDocument) (id : Nat) : Option Nat := (d.arena.children id).getLast?

/-- The last item of every open list is the last child of the list, and every open list but the
outermost is the last child of the last item of the next one. -/
structure Chained (d : LinkedDocument) : Prop where
  lastItem : ∀ l ∈ d.lists, ∃ item, l.lastItem = some item ∧ d.lastChild? l.list = some item
  inside : d.lists.IsChain fun inner outer =>
    ∃ item, outer.lastItem = some item ∧ d.lastChild? item = some inner.list

/-- Putting the nodes of a document together asks for slots that still hold their node only, and
empties all slots. The blocks are those of trees whose slots are the slots of the document. -/
structure Assembles (d : LinkedDocument) : Prop where
  full : ∀ {a : Arena} {id : Nat}, Arena.Asks d.arena d.roots a id → a.IsFull id
  once : ∃ trees, d.arena = slotsAll 0 trees ∧ d.roots = numbers 0 trees ∧
    d.arena.takeTrees d.roots = (toNodes trees, List.replicate d.arena.length .empty)

theorem assembles_withTrees : (d.withTrees trees).Assembles where
  full := isFull_of_asks
  once := by
    refine ⟨trees, rfl, rfl, (takeTrees_slotsAll trees).trans ?_⟩
    rw [length_arena_withTrees]
    rfl

theorem Agrees.isForest (h : Agrees c d finished b) : d.arena.IsForest d.roots := by
  cases h <;> exact isForest_slotsAll _

theorem Agrees.chained (h : Agrees c d finished b) : d.Chained := by
  cases h with
  | list h => exact ⟨h.follow.getLast?_list, h.follow.isChain⟩
  | idle | code | quote | table => exact ⟨List.forall_mem_nil _, .nil⟩

/-! ## Runs -/

/-- The agreement behind some events, whatever comes after them. -/
structure Reaches (events : List Event) (c : Context) (finished : List Node) (b : OpenBlock) :
    Prop where
  agrees : Agrees c (ofEvents events) finished b
  depth : Event.openDepth events = c.listDepth
  blocks : ∀ rest, OpenBlock.none.blocks (events ++ rest) = finished ++ b.blocks rest

theorem Reaches.step {events : List Event} (h : Reaches events c finished b)
    (htakes : c.Takes e c') :
    Reaches (events ++ [e]) c' (finished ++ (b.step e).1) (b.step e).2 where
  agrees := by
    rw [ofEvents, List.foldl_concat]
    exact h.agrees.step htakes
  depth := htakes.openDepth_concat h.depth
  blocks rest := by
    rw [List.append_assoc, List.singleton_append, h.blocks, OpenBlock.blocks, List.append_assoc]

theorem Reaches.toDocument_eq {events : List Event} (h : Reaches events c finished b) :
    (ofEvents events).toDocument = Document.ofEvents events := by
  obtain ⟨d', trees, hclose, hnodes⟩ := h.agrees.exists_close
  have hblocks := h.blocks []
  rw [List.append_nil, OpenBlock.blocks] at hblocks
  rw [toDocument, hclose, withTrees, takeTrees_slotsAll, hnodes, Document.ofEvents, hblocks]

theorem exists_reaches {events : List Event} (h : Complete events) (n : Nat) :
    ∃ c finished b, Reaches (events.take n) c finished b ∧
      ∀ e, events[n]? = some e → ∃ c', c.Takes e c' := by
  obtain ⟨c, ⟨finished, b, hreaches⟩, hnext⟩ := h.exists_context
    (motive := fun before c => ∃ finished b, Reaches before c finished b)
    ⟨[], .none, .idle [], rfl, fun _ => rfl⟩
    (fun _ _ _ _ ⟨_, _, h⟩ htakes => ⟨_, _, h.step htakes⟩) n
  exact ⟨c, finished, b, hreaches, hnext⟩

/-- **Linked documents.** A document with linked nodes is built from the first events of a text. As
many lists are open as the last item is deep, so the next item comes in at the depth it has. Each open
list is linked at the end of the one around it. The blocks and the links are a forest, from which all
nodes are taken, each exactly once, and the document is the one that is built without links. -/
theorem ofEvents_classify (markdown : Text) (n : Nat) :
    let events := (classify markdown).map NumberedEvent.event
    let d := ofEvents (events.take n)
    d.lists.length = Event.openDepth (events.take n) ∧
      (∀ item, events[n]? = some (.listItem item) → d.clampDepth item.depth = item.depth) ∧
      d.Chained ∧ d.arena.IsForest d.roots ∧ d.close.arena.IsForest d.close.roots ∧
      d.close.Assembles ∧ d.toDocument = Document.ofEvents (events.take n) := by
  intro events d
  obtain ⟨c, finished, b, hreaches, hnext⟩ := exists_reaches (complete_classify markdown) n
  obtain ⟨d', trees, hclose, -⟩ := hreaches.agrees.exists_close
  have hlength : d.lists.length = c.listDepth := hreaches.agrees.length_lists
  refine ⟨hlength.trans hreaches.depth.symm, fun item hitem => ?_, hreaches.agrees.chained,
    hreaches.agrees.isForest, ?_, ?_, hreaches.toDocument_eq⟩
  · obtain ⟨c', htakes⟩ := hnext _ hitem
    cases htakes with
    | listItem hc hdepth =>
      have hle := hdepth.2.1
      have hone := hdepth.1
      rw [clampDepth, hlength]
      omega
  · rw [hclose]
    exact isForest_slotsAll trees
  · rw [hclose]
    exact assembles_withTrees

/-- Behind an item in another one, with an item of the other kind to come. -/
theorem ofEvents_classify_nested :
    let events := (classify "- a\n  - b\n1. c".toList).map NumberedEvent.event
    let d := ofEvents (events.take 2)
    events[2]? = some (.listItem ⟨1, true, "c".toList, none⟩) ∧ d.lists.length = 2 ∧
      d.clampDepth 1 = 1 ∧ d.Chained ∧ d.arena.IsForest d.roots ∧ d.close.Assembles ∧
      d.toDocument = Document.ofEvents (events.take 2) := by
  intro events d
  have hnext : events[2]? = some (.listItem ⟨1, true, "c".toList, none⟩) := by decide
  have hdepth : Event.openDepth (events.take 2) = 2 := by decide
  obtain ⟨hlength, hclamp, hchained, hforest, -, hassembles, hdocument⟩ :=
    ofEvents_classify "- a\n  - b\n1. c".toList 2
  exact ⟨hnext, hlength.trans hdepth, hclamp _ hnext, hchained, hforest, hassembles, hdocument⟩

end LinkedDocument

end TicketMarkup
