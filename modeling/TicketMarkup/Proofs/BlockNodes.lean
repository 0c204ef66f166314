import TicketMarkup.Document.Build
import TicketMarkup.Proofs.BlockGrammar

/-!
# The nodes of blocks

A document is built block by block: the nodes of the events of complete blocks are the nodes of
the blocks, one after the other (`blocks_flatMap_events`). Nothing of a block stays open behind its
end, so no block depends on those before it. The lists of a run are built item by item
(`OpenList.nodesOfItems`).
-/

namespace TicketMarkup

/-- The lists that items add to open lists. -/
def OpenList.nodesOfItems (stack : List OpenList) : List ListItem → List Node
  | [] => closeAll stack
  | item :: rest =>
    let (finished, stack) := addToStack item stack
    finished ++ nodesOfItems stack rest

/-- The paragraphs of a quote; lines without text are left out. -/
def quoteParagraphs (lines : List Text) : List Node :=
  (lines.filter (!·.isBlank)).map Node.paragraphOfLine

/-- The nodes of a block. -/
def Block.nodes : Block → List Node
  | blank => []
  | leaf l => [l.node]
  | code language lines => [.codeBlock language [.plain (Text.unlines lines)]]
  | quote first rest =>
    let paragraphs := quoteParagraphs (first :: rest)
    [.container .blockquote
      (if paragraphs.isEmpty then [.container .paragraph (Node.orEmptyText [])] else paragraphs)]
  | table first rest => [.container .table ((first :: rest).map TableRow.node)]
  | list run => OpenList.nodesOfItems [] run.items

namespace OpenBlock

theorem blocks_codeLines (language : Option Text) (parts lines : List Text) (rest : List Event) :
    (code language parts).blocks (lines.map .codeLine ++ .codeEnd :: rest) =
      (code language (lines.reverse ++ parts)).nodes ++ none.blocks rest := by
  induction lines generalizing parts with
  | nil => rfl
  | cons line lines ih =>
    rw [List.reverse_cons, List.append_assoc]
    exact ih (line :: parts)

theorem blocks_quoteLines (parts : List Node) (lines : List Text) (rest : List Event) :
    (quote parts).blocks (lines.map .quoteLine ++ .quoteEnd :: rest) =
      (quote ((quoteParagraphs lines).reverse ++ parts)).nodes ++ none.blocks rest := by
  induction lines generalizing parts with
  | nil => rfl
  | cons line lines ih =>
    rw [List.map_cons, List.cons_append, blocks]
    by_cases hblank : line.isBlank
    · simpa [step, addLine, quoteParagraphs, hblank] using ih parts
    · simpa [step, addLine, quoteParagraphs, hblank] using ih (Node.paragraphOfLine line :: parts)

theorem blocks_tableRows (parts : List Node) (rows : List TableRow) (rest : List Event) :
    (table parts).blocks (rows.map .tableRow ++ .tableEnd :: rest) =
      (table ((rows.map TableRow.node).reverse ++ parts)).nodes ++ none.blocks rest := by
  induction rows generalizing parts with
  | nil => rfl
  | cons row rows ih =>
    rw [List.map_cons (f := TableRow.node), List.reverse_cons, List.append_assoc]
    exact ih (row.node :: parts)

theorem blocks_listLines (stack : List OpenList) (lines : List (Option ListItem))
    (rest : List Event) :
    (lists stack).blocks (lines.map ListRun.lineEvent ++ .listEnd :: rest) =
      OpenList.nodesOfItems stack lines.reduceOption ++ none.blocks rest := by
  induction lines generalizing stack with
  | nil => rfl
  | cons line lines ih =>
    cases line with
    | none => exact ih stack
    | some item =>
      rw [List.reduceOption_cons_of_some, OpenList.nodesOfItems, List.append_assoc, ← ih]
      rfl

theorem nodes_quote (parts : List Node) :
    (quote parts.reverse).nodes = [.container .blockquote
      (if parts.isEmpty then [.container .paragraph (Node.orEmptyText [])] else parts)] := by
  cases hparts : parts.reverse with
  | nil =>
    obtain rfl := List.reverse_eq_nil_iff.1 hparts
    rfl
  | cons p rest =>
    have hne : parts.isEmpty = false := by
      rw [← List.isEmpty_reverse, hparts]
      rfl
    rw [nodes, ← hparts, List.reverse_reverse, hne]
    · rfl
    · simp

/-- The events of a block add its nodes and leave nothing open. -/
theorem blocks_events_append (b : Block) (rest : List Event) :
    none.blocks (b.events ++ rest) = b.nodes ++ none.blocks rest := by
  cases b with
  | blank => rfl
  | leaf l => rfl
  | code language lines =>
    rw [Block.events, List.cons_append, List.append_assoc]
    exact (blocks_codeLines language [] lines rest).trans (by simp [nodes, Block.nodes])
  | quote first lines =>
    rw [Block.events, List.cons_append, List.append_assoc]
    refine (blocks_quoteLines [] (first :: lines) rest).trans ?_
    rw [List.append_nil, nodes_quote, Block.nodes]
  | table first rows =>
    rw [Block.events, List.cons_append, List.append_assoc]
    exact (blocks_tableRows [] (first :: rows) rest).trans (by simp [nodes, Block.nodes])
  | list run =>
    -- The first item finds no open list, as if a list run were open already.
    have hopen := blocks_listLines [] (some run.first :: run.rest) rest
    rw [Block.events, List.cons_append, List.append_assoc]
    exact hopen

/-- The nodes of complete blocks. -/
theorem blocks_flatMap_events (bs : List Block) :
    none.blocks (bs.flatMap Block.events) = bs.flatMap Block.nodes := by
  induction bs with
  | nil => rfl
  | cons b rest ih => rw [List.flatMap_cons, blocks_events_append, ih, List.flatMap_cons]

/-- Behind complete blocks building goes on as from the start. -/
theorem blocks_append {events : List Event} (h : Complete events) (rest : List Event) :
    none.blocks (events ++ rest) = none.blocks events ++ none.blocks rest := by
  obtain ⟨bs, rfl⟩ := h
  induction bs with
  | nil => rfl
  | cons b bs ih =>
    rw [List.flatMap_cons, List.append_assoc, blocks_events_append, ih, blocks_events_append,
      List.append_assoc]

end OpenBlock

/-- The document of a Markdown text is the nodes of its blocks. -/
theorem exists_blocks_ofMarkdown (markdown : Text) :
    ∃ blocks : List Block,
      (classify markdown).map NumberedEvent.event = blocks.flatMap Block.events ∧
        (Document.ofMarkdown markdown).content = blocks.flatMap Block.nodes := by
  obtain ⟨blocks, hblocks⟩ := complete_classify markdown
  refine ⟨blocks, hblocks, ?_⟩
  rw [← OpenBlock.blocks_flatMap_events, ← hblocks]
  rfl

end TicketMarkup
