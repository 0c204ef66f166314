import TicketMarkup.Proofs.ItemPlaces

/-!
# The nesting of lists

`exists_nested_ofMarkdown`: the list items of a document are those of its text, in order, and
nothing but their runs, depths and kinds decides which of them share a list and which list stands
in which item.

1. `Fits before b` says how an item stands to those before it: it goes on with the list of the last
   item of its depth, or it is the first of a list that no item before could go on with.
2. From this alone, and the order of addresses, follows which items share a list
   (`Grown.list_eq_iff`).
3. The open lists remember the last item of each depth (`Tracks`). Closing lists keeps this, and
   every item fits behind the lists that stay open (`Current.addToStack`).
4. Runs are read one after the other (`exists_placed_blocks`); an item of one run never shares a
   list with one of another.
-/

namespace TicketMarkup

/-! ## The items of a text -/

/-- The items among events, each with the number of list runs that end before it. -/
def Event.itemsFrom (run : Nat) : List Event → List (Nat × ListItem)
  | [] => []
  | .listItem item :: rest => (run, item) :: itemsFrom run rest
  | .listEnd :: rest => itemsFrom (run + 1) rest
  | _ :: rest => itemsFrom run rest

/-- An item of a text, the number of its run, and its place in the document. -/
structure PlacedItem where
  run : Nat
  item : ListItem
  place : ItemPlace

/-- The names of the nodes that are lists. -/
def isListName (name : String) : Bool := name = "bulletList" || name = "orderedList"

namespace PlacedItem

/-- The number of the run and the item. -/
def source (p : PlacedItem) : Nat × ListItem := (p.run, p.item)

/-- The place shows the item: as many lists around it as it is deep, the innermost one of its kind
and directly around it, and its text first. -/
structure Shown (p : PlacedItem) : Prop where
  depth : p.place.around.countP isListName = p.item.depth
  kind : p.place.around.getLast? = some (Node.listKind p.item.ordered).name
  first : p.place.first = some (Node.paragraphOfLine p.item.text)

/-- An item that parts those before it from `b`: less deep than `b`, or as deep but of the other
kind. -/
def Parts (c b : PlacedItem) : Prop :=
  c.item.depth < b.item.depth ∨
    c.item.depth = b.item.depth ∧ c.item.ordered ≠ b.item.ordered

/-- What makes two items share a list, given the items between them. -/
structure SameList (a : PlacedItem) (between : List PlacedItem) (b : PlacedItem) : Prop where
  run : a.run = b.run
  depth : a.item.depth = b.item.depth
  ordered : a.item.ordered = b.item.ordered
  unparted : ∀ c ∈ between, ¬c.Parts b

/-- The last item before `b` in its run that is one level less deep, given the items between. -/
structure IsParent (a : PlacedItem) (between : List PlacedItem) (b : PlacedItem) : Prop where
  run : a.run = b.run
  depth : a.item.depth + 1 = b.item.depth
  last : ∀ c ∈ between, c.item.depth ≠ a.item.depth

/-- The list of `b` stands in the last item before it that is one level less deep. -/
def InParent (before : List PlacedItem) (b : PlacedItem) : Prop :=
  ∃ earlier a between, before = earlier ++ a :: between ∧ IsParent a between b ∧
    b.place.list.dropLast = a.place.address

/-- Lists are nested as the runs, depths and kinds of their items say. -/
structure Nested (placed : List PlacedItem) : Prop where
  shown : ∀ p ∈ placed, p.Shown
  list_eq_iff : ∀ {before a between b after}, placed = before ++ a :: between ++ b :: after →
    (a.place.list = b.place.list ↔ SameList a between b)
  parent : ∀ {before b after}, placed = before ++ b :: after → 1 < b.item.depth → InParent before b

/-! ## Items and those before them -/

/-- No item before `b` shares its list. -/
def Alone (before : List PlacedItem) (b : PlacedItem) : Prop :=
  ∀ earlier a between, before = earlier ++ a :: between → ¬SameList a between b

/-- How an item comes into its list: it goes on with that of an item with only deeper ones behind
it, or it is the first. -/
inductive Attached (before : List PlacedItem) (b : PlacedItem) : Prop
  | joins {earlier later : List PlacedItem} {a : PlacedItem}
      (split : before = earlier ++ a :: later) (same : SameList a later b)
      (deeper : ∀ c ∈ later, b.item.depth < c.item.depth) (list : a.place.list = b.place.list)
  | starts (first : b.place.address = b.place.list ++ [0]) (alone : Alone before b)

/-- An item stands right behind those before it. -/
structure Fits (before : List PlacedItem) (b : PlacedItem) : Prop where
  shown : b.Shown
  length : b.place.list.length + 1 = 2 * b.item.depth
  attached : Attached before b
  parent : 1 < b.item.depth → InParent before b

/-- Every item stands right behind those before it. -/
def Grown (placed : List PlacedItem) : Prop :=
  ∀ {before b after}, placed = before ++ b :: after → Fits before b

variable {placed before between after : List PlacedItem} {a b : PlacedItem}

theorem grown_nil : Grown [] := by
  intro before b after h
  simp at h

theorem Grown.concat (h : Grown placed) (hb : Fits placed b) : Grown (placed ++ [b]) := by
  intro before c after heq
  rcases List.append_eq_append_iff.1 heq with ⟨more, rfl, hmore⟩ | ⟨more, rfl, hmore⟩
  · cases more with
    | nil =>
      obtain ⟨rfl, -⟩ := List.cons_eq_cons.1 hmore
      rwa [List.append_nil]
    | cons d more => simp at hmore
  · cases more with
    | nil =>
      obtain ⟨rfl, -⟩ := List.cons_eq_cons.1 hmore
      rwa [List.append_nil] at hb
    | cons d more =>
      obtain ⟨rfl, -⟩ := List.cons_eq_cons.1 hmore
      exact h rfl

/-- Two splits of a list: the element of the first is before, at, or behind that of the second. -/
theorem split_cases {α : Type} {x y earlier later : List α} {a b : α}
    (h : x ++ a :: y = earlier ++ b :: later) :
    (∃ m, earlier = x ++ a :: m ∧ y = m ++ b :: later) ∨
      (x = earlier ∧ a = b ∧ y = later) ∨ ∃ m, later = m ++ a :: y := by
  rcases List.append_eq_append_iff.1 h with ⟨m, rfl, hm⟩ | ⟨m, rfl, hm⟩
  · cases m with
    | nil =>
      obtain ⟨rfl, rfl⟩ := List.cons_eq_cons.1 hm
      exact .inr (.inl ⟨(List.append_nil x).symm, rfl, rfl⟩)
    | cons c m =>
      obtain ⟨rfl, rfl⟩ := List.cons_eq_cons.1 hm
      exact .inl ⟨m, rfl, rfl⟩
  · cases m with
    | nil =>
      obtain ⟨rfl, rfl⟩ := List.cons_eq_cons.1 hm
      exact .inr (.inl ⟨List.append_nil earlier, rfl, rfl⟩)
    | cons c m =>
      obtain ⟨rfl, rfl⟩ := List.cons_eq_cons.1 hm
      exact .inr (.inr ⟨m, rfl⟩)

/-! ## Shared lists -/

/-- An item of the same list may stand between. -/
theorem sameList_append_iff {s : PlacedItem} {later : List PlacedItem} (hs : SameList s later b) :
    SameList a (between ++ s :: later) b ↔ SameList a between s := by
  have hparts : ∀ c : PlacedItem, c.Parts b ↔ c.Parts s := by
    intro c
    rw [Parts, Parts, hs.depth, hs.ordered]
  constructor
  · rintro ⟨hrun, hdepth, hordered, hunparted⟩
    rw [← hs.run] at hrun
    rw [← hs.depth] at hdepth
    rw [← hs.ordered] at hordered
    refine ⟨hrun, hdepth, hordered, ?_⟩
    intro c hc
    rw [← hparts]
    exact hunparted c (List.mem_append_left _ hc)
  · rintro ⟨hrun, hdepth, hordered, hunparted⟩
    refine ⟨hrun.trans hs.run, hdepth.trans hs.depth, hordered.trans hs.ordered, ?_⟩
    intro c hc
    rcases List.mem_append.1 hc with hc | hc
    · rw [hparts]
      exact hunparted c hc
    · rcases List.mem_cons.1 hc with rfl | hc
      · rintro (hlt | ⟨-, hne⟩)
        · exact absurd hs.depth (Nat.ne_of_lt hlt)
        · exact hne hs.ordered
      · exact hs.unparted c hc

theorem address_eq_of_length (h : a.place.list.length + 1 = 2 * a.item.depth) :
    ∃ index, a.place.address = a.place.list ++ [index] := by
  have hne : a.place.address ≠ [] := by
    intro hnil
    rw [ItemPlace.list, hnil] at h
    simp only [List.dropLast_nil, List.length_nil] at h
    omega
  exact ⟨a.place.address.getLast hne, (List.dropLast_append_getLast hne).symm⟩

/-- Two items share a list exactly if they are in one run, as deep as each other and of one kind,
and none between them parts them. -/
theorem Grown.list_eq_iff (h : Grown placed)
    (hsorted : (placed.map place).Pairwise (·.address < ·.address))
    (heq : placed = before ++ a :: between ++ b :: after) :
    a.place.list = b.place.list ↔ SameList a between b := by
  induction hn : between.length using Nat.strong_induction_on generalizing between b after with
  | _ n ih =>
    have ha : Fits before a := h (heq.trans (List.append_assoc ..))
    have hb := h heq
    cases hb.attached with
    | @joins earlier later s split same deeper list =>
      rcases split_cases split with ⟨m, rfl, rfl⟩ | ⟨rfl, rfl, rfl⟩ | ⟨m, rfl⟩
      · -- `s` stands between, so the question is the same for `a` and `s`.
        have hsplit : placed = before ++ a :: m ++ s :: (later ++ b :: after) := by
          rw [heq]
          simp only [List.append_assoc, List.cons_append]
        have hlt : m.length < n := by
          rw [← hn, List.length_append, List.length_cons]
          omega
        rw [← list, ih m.length hlt hsplit rfl, sameList_append_iff same]
      · exact iff_of_true list same
      · have hlt : b.item.depth < a.item.depth :=
          deeper a (List.mem_append_right m (List.mem_cons_self ..))
        refine iff_of_false ?_ fun hsame => absurd hsame.depth (Nat.ne_of_gt hlt)
        intro hlist
        have hla := ha.length
        have hlb := hb.length
        rw [hlist] at hla
        omega
    | starts first alone =>
      refine iff_of_false ?_ (alone before a between rfl)
      intro hlist
      -- An item of a list does not come before the first of the list.
      obtain ⟨index, hindex⟩ := address_eq_of_length ha.length
      rw [List.pairwise_map, heq, List.pairwise_append] at hsorted
      have hlt := hsorted.2.2 a (List.mem_append_right before (List.mem_cons_self ..)) b
        (List.mem_cons_self ..)
      rw [hindex, first, hlist] at hlt
      have hle : ¬[index] < [0] := by
        rw [List.cons_lt_cons_iff]
        simp
      exact absurd hlt (List.not_lt.2 (List.append_left_le (List.not_lt.1 hle)))

end PlacedItem

/-! ## What open lists remember -/

open PlacedItem OpenList

/-- The last items of open lists, innermost first, are the last of their depths so far: all items
behind them are deeper. -/
inductive Tracks (run position : Nat) : List OpenList → List PlacedItem → Prop
  | nil (placed : List PlacedItem) : Tracks run position [] placed
  | cons {l : OpenList} {below : List OpenList} {earlier later : List PlacedItem} {a : PlacedItem}
      (outer : Tracks run position below earlier) (same_run : a.run = run)
      (depth : a.item.depth = below.length + 1) (ordered : a.item.ordered = l.ordered)
      (address : a.place.address = slot position below ++ [l.items.length])
      (deeper : ∀ c ∈ later, below.length + 1 < c.item.depth) :
      Tracks run position (l :: below) (earlier ++ a :: later)

variable {run position : Nat} {stack below : List OpenList} {l : OpenList}
  {placed : List PlacedItem} {item : ListItem}

namespace Tracks

theorem append (h : Tracks run position stack placed) {more : List PlacedItem}
    (hmore : ∀ c ∈ more, stack.length < c.item.depth) :
    Tracks run position stack (placed ++ more) := by
  cases h with
  | nil => exact nil _
  | cons outer same_run depth ordered address deeper =>
    rw [List.append_assoc, List.cons_append]
    exact cons outer same_run depth ordered address (List.forall_mem_append.2 ⟨deeper, hmore⟩)

theorem tail (h : Tracks run position (l :: below) placed) : Tracks run position below placed := by
  cases h with
  | cons outer same_run depth ordered address deeper =>
    refine outer.append (List.forall_mem_cons.2 ⟨by omega, ?_⟩)
    intro c hc
    exact Nat.lt_of_succ_lt (deeper c hc)

theorem nest (h : Tracks run position (l :: below) placed) (n : Node) :
    Tracks run position (l.nest n :: below) placed := by
  cases h with
  | cons outer same_run depth ordered address deeper =>
    exact cons outer same_run depth ordered address deeper

theorem closeTo (h : Tracks run position stack placed) (depth : Nat) :
    Tracks run position (closeTo depth stack) placed := by
  fun_induction OpenList.closeTo depth stack with
  | case1 inner outer rest hdepth ih => exact ih (h.tail.nest inner.node)
  | case2 | case3 => exact h

theorem close (h : Tracks run position (l :: below) placed) :
    Tracks run (position + (l.close below).1.length) (l.close below).2 placed := by
  cases below with
  | nil => exact nil placed
  | cons outer rest => exact h.tail.nest l.node

/-- The list behind open lists stands in the last item that is one level less deep. -/
theorem parent (h : Tracks run position below placed) {b : PlacedItem} (hrun : b.run = run)
    (hdepth : b.item.depth = below.length + 1) (hlist : b.place.list = slot position below)
    (hlt : 1 < b.item.depth) : InParent placed b := by
  cases h with
  | nil =>
    rw [hdepth] at hlt
    exact absurd hlt (Nat.lt_irrefl 1)
  | @cons l below earlier later a outer same_run depth ordered address deeper =>
    rw [List.length_cons, ← depth] at hdepth
    refine ⟨earlier, a, later, rfl, ⟨same_run.trans hrun.symm, hdepth.symm, ?_⟩, ?_⟩
    · intro c hc
      have := deeper c hc
      omega
    · rw [hlist, address, slot]
      exact List.dropLast_append_of_ne_nil (by simp)

/-- An item that ends a list of the other kind shares no list with those before it. -/
theorem alone (h : Tracks run position (l :: below) placed) {b : PlacedItem}
    (hdepth : b.item.depth = below.length + 1) (hordered : l.ordered ≠ b.item.ordered) :
    Alone placed b := by
  cases h with
  | @cons l below _ _ s outer same_run depth ordered address deeper =>
    intro earlier a between heq hsame
    rcases split_cases heq.symm with ⟨m, -, rfl⟩ | ⟨-, rfl, -⟩ | ⟨m, rfl⟩
    · rw [← ordered] at hordered
      have hs : s.Parts b := .inr ⟨by rw [depth, hdepth], hordered⟩
      exact hsame.unparted s (List.mem_append_right m (List.mem_cons_self ..)) hs
    · exact hordered (ordered.symm.trans hsame.ordered)
    · have hlt := deeper a (List.mem_append_right m (List.mem_cons_self ..))
      rw [hsame.depth, hdepth] at hlt
      exact absurd hlt (Nat.lt_irrefl _)

end Tracks

/-! ## Items behind open lists -/

/-- An item of a run in the list behind open lists. -/
def placedBehind (run position : Nat) (below : List OpenList) (index : Nat) (item : ListItem) :
    PlacedItem := ⟨run, item, placeBehind position below index item⟩

theorem list_placedBehind (index : Nat) :
    (placedBehind run position below index item).place.list = slot position below :=
  List.dropLast_concat

theorem countP_slotAround (below : List OpenList) :
    (slotAround below).countP isListName = below.length := by
  induction below with
  | nil => rfl
  | cons l below ih =>
    have hkind : [(Node.listKind l.ordered).name, "listItem"].countP isListName = 1 := by
      cases l.ordered <;> rfl
    rw [slotAround, List.countP_append, ih, hkind, List.length_cons]

theorem shown_placedBehind (hdepth : item.depth = below.length + 1) (index : Nat) :
    (placedBehind run position below index item).Shown := by
  refine ⟨?_, List.getLast?_concat, rfl⟩
  have hkind : [(Node.listKind item.ordered).name].countP isListName = 1 := by
    cases item.ordered <;> rfl
  show (slotAround below ++ [(Node.listKind item.ordered).name]).countP isListName = item.depth
  rw [List.countP_append, countP_slotAround, hkind, hdepth]

/-- The item fits if it comes into its list behind the open lists. -/
theorem Tracks.fits (h : Tracks run position below placed) (hdepth : item.depth = below.length + 1)
    {index : Nat} (hattached : Attached placed (placedBehind run position below index item)) :
    Fits placed (placedBehind run position below index item) := by
  refine ⟨shown_placedBehind hdepth index, ?_, hattached,
    h.parent rfl hdepth (list_placedBehind index)⟩
  rw [list_placedBehind, length_slot]
  show 2 * below.length + 1 + 1 = 2 * item.depth
  omega

/-- Every item of a run is, or has behind it, one that is at most as deep as a bound. -/
def Shallow (run depth : Nat) (placed : List PlacedItem) : Prop :=
  ∀ earlier a between, placed = earlier ++ a :: between → a.run = run →
    ∃ c ∈ a :: between, c.item.depth ≤ depth

/-- The state of a run between two items: the items so far, and what the open lists remember of
them. The last item is not deeper than the open lists. -/
structure Current (run position : Nat) (stack : List OpenList) (placed : List PlacedItem) :
    Prop where
  grown : Grown placed
  tracks : Tracks run position stack placed
  shallow : Shallow run stack.length placed

theorem shallow_concat {b : PlacedItem} {depth : Nat} (hb : b.item.depth ≤ depth) :
    Shallow run depth (placed ++ [b]) := by
  intro earlier a between heq _
  refine ⟨b, ?_, hb⟩
  have hlast : (earlier ++ a :: between).getLast? = some b := by
    rw [← heq, List.getLast?_concat]
  rw [List.getLast?_append_of_ne_nil _ (List.cons_ne_nil a between)] at hlast
  exact List.mem_of_getLast? hlast

namespace Current

/-- An item starts a list behind open lists. -/
theorem start (hgrown : Grown placed) (htracks : Tracks run position below placed)
    (hdepth : item.depth = below.length + 1)
    (halone : Alone placed (placedBehind run position below 0 item)) :
    Current run position (OpenList.start item :: below)
      (placed ++ [placedBehind run position below 0 item]) := by
  have hattached : Attached placed (placedBehind run position below 0 item) := by
    refine .starts ?_ halone
    rw [list_placedBehind]
    rfl
  refine ⟨hgrown.concat (htracks.fits hdepth hattached), ?_, shallow_concat hdepth.le⟩
  exact .cons htracks rfl hdepth rfl rfl (by simp)

/-- An item goes on with the innermost list. -/
theorem join (hgrown : Grown placed) (htracks : Tracks run position (l :: below) placed)
    (hdepth : item.depth = below.length + 1) (hordered : l.ordered = item.ordered) :
    Current run position (l.addItem item :: below)
      (placed ++ [placedBehind run position below (l.items.length + 1) item]) := by
  have hbelow := htracks.tail
  have hattached : Attached placed (placedBehind run position below (l.items.length + 1) item) := by
    cases htracks with
    | cons outer same_run depth ordered address deeper =>
      refine .joins rfl ⟨same_run, depth.trans hdepth.symm, ordered.trans hordered, ?_⟩ ?_ ?_
      · rintro c hc (hlt | ⟨heq, -⟩)
        · have := deeper c hc
          have hlt' : c.item.depth < item.depth := hlt
          omega
        · have := deeper c hc
          have heq' : c.item.depth = item.depth := heq
          omega
      · intro c hc
        rw [← hdepth] at deeper
        exact deeper c hc
      · rw [list_placedBehind, ItemPlace.list, address]
        exact List.dropLast_concat
  refine ⟨hgrown.concat (hbelow.fits hdepth hattached), ?_, shallow_concat hdepth.le⟩
  exact .cons hbelow rfl hdepth hordered.symm rfl (by simp)

/-- **One item.** An item fits behind those before it, and its place is the only new one. -/
theorem addToStack (h : Current run position stack placed)
    (hdeepens : Deepens stack.length item.depth) :
    ∃ b : PlacedItem, b.source = (run, item) ∧ (addToStack item stack).2.length = item.depth ∧
      Current run (position + (addToStack item stack).1.length) (addToStack item stack).2
        (placed ++ [b]) ∧
      Node.itemPlacesAll [] [] position (addToStack item stack).1 ++
          placesOfStack (position + (addToStack item stack).1.length) (addToStack item stack).2 =
        placesOfStack position stack ++ [b.place] := by
  obtain ⟨hone, hsucc, -⟩ := hdeepens
  by_cases hnew : item.depth = stack.length + 1
  · rw [addToStack_of_depth_eq hnew]
    refine ⟨placedBehind run position stack 0 item, rfl, hnew.symm, start h.grown h.tracks hnew ?_,
      placesOfStack_start item stack⟩
    intro earlier a between heq hsame
    obtain ⟨c, hc, hle⟩ := h.shallow earlier a between heq hsame.run
    have hlt : c.item.depth < item.depth := by omega
    rcases List.mem_cons.1 hc with rfl | hc
    · exact absurd hsame.depth (Nat.ne_of_lt hlt)
    · exact hsame.unparted c hc (.inl hlt)
  · have hle : item.depth ≤ stack.length := by omega
    obtain ⟨l, below, hclose, hdepth, hstep⟩ := addToStack_of_depth_le hone hle
    have htracks := h.tracks.closeTo item.depth
    have hplaces : placesOfStack position stack = placesOfStack position (l :: below) := by
      rw [← hclose, placesOfStack, placesOfStack, closeAll_closeTo]
    rw [hclose] at htracks
    rw [hstep, hplaces]
    by_cases hordered : l.ordered = item.ordered
    · rw [if_pos hordered]
      exact ⟨placedBehind run position below (l.items.length + 1) item, rfl, hdepth.symm,
        join h.grown htracks hdepth hordered, placesOfStack_addItem l below hordered⟩
    · rw [if_neg hordered]
      have hbelow : item.depth = (l.close below).2.length + 1 := by rw [length_close, hdepth]
      refine ⟨placedBehind run _ (l.close below).2 0 item, rfl, hbelow.symm,
        start h.grown htracks.close hbelow (htracks.alone hdepth hordered), ?_⟩
      rw [placesOfStack_start, ← List.append_assoc, placesOfStack_close]
      rfl

end Current

/-- **One run.** The items of a run fit behind those before it. -/
theorem exists_placed_nodesOfItems {items : List ListItem} (h : Current run position stack placed)
    (hitems : (stack.length :: items.map ListItem.depth).IsChain Deepens) :
    ∃ more : List PlacedItem, more.map PlacedItem.source = items.map (run, ·) ∧
      Grown (placed ++ more) ∧
      placesOfStack position stack ++ more.map PlacedItem.place =
        Node.itemPlacesAll [] [] position (nodesOfItems stack items) := by
  induction items generalizing position stack placed with
  | nil =>
    refine ⟨[], rfl, ?_, List.append_nil _⟩
    rw [List.append_nil]
    exact h.grown
  | cons item rest ih =>
    obtain ⟨hdeepens, hrest⟩ := List.isChain_cons_cons.1 hitems
    obtain ⟨b, hsource, hlength, hcurrent, hplaces⟩ := h.addToStack hdeepens
    rw [← hlength] at hrest
    obtain ⟨more, hsources, hgrown, hmore⟩ := ih hcurrent hrest
    refine ⟨b :: more, ?_, ?_, ?_⟩
    · rw [List.map_cons, List.map_cons, hsource, hsources]
    · rwa [List.append_assoc] at hgrown
    · rw [nodesOfItems, Node.itemPlacesAll_append, ← hmore, ← List.append_assoc, hplaces,
        List.append_assoc]
      rfl

/-! ## Blocks -/

/-- Events that are neither items nor the ends of lists have no part in the items. -/
theorem itemsFrom_append_of_skipped {events : List Event}
    (h : ∀ e ∈ events, e ≠ .listEnd ∧ ∀ item, e ≠ .listItem item) (rest : List Event) :
    Event.itemsFrom run (events ++ rest) = Event.itemsFrom run rest := by
  induction events with
  | nil => rfl
  | cons e events ih =>
    rw [List.forall_mem_cons] at h
    rw [List.cons_append, Event.itemsFrom, ih h.2]
    · exact h.1.2
    · exact h.1.1

theorem itemsFrom_events_append {b : Block} (hb : ∀ r, b ≠ .list r) (rest : List Event) :
    Event.itemsFrom run (b.events ++ rest) = Event.itemsFrom run rest := by
  refine itemsFrom_append_of_skipped ?_ rest
  cases b with
  | list r => exact absurd rfl (hb r)
  | _ => simp [Block.events, or_imp, forall_and]

theorem itemsFrom_listRun_append (r : ListRun) (rest : List Event) :
    Event.itemsFrom run ((Block.list r).events ++ rest) =
      r.items.map (run, ·) ++ Event.itemsFrom (run + 1) rest := by
  have hlines : ∀ lines : List (Option ListItem),
      Event.itemsFrom run (lines.map ListRun.lineEvent ++ .listEnd :: rest) =
        lines.reduceOption.map (run, ·) ++ Event.itemsFrom (run + 1) rest := by
    intro lines
    induction lines with
    | nil => rfl
    | cons line lines ih =>
      cases line with
      | none => exact ih
      | some item =>
        rw [List.reduceOption_cons_of_some]
        exact congrArg ((run, item) :: ·) ih
  have := hlines (some r.first :: r.rest)
  rw [Block.events, List.cons_append, List.append_assoc]
  exact this

/-- The items of complete blocks fit behind those of earlier runs. -/
theorem exists_placed_blocks (run position : Nat) (blocks : List Block) (hgrown : Grown placed)
    (hrun : ∀ p ∈ placed, p.run < run) :
    ∃ more : List PlacedItem,
      more.map PlacedItem.source = Event.itemsFrom run (blocks.flatMap Block.events) ∧
      more.map PlacedItem.place =
        Node.itemPlacesAll [] [] position (blocks.flatMap Block.nodes) ∧
      Grown (placed ++ more) := by
  induction blocks generalizing placed run position with
  | nil => exact ⟨[], rfl, rfl, by rwa [List.append_nil]⟩
  | cons b rest ih =>
    rw [List.flatMap_cons, List.flatMap_cons, Node.itemPlacesAll_append]
    by_cases hb : ∃ r, b = .list r
    · obtain ⟨r, rfl⟩ := hb
      have hcurrent : Current run position [] placed := by
        refine ⟨hgrown, .nil placed, ?_⟩
        intro earlier a between heq ha
        have hmem : a ∈ placed := heq ▸ List.mem_append_right earlier (List.mem_cons_self ..)
        exact absurd ha (Nat.ne_of_lt (hrun a hmem))
      have hchain : (0 :: r.items.map ListItem.depth).IsChain Deepens := by
        refine List.isChain_cons_cons.2 ⟨?_, r.deepens⟩
        rw [Deepens, r.depth_first, maxListDepth]
        omega
      obtain ⟨items, hsources, hitems, hplaces⟩ := exists_placed_nodesOfItems hcurrent hchain
      have hnext : ∀ p ∈ placed ++ items, p.run < run + 1 := by
        refine List.forall_mem_append.2 ⟨fun p hp => Nat.lt_succ_of_lt (hrun p hp), ?_⟩
        intro p hp
        have hmem : p.source ∈ r.items.map (run, ·) := hsources ▸ List.mem_map_of_mem hp
        obtain ⟨_, _, hsource⟩ := List.mem_map.1 hmem
        show p.source.1 < run + 1
        rw [← hsource]
        exact Nat.lt_succ_self run
      obtain ⟨more, hmore, hmoreplaces, hmoregrown⟩ := ih (run + 1) _ hitems hnext
      refine ⟨items ++ more, ?_, ?_, ?_⟩
      · rw [List.map_append, hsources, hmore, itemsFrom_listRun_append]
      · rw [List.map_append, hmoreplaces]
        rw [placesOfStack_nil, List.nil_append] at hplaces
        rw [hplaces]
        rfl
      · rwa [List.append_assoc] at hmoregrown
    · have hb : ∀ r, b ≠ .list r := fun r hr => hb ⟨r, hr⟩
      rw [itemsFrom_events_append hb, Node.itemPlacesAll_eq_nil (itemFree_of_mem_nodes hb),
        List.nil_append]
      exact ih run _ hgrown hrun

/-- The items of the document of a Markdown text are those of the text, each right behind those
before it. -/
theorem exists_grown_ofMarkdown (markdown : Text) :
    ∃ placed : List PlacedItem,
      placed.map PlacedItem.source =
        Event.itemsFrom 0 ((classify markdown).map NumberedEvent.event) ∧
      placed.map PlacedItem.place = (Document.ofMarkdown markdown).itemPlaces ∧
      Grown placed ∧ (placed.map place).Pairwise (·.address < ·.address) := by
  obtain ⟨blocks, hblocks, hcontent⟩ := exists_blocks_ofMarkdown markdown
  obtain ⟨placed, hsources, hplaces, hgrown⟩ :=
    exists_placed_blocks 0 0 blocks grown_nil (by simp)
  rw [List.nil_append] at hgrown
  rw [← hcontent] at hplaces
  refine ⟨placed, by rw [hsources, hblocks], hplaces, hgrown, ?_⟩
  rw [hplaces]
  exact Document.pairwise_itemPlaces (Document.ofMarkdown markdown)

/-- **Nesting of lists.** The list items of the document of a Markdown text are the items of the
text, in order, each in as many lists as it is deep. Which items share a list, and which item a
list stands in, follows from their runs, depths and kinds. -/
theorem exists_nested_ofMarkdown (markdown : Text) :
    ∃ placed : List PlacedItem,
      placed.map PlacedItem.source =
        Event.itemsFrom 0 ((classify markdown).map NumberedEvent.event) ∧
      placed.map PlacedItem.place = (Document.ofMarkdown markdown).itemPlaces ∧
      Nested placed := by
  obtain ⟨placed, hsources, hplaces, hgrown, hsorted⟩ := exists_grown_ofMarkdown markdown
  refine ⟨placed, hsources, hplaces, ?_, hgrown.list_eq_iff hsorted, ?_⟩
  · intro p hp
    obtain ⟨before, after, heq⟩ := List.append_of_mem hp
    exact (hgrown heq).shown
  · intro before b after heq
    exact (hgrown heq).parent

end TicketMarkup
