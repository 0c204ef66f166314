import TicketMarkup.Document.Linked
import Mathlib.Data.List.Basic

/-!
# Trees in slots

Nodes that are numbered in preorder, each linked below its parent, are a list of trees: the slots
written down tree by tree (`NodeTree.slotsAll`).

1. Every number occurs once among the blocks and the links, below a smaller one
   (`isForest_slotsAll`).
2. Taking the trees out finds every slot full that it asks for (`isFull_of_asks`), gives the
   trees as nodes and leaves all slots empty (`takeTrees_slotsAll`).
-/

namespace TicketMarkup

/-- A tree of linked nodes: a node that nothing is linked below, or a container with content of its
own and the trees behind it. -/
inductive NodeTree
  | leaf (node : Node)
  | branch (kind : Container) (own : List Node) (below : List NodeTree)

namespace NodeTree

mutual

/-- The number of slots of a tree. -/
def size : NodeTree → Nat
  | leaf _ => 1
  | branch _ _ below => sizeAll below + 1

/-- The number of slots of trees. -/
def sizeAll : List NodeTree → Nat
  | [] => 0
  | t :: rest => t.size + sizeAll rest

end

/-- The numbers of trees whose slots stand one after the other. -/
def numbers (start : Nat) : List NodeTree → List Nat
  | [] => []
  | t :: rest => start :: numbers (start + t.size) rest

mutual

/-- The slots of a tree in preorder. -/
def slots (start : Nat) : NodeTree → Arena
  | leaf n => [⟨some n, []⟩]
  | branch kind own below =>
    ⟨some (.container kind own), numbers (start + 1) below⟩ :: slotsAll (start + 1) below

/-- The slots of trees in preorder. -/
def slotsAll (start : Nat) : List NodeTree → Arena
  | [] => []
  | t :: rest => slots start t ++ slotsAll (start + t.size) rest

end

mutual

/-- A tree as a node. -/
def toNode : NodeTree → Node
  | leaf n => n
  | branch kind own below => .container kind (own ++ toNodes below)

/-- Trees as nodes. -/
def toNodes : List NodeTree → List Node
  | [] => []
  | t :: rest => t.toNode :: toNodes rest

end

mutual

theorem length_slots (start : Nat) : ∀ t : NodeTree, (slots start t).length = t.size
  | leaf _ => rfl
  | branch _ _ below => by rw [slots, List.length_cons, length_slotsAll (start + 1) below, size]

theorem length_slotsAll (start : Nat) : ∀ ts : List NodeTree, (slotsAll start ts).length = sizeAll ts
  | [] => rfl
  | t :: rest => by
    rw [slotsAll, List.length_append, length_slots start t, length_slotsAll _ rest, sizeAll]

end

variable {start : Nat} {ts more : List NodeTree}

theorem sizeAll_append (ts more : List NodeTree) :
    sizeAll (ts ++ more) = sizeAll ts + sizeAll more := by
  induction ts with
  | nil => exact (Nat.zero_add _).symm
  | cons t rest ih => rw [List.cons_append, sizeAll, ih, sizeAll, Nat.add_assoc]

theorem numbers_append (start : Nat) (ts more : List NodeTree) :
    numbers start (ts ++ more) = numbers start ts ++ numbers (start + sizeAll ts) more := by
  induction ts generalizing start with
  | nil => rfl
  | cons t rest ih => rw [List.cons_append, numbers, ih, numbers, sizeAll, Nat.add_assoc]; rfl

theorem slotsAll_append (start : Nat) (ts more : List NodeTree) :
    slotsAll start (ts ++ more) = slotsAll start ts ++ slotsAll (start + sizeAll ts) more := by
  induction ts generalizing start with
  | nil => rfl
  | cons t rest ih =>
    rw [List.cons_append, slotsAll, ih, slotsAll, sizeAll, Nat.add_assoc, List.append_assoc]

theorem toNodes_append (ts more : List NodeTree) :
    toNodes (ts ++ more) = toNodes ts ++ toNodes more := by
  induction ts with
  | nil => rfl
  | cons t rest ih => rw [List.cons_append, toNodes, ih, toNodes]; rfl

theorem toNodes_eq_nil_iff : toNodes ts = [] ↔ ts = [] := by
  cases ts <;> simp [toNodes]

theorem le_of_mem_numbers {id : Nat} (h : id ∈ numbers start ts) : start ≤ id := by
  induction ts generalizing start with
  | nil => exact absurd h List.not_mem_nil
  | cons t rest ih =>
    rcases List.mem_cons.1 h with rfl | h
    · exact Nat.le_refl _
    · exact Nat.le_trans (Nat.le_add_right start t.size) (ih h)

end NodeTree

/-! ## Links -/

/-- Every number occurs exactly once among the blocks and the links, and every link leads to a greater
number. -/
structure Arena.IsForest (a : Arena) (roots : List Nat) : Prop where
  once : (roots ++ a.flatMap Slot.children).Perm (List.range a.length)
  lt : ∀ parent, ∀ child ∈ a.children parent, parent < child

namespace NodeTree

variable {start : Nat} {ts : List NodeTree}

mutual

/-- The links of a tree lead to all its numbers but the first. -/
theorem perm_links (start : Nat) : ∀ t : NodeTree,
    (start :: (slots start t).flatMap Slot.children).Perm (List.range' start t.size)
  | leaf _ => .refl _
  | branch kind own below => by
    rw [slots, List.flatMap_cons, size, List.range'_succ]
    exact (perm_numbers_links (start + 1) below).cons start

/-- The numbers of trees and their links lead to all numbers of the trees. -/
theorem perm_numbers_links (start : Nat) : ∀ ts : List NodeTree,
    (numbers start ts ++ (slotsAll start ts).flatMap Slot.children).Perm
      (List.range' start (sizeAll ts))
  | [] => .refl _
  | t :: rest => by
    have hrange : List.range' start (sizeAll (t :: rest)) =
        List.range' start t.size ++ List.range' (start + t.size) (sizeAll rest) := by
      rw [sizeAll, List.range'_append_1]
    have hmiddle : (numbers (start + t.size) rest ++
        ((slots start t).flatMap Slot.children ++
          (slotsAll (start + t.size) rest).flatMap Slot.children)).Perm
        ((slots start t).flatMap Slot.children ++ (numbers (start + t.size) rest ++
          (slotsAll (start + t.size) rest).flatMap Slot.children)) := List.perm_append_comm_assoc ..
    rw [numbers, slotsAll, List.flatMap_append, hrange]
    exact (hmiddle.cons start).trans
      ((perm_links start t).append (perm_numbers_links (start + t.size) rest))

end

mutual

theorem lt_of_mem_children_slots (start : Nat) : ∀ (t : NodeTree) {i child : Nat},
    child ∈ Arena.children (slots start t) i → start + i < child
  | leaf _, i, child, h => by
    cases i <;> simp [slots, Arena.children] at h
  | branch kind own below, i, child, h => by
    cases i with
    | zero => exact le_of_mem_numbers h
    | succ i =>
      have hlt := lt_of_mem_children_slotsAll (start + 1) below h
      omega

theorem lt_of_mem_children_slotsAll (start : Nat) : ∀ (ts : List NodeTree) {i child : Nat},
    child ∈ Arena.children (slotsAll start ts) i → start + i < child
  | [], i, child, h => by simp [slotsAll, Arena.children] at h
  | t :: rest, i, child, h => by
    rw [Arena.children, slotsAll, List.getElem?_append, length_slots] at h
    split_ifs at h with hi
    · exact lt_of_mem_children_slots start t h
    · have hlt := lt_of_mem_children_slotsAll (start + t.size) rest h
      omega

end

/-- **Links of trees.** The slots of trees are linked as a forest. -/
theorem isForest_slotsAll (ts : List NodeTree) :
    Arena.IsForest (slotsAll 0 ts) (numbers 0 ts) := by
  constructor
  · rw [length_slotsAll, List.range_eq_range']
    exact perm_numbers_links 0 ts
  · intro parent child h
    rw [← Nat.zero_add parent]
    exact lt_of_mem_children_slotsAll 0 ts h

/-! ## Taking trees out -/

/-- The slots of trees that were taken out. -/
def emptied (ts : List NodeTree) : Arena := List.replicate (sizeAll ts) .empty

theorem emptied_cons (t : NodeTree) (rest : List NodeTree) :
    emptied (t :: rest) = emptied [t] ++ emptied rest := by
  rw [emptied, emptied, emptied, List.replicate_append_replicate, sizeAll, sizeAll, sizeAll,
    Nat.add_zero]

theorem length_append_emptied (before : Arena) (t : NodeTree) :
    (before ++ emptied [t]).length = before.length + t.size := by
  rw [emptied, List.length_append, List.length_replicate, sizeAll, sizeAll, Nat.add_zero]

theorem extend_nil (n : Node) : n.extend [] = n := by
  cases n <;> simp [Node.extend]

theorem set_append_cons (before after : Arena) (slot : Slot) :
    (before ++ slot :: after).set before.length .empty = before ++ .empty :: after := by
  simp

/-- Taking out the node of the slot behind some others. -/
theorem takeTrees_append_cons (before after : Arena) (n : Node) (children ids : List Nat) :
    Arena.takeTrees (before ++ ⟨some n, children⟩ :: after) (before.length :: ids) =
      let below := Arena.takeTrees (before ++ .empty :: after) children
      let rest := below.2.takeTrees ids
      (n.extend below.1 :: rest.1, rest.2) := by
  have hslot : (before ++ ⟨some n, children⟩ :: after)[before.length]? = some ⟨some n, children⟩ := by
    simp
  rw [Arena.takeTrees_cons hslot, set_append_cons]

mutual

theorem takeTrees_slots (before after : Arena) (ids : List Nat) : ∀ t : NodeTree,
    Arena.takeTrees (before ++ (slots before.length t ++ after)) (before.length :: ids) =
      let rest := Arena.takeTrees (before ++ (emptied [t] ++ after)) ids
      (t.toNode :: rest.1, rest.2)
  | leaf n => by
    rw [slots, List.singleton_append, takeTrees_append_cons, Arena.takeTrees_nil]
    simp only [extend_nil]
    rfl
  | branch kind own below => by
    have hbelow := takeTrees_slotsAll_append (before ++ [.empty]) after [] below
    simp only [List.append_nil, Arena.takeTrees_nil, List.length_append, List.length_singleton,
      List.append_assoc, List.singleton_append] at hbelow
    rw [slots, List.cons_append, takeTrees_append_cons, hbelow]
    rfl

/-- Trees are taken out one after the other. -/
theorem takeTrees_slotsAll_append (before after : Arena) (ids : List Nat) : ∀ ts : List NodeTree,
    Arena.takeTrees (before ++ (slotsAll before.length ts ++ after))
        (numbers before.length ts ++ ids) =
      let rest := Arena.takeTrees (before ++ (emptied ts ++ after)) ids
      (toNodes ts ++ rest.1, rest.2)
  | [] => rfl
  | t :: rest => by
    have hrest := takeTrees_slotsAll_append (before ++ emptied [t]) after ids rest
    simp only [length_append_emptied, List.append_assoc] at hrest
    rw [slotsAll, numbers, List.append_assoc, List.cons_append, takeTrees_slots, hrest,
      emptied_cons t rest, List.append_assoc]
    rfl

end

/-- **Taking out.** The slots of trees give the trees as nodes and are empty behind that. -/
theorem takeTrees_slotsAll (ts : List NodeTree) :
    Arena.takeTrees (slotsAll 0 ts) (numbers 0 ts) = (toNodes ts, emptied ts) := by
  have h := takeTrees_slotsAll_append [] [] [] ts
  simpa [Arena.takeTrees_nil] using h

end NodeTree

/-! ## Slots that are asked for -/

namespace Arena

/-- A slot holds a node. -/
def IsFull (a : Arena) (id : Nat) : Prop := ∃ n children, a[id]? = some ⟨some n, children⟩

/-- While nodes are taken out of an arena, a slot is asked for in another arena, where some slots are
empty already. -/
inductive Asks : Arena → List Nat → Arena → Nat → Prop
  | here (a : Arena) (id : Nat) (ids : List Nat) : Asks a (id :: ids) a id
  | inside {a b : Arena} {id asked : Nat} {n : Node} {children : List Nat} (ids : List Nat)
      (slot : a[id]? = some ⟨some n, children⟩) (h : Asks (a.set id .empty) children b asked) :
      Asks a (id :: ids) b asked
  | behind {a b : Arena} {id asked : Nat} {n : Node} {children ids : List Nat}
      (slot : a[id]? = some ⟨some n, children⟩)
      (h : Asks (Arena.takeTrees (a.set id .empty) children).2 ids b asked) :
      Asks a (id :: ids) b asked
  | missed {a b : Arena} {id asked : Nat} {ids : List Nat} (slot : ¬a.IsFull id)
      (h : Asks a ids b asked) : Asks a (id :: ids) b asked

/-- A full slot is asked for, then the slots below it, then the others. -/
theorem Asks.cases_of_full {a b : Arena} {id asked : Nat} {n : Node} {children ids : List Nat}
    (slot : a[id]? = some ⟨some n, children⟩) (h : Asks a (id :: ids) b asked) :
    b.IsFull asked ∨ Asks (a.set id .empty) children b asked ∨
      Asks (Arena.takeTrees (a.set id .empty) children).2 ids b asked := by
  cases h with
  | here => exact .inl ⟨n, children, slot⟩
  | inside _ slot' h =>
    obtain ⟨rfl, rfl⟩ : _ ∧ _ := by simpa using slot.symm.trans slot'
    exact .inr (.inl h)
  | behind slot' h =>
    obtain ⟨rfl, rfl⟩ : _ ∧ _ := by simpa using slot.symm.trans slot'
    exact .inr (.inr h)
  | missed hempty _ => exact absurd ⟨n, children, slot⟩ hempty

theorem not_asks_nil {a b : Arena} {asked : Nat} : ¬Asks a [] b asked := nofun

end Arena

namespace NodeTree

open Arena

variable {b : Arena} {asked : Nat}

theorem asks_append_cons (before after : Arena) {n : Node} {children ids : List Nat}
    (h : Asks (before ++ ⟨some n, children⟩ :: after) (before.length :: ids) b asked) :
    b.IsFull asked ∨ Asks (before ++ .empty :: after) children b asked ∨
      Asks (Arena.takeTrees (before ++ .empty :: after) children).2 ids b asked := by
  have hslot : (before ++ ⟨some n, children⟩ :: after)[before.length]? = some ⟨some n, children⟩ := by
    simp
  have hasks := h.cases_of_full hslot
  rwa [set_append_cons] at hasks

mutual

theorem asks_slots (before after : Arena) (ids : List Nat) : ∀ t : NodeTree,
    Asks (before ++ (slots before.length t ++ after)) (before.length :: ids) b asked →
      b.IsFull asked ∨ Asks (before ++ (emptied [t] ++ after)) ids b asked
  | leaf n, h => by
    rw [slots, List.singleton_append] at h
    rcases asks_append_cons before after h with hfull | hinside | hbehind
    · exact .inl hfull
    · exact absurd hinside not_asks_nil
    · rw [takeTrees_nil] at hbehind
      exact .inr hbehind
  | branch kind own below, h => by
    have hasks := asks_slotsAll_append (before ++ [.empty]) after [] below
    have htake := takeTrees_slotsAll_append (before ++ [.empty]) after [] below
    simp only [List.append_nil, takeTrees_nil, List.length_append, List.length_singleton,
      List.append_assoc, List.singleton_append] at hasks htake
    rw [slots, List.cons_append] at h
    rcases asks_append_cons before _ h with hfull | hinside | hbehind
    · exact .inl hfull
    · exact .inl ((hasks hinside).resolve_right not_asks_nil)
    · rw [htake] at hbehind
      exact .inr hbehind

theorem asks_slotsAll_append (before after : Arena) (ids : List Nat) : ∀ ts : List NodeTree,
    Asks (before ++ (slotsAll before.length ts ++ after)) (numbers before.length ts ++ ids) b asked →
      b.IsFull asked ∨ Asks (before ++ (emptied ts ++ after)) ids b asked
  | [], h => .inr h
  | t :: rest, h => by
    have hrest := asks_slotsAll_append (before ++ emptied [t]) after ids rest
    simp only [length_append_emptied, List.append_assoc] at hrest
    rw [slotsAll, numbers, List.append_assoc, List.cons_append] at h
    rw [emptied_cons t rest, List.append_assoc]
    exact (asks_slots before _ _ t h).elim .inl hrest

end

/-- **No slot is empty when it is asked for.** -/
theorem isFull_of_asks {ts : List NodeTree} (h : Asks (slotsAll 0 ts) (numbers 0 ts) b asked) :
    b.IsFull asked := by
  rw [← List.append_nil (slotsAll 0 ts), ← List.append_nil (numbers 0 ts)] at h
  exact (asks_slotsAll_append [] [] [] ts h).resolve_right not_asks_nil

end NodeTree

end TicketMarkup
