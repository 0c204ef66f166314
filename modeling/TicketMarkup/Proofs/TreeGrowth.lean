import TicketMarkup.Proofs.NodeTrees
import Mathlib.Data.List.ModifyLast

/-!
# Trees that grow at their end

A document grows by nodes that are added behind all others: as a block of its own, or as the last
child of a node along the last trees (`NodeTree.plantAt`). The containers there have numbers
(`NodeTree.LastAt`), each the last child of the one before it (`LastAt.getLast?_children`).

A node that is linked below one of them takes the next slot, and the slots are those of the grown
trees (`slotsAll_plantAt`). As nodes, the trees grow in the same place (`toNodes_plantAt`).
-/

namespace TicketMarkup

namespace Node

/-- A container with its content changed. -/
def mapContent (f : List Node → List Node) : Node → Node
  | container kind content => container kind (f content)
  | n => n

/-- Adds a node as the last one at a depth along the last nodes. -/
def addLast (n : Node) : Nat → List Node → List Node
  | 0, nodes => nodes ++ [n]
  | depth + 1, nodes => nodes.modifyLast (mapContent (addLast n depth))

theorem addLast_concat_container (n : Node) (depth : Nat) (front : List Node) (kind : Container)
    (content : List Node) :
    addLast n (depth + 1) (front ++ [container kind content]) =
      front ++ [container kind (addLast n depth content)] := List.modifyLast_concat ..

/-- Nodes in front of the last trees stay as they are. -/
theorem addLast_append (n : Node) {depth : Nat} (front : List Node) {nodes : List Node}
    (h : depth = 0 ∨ nodes ≠ []) :
    addLast n depth (front ++ nodes) = front ++ addLast n depth nodes := by
  cases depth with
  | zero => exact List.append_assoc ..
  | succ depth =>
    exact List.modifyLast_append_of_right_ne_nil _ front nodes (h.resolve_left (by simp))

end Node

namespace Arena

theorem append_append (before after : Arena) (id child : Nat) :
    Arena.append (before ++ after) (before.length + id) child =
      before ++ Arena.append after id child := by
  induction before with
  | nil => rw [List.length_nil, Nat.zero_add]; rfl
  | cons slot before ih => simpa [append, Nat.succ_add] using ih

theorem append_cons_zero (slot : Slot) (a : Arena) (child : Nat) :
    Arena.append (slot :: a) 0 child = ⟨slot.node, slot.children ++ [child]⟩ :: a := rfl

theorem children_append_length (before after : Arena) (id : Nat) :
    Arena.children (before ++ after) (before.length + id) = after.children id := by
  rw [children, List.getElem?_append_right (Nat.le_add_right _ _), Nat.add_sub_cancel_left]
  rfl

/-- Linking a node and giving another node a number have no part in each other. -/
theorem append_alloc {a : Arena} {id : Nat} (h : id < a.length) (n : Node) (child : Nat) :
    (a.alloc n).append id child = a.append id child ++ [⟨some n, []⟩] := by
  induction a generalizing id with
  | nil => simp at h
  | cons slot a ih =>
    cases id with
    | zero => rfl
    | succ id => exact congrArg (slot :: ·) (ih (Nat.lt_of_succ_lt_succ h))

end Arena

namespace NodeTree

/-- The tree of a node that nothing is linked below. -/
def seed : Node → NodeTree
  | .container kind own => branch kind own []
  | n => leaf n

/-- A tree with the trees below it changed. -/
def mapBelow (f : List NodeTree → List NodeTree) : NodeTree → NodeTree
  | branch kind own below => branch kind own (f below)
  | leaf n => leaf n

/-- Adds a node as the last tree at a depth along the last trees. -/
def plantAt (n : Node) : Nat → List NodeTree → List NodeTree
  | 0, ts => ts ++ [seed n]
  | depth + 1, ts => ts.modifyLast (mapBelow (plantAt n depth))

/-- The container at a depth along the last trees has a number. -/
inductive LastAt : Nat → List NodeTree → Nat → Prop
  | here (ts : List NodeTree) (kind : Container) (own : List Node) (below : List NodeTree) :
    LastAt 0 (ts ++ [branch kind own below]) (sizeAll ts)
  | inside {depth id : Nat} {below : List NodeTree} (ts : List NodeTree) (kind : Container)
      (own : List Node) (h : LastAt depth below id) :
    LastAt (depth + 1) (ts ++ [branch kind own below]) (sizeAll ts + 1 + id)

variable {n : Node} {depth id : Nat} {ts : List NodeTree}

theorem slots_seed (start : Nat) (n : Node) : slots start (seed n) = [⟨some n, []⟩] := by
  cases n <;> rfl

theorem toNode_seed (n : Node) : (seed n).toNode = n := by
  cases n with
  | container kind own => rw [seed, toNode, toNodes, List.append_nil]
  | _ => rfl

theorem sizeAll_concat (ts : List NodeTree) (t : NodeTree) :
    sizeAll (ts ++ [t]) = sizeAll ts + t.size := by
  rw [sizeAll_append, sizeAll, sizeAll, Nat.add_zero]

theorem sizeAll_concat_branch (ts : List NodeTree) (kind : Container) (own : List Node)
    (below : List NodeTree) :
    sizeAll (ts ++ [branch kind own below]) = sizeAll ts + 1 + sizeAll below := by
  rw [sizeAll_concat, size]
  omega

theorem slotsAll_concat (start : Nat) (ts : List NodeTree) (t : NodeTree) :
    slotsAll start (ts ++ [t]) = slotsAll start ts ++ slots (start + sizeAll ts) t := by
  rw [slotsAll_append, slotsAll, slotsAll, List.append_nil]

theorem numbers_concat (start : Nat) (ts : List NodeTree) (t : NodeTree) :
    numbers start (ts ++ [t]) = numbers start ts ++ [start + sizeAll ts] := numbers_append ..

theorem toNodes_concat (ts : List NodeTree) (t : NodeTree) :
    toNodes (ts ++ [t]) = toNodes ts ++ [t.toNode] := toNodes_append ..

theorem plantAt_concat_branch (n : Node) (depth : Nat) (ts : List NodeTree) (kind : Container)
    (own : List Node) (below : List NodeTree) :
    plantAt n (depth + 1) (ts ++ [branch kind own below]) =
      ts ++ [branch kind own (plantAt n depth below)] := List.modifyLast_concat ..

/-! ## Numbers of the last containers -/

theorem LastAt.ne_nil (h : LastAt depth ts id) : ts ≠ [] := by
  cases h <;> simp

theorem LastAt.lt_sizeAll (h : LastAt depth ts id) : id < sizeAll ts := by
  induction h with
  | here ts kind own below | inside ts kind own h ih =>
    rw [sizeAll_concat_branch]
    omega

/-- Growth at a depth keeps the containers above. -/
theorem LastAt.plantAt (h : LastAt depth ts id) {deeper : Nat} (hlt : depth < deeper) (n : Node) :
    LastAt depth (plantAt n deeper ts) id := by
  induction h generalizing deeper with
  | here ts kind own below =>
    obtain ⟨deeper, rfl⟩ := Nat.exists_eq_succ_of_ne_zero (Nat.ne_of_gt hlt)
    rw [plantAt_concat_branch]
    exact .here ..
  | inside ts kind own h ih =>
    obtain ⟨deeper, rfl⟩ := Nat.exists_eq_succ_of_ne_zero (Nat.ne_zero_of_lt hlt)
    rw [plantAt_concat_branch]
    exact .inside ts kind own (ih (Nat.lt_of_succ_lt_succ hlt))

/-- A new container has the next number. -/
theorem lastAt_plantAt_zero (ts : List NodeTree) (kind : Container) (own : List Node) :
    LastAt 0 (NodeTree.plantAt (.container kind own) 0 ts) (sizeAll ts) := .here ts kind own []

theorem LastAt.planted (h : LastAt depth ts id) (kind : Container) (own : List Node) :
    LastAt (depth + 1) (NodeTree.plantAt (.container kind own) (depth + 1) ts) (sizeAll ts) := by
  induction h with
  | here ts kind' own' below =>
    rw [plantAt_concat_branch, sizeAll_concat_branch]
    exact .inside ts kind' own' (lastAt_plantAt_zero below kind own)
  | inside ts kind' own' h ih =>
    rw [plantAt_concat_branch, sizeAll_concat_branch]
    exact .inside ts kind' own' ih

/-! ## Links of the last containers -/

theorem LastAt.exists_inside {kind : Container} {own : List Node} {below : List NodeTree}
    (h : LastAt (depth + 1) (ts ++ [branch kind own below]) id) :
    ∃ k, LastAt depth below k ∧ id = sizeAll ts + 1 + k := by
  generalize heq : ts ++ [branch kind own below] = trees at h
  cases h with
  | inside ts' kind' own' h =>
    obtain ⟨rfl, hlast⟩ := List.append_inj' heq rfl
    obtain ⟨-, -, rfl⟩ := by simpa using hlast
    exact ⟨_, h, rfl⟩

theorem children_slotsAll_concat (start : Nat) (ts : List NodeTree) (t : NodeTree) (id : Nat) :
    Arena.children (slotsAll start (ts ++ [t])) (sizeAll ts + id) =
      Arena.children (slots (start + sizeAll ts) t) id := by
  rw [slotsAll_concat, ← length_slotsAll start ts, Arena.children_append_length]

theorem LastAt.getLast?_numbers (h : LastAt 0 ts id) (start : Nat) :
    (numbers start ts).getLast? = some (start + id) := by
  cases h with
  | here ts kind own below => rw [numbers_concat, List.getLast?_concat]

/-- **Last children.** The last container at a depth is the last child of the one above it. -/
theorem LastAt.getLast?_children (h : LastAt depth ts id) {child : Nat}
    (hchild : LastAt (depth + 1) ts child) (start : Nat) :
    (Arena.children (slotsAll start ts) id).getLast? = some (start + child) := by
  induction h generalizing start child with
  | here ts kind own below =>
    obtain ⟨k, hk, rfl⟩ := hchild.exists_inside
    refine (congrArg _ (children_slotsAll_concat start ts (branch kind own below) 0)).trans ?_
    refine (hk.getLast?_numbers (start + sizeAll ts + 1)).trans (congrArg some ?_)
    omega
  | @inside depth id below ts kind own h ih =>
    obtain ⟨k, hk, rfl⟩ := hchild.exists_inside
    rw [Nat.add_right_comm, Nat.add_assoc, children_slotsAll_concat]
    refine (ih hk (start + sizeAll ts + 1)).trans (congrArg some ?_)
    omega

/-! ## Growth -/

theorem numbers_plantAt_succ (h : LastAt depth ts id) (start deeper : Nat) (n : Node) :
    numbers start (plantAt n (deeper + 1) ts) = numbers start ts := by
  cases h with
  | here | inside => rw [plantAt_concat_branch, numbers_concat, numbers_concat]

theorem append_slotsAll_concat (start : Nat) (ts : List NodeTree) (t : NodeTree) (id child : Nat) :
    Arena.append (slotsAll start (ts ++ [t])) (sizeAll ts + id) child =
      slotsAll start ts ++ Arena.append (slots (start + sizeAll ts) t) id child := by
  rw [slotsAll_concat, ← length_slotsAll start ts, Arena.append_append]

theorem slotsAll_plantAt_succ (h : LastAt depth ts id) (start : Nat) (n : Node) :
    slotsAll start (plantAt n (depth + 1) ts) =
      Arena.append (slotsAll start ts) id (start + sizeAll ts) ++ [⟨some n, []⟩] := by
  induction h generalizing start with
  | here ts kind own below =>
    have happend := append_slotsAll_concat start ts (branch kind own below) 0
      (start + sizeAll (ts ++ [branch kind own below]))
    rw [Nat.add_zero] at happend
    rw [plantAt_concat_branch, slotsAll_concat, happend, List.append_assoc, plantAt, slots, slots,
      numbers_concat, slotsAll_concat, slots_seed, Arena.append_cons_zero, sizeAll_concat_branch,
      ← Nat.add_assoc, ← Nat.add_assoc]
    rfl
  | @inside depth id below ts kind own h ih =>
    have hnumbers := numbers_plantAt_succ h (start + sizeAll ts + 1) depth n
    rw [plantAt_concat_branch, slotsAll_concat, Nat.add_assoc, append_slotsAll_concat,
      List.append_assoc, slots, slots, hnumbers, ih, Nat.add_comm 1, sizeAll_concat_branch,
      ← Nat.add_assoc, ← Nat.add_assoc]
    rfl

/-- **Growth below a container.** A node with the next number that is linked below the last container
at a depth. -/
theorem slotsAll_plantAt (h : LastAt depth ts id) (n : Node) :
    slotsAll 0 (plantAt n (depth + 1) ts) =
      Arena.append (Arena.alloc (slotsAll 0 ts) n) id (slotsAll 0 ts).length := by
  have hid : id < (slotsAll 0 ts).length := by
    rw [length_slotsAll]
    exact h.lt_sizeAll
  rw [Arena.append_alloc hid, slotsAll_plantAt_succ h, length_slotsAll, Nat.zero_add]

theorem slotsAll_plantAt_zero (ts : List NodeTree) (n : Node) :
    slotsAll 0 (plantAt n 0 ts) = Arena.alloc (slotsAll 0 ts) n := by
  rw [plantAt, slotsAll_concat, slots_seed]
  rfl

theorem toNodes_plantAt_zero (ts : List NodeTree) (n : Node) :
    toNodes (plantAt n 0 ts) = toNodes ts ++ [n] := by
  rw [plantAt, toNodes_concat, toNode_seed]

/-- **Growth of the nodes.** As nodes, the trees grow in the same place. -/
theorem toNodes_plantAt (h : LastAt depth ts id) (n : Node) :
    toNodes (plantAt n (depth + 1) ts) = Node.addLast n (depth + 1) (toNodes ts) := by
  induction h with
  | here ts kind own below =>
    rw [plantAt_concat_branch, toNodes_concat, toNodes_concat, toNode, toNode,
      Node.addLast_concat_container, toNodes_plantAt_zero, Node.addLast, List.append_assoc]
  | @inside depth id below ts kind own h ih =>
    have hne : toNodes below ≠ [] := toNodes_eq_nil_iff.not.2 h.ne_nil
    rw [plantAt_concat_branch, toNodes_concat, toNodes_concat, toNode, toNode,
      Node.addLast_concat_container, ih, Node.addLast_append n own (.inr hne)]

end NodeTree

end TicketMarkup
