import TicketMarkup.Document.Build
import Mathlib.Tactic.SplitIfs

/-!
# Open lists

What an item does to the open lists (`OpenList.addToStack_cases`): first the lists deeper than the
item are closed, then the item starts a list inside those that are left, goes on with the innermost
one, or takes its place with a new one.
-/

namespace TicketMarkup.OpenList

/-- Closes the innermost list: it goes into the item around it or, if it is the outermost, it is
finished. -/
def close (l : OpenList) : List OpenList → List Node × List OpenList
  | [] => ([l.node], [])
  | outer :: rest => ([], outer.nest l.node :: rest)

theorem length_close (l : OpenList) (below : List OpenList) :
    (l.close below).2.length = below.length := by
  cases below <;> rfl

theorem closeTo_of_length_le {depth : Nat} {stack : List OpenList} (h : stack.length ≤ depth) :
    closeTo depth stack = stack := by
  match stack with
  | [] | [_] => rw [closeTo]; simp
  | inner :: outer :: rest =>
    rw [List.length_cons, List.length_cons] at h
    rw [closeTo, if_neg (by omega)]

theorem length_closeTo {depth : Nat} {stack : List OpenList} (hone : 1 ≤ depth)
    (h : depth ≤ stack.length) : (closeTo depth stack).length = depth := by
  fun_induction closeTo depth stack with
  | case1 inner outer rest hdepth ih => exact ih hdepth
  | case2 inner outer rest hdepth =>
    rw [List.length_cons, List.length_cons] at h ⊢
    omega
  | case3 stack hstack =>
    match stack with
    | [] | [_] =>
      simp only [List.length_cons, List.length_nil] at h ⊢
      omega
    | inner :: outer :: rest => exact absurd rfl (hstack inner outer rest)

theorem closeAll_nil : closeAll [] = [] := by
  rw [closeAll, closeTo_of_length_le (Nat.zero_le 1), List.map_nil]

theorem closeAll_singleton (l : OpenList) : closeAll [l] = [l.node] := by
  rw [closeAll, closeTo_of_length_le (Nat.le_refl 1), List.map_singleton]

theorem closeAll_cons_cons (inner outer : OpenList) (rest : List OpenList) :
    closeAll (inner :: outer :: rest) = closeAll (outer.nest inner.node :: rest) := by
  rw [closeAll, closeTo, if_pos (Nat.le_add_left 1 rest.length), closeAll]

theorem closeAll_closeTo (depth : Nat) (stack : List OpenList) :
    closeAll (closeTo depth stack) = closeAll stack := by
  fun_induction closeTo depth stack with
  | case1 inner outer rest hdepth ih => rw [ih, closeAll_cons_cons]
  | case2 | case3 => rfl

/-- What an item does: it starts a list inside the lists that are left open, or it finds the list
of its depth, which it goes on with or ends. -/
theorem addToStack_cases (item : ListItem) (stack : List OpenList) :
    ((closeTo item.depth stack = [] ∨ (closeTo item.depth stack).length < item.depth) ∧
        addToStack item stack = ([], start item :: closeTo item.depth stack)) ∨
      ∃ l below, closeTo item.depth stack = l :: below ∧ item.depth ≤ below.length + 1 ∧
        addToStack item stack =
          if l.ordered = item.ordered then ([], l.addItem item :: below)
          else ((l.close below).1, start item :: (l.close below).2) := by
  unfold addToStack
  cases closeTo item.depth stack with
  | nil => exact .inl ⟨.inl rfl, rfl⟩
  | cons l below =>
    by_cases hdepth : below.length + 1 < item.depth
    · exact .inl ⟨.inr hdepth, if_pos hdepth⟩
    · refine .inr ⟨l, below, rfl, Nat.le_of_not_lt hdepth, (if_neg hdepth).trans ?_⟩
      cases below <;> rfl

/-- An item one level deeper than the open lists starts a list inside them. -/
theorem addToStack_of_depth_eq {item : ListItem} {stack : List OpenList}
    (h : item.depth = stack.length + 1) : addToStack item stack = ([], start item :: stack) := by
  have hclose : closeTo item.depth stack = stack := closeTo_of_length_le (by omega)
  rcases addToStack_cases item stack with ⟨-, hstep⟩ | ⟨l, below, heq, hle, -⟩
  · rw [hstep, hclose]
  · rw [hclose] at heq
    rw [h, heq, List.length_cons] at hle
    omega

/-- Any other item goes on with the list of its depth, or ends it and starts one in its place. -/
theorem addToStack_of_depth_le {item : ListItem} {stack : List OpenList} (hone : 1 ≤ item.depth)
    (h : item.depth ≤ stack.length) :
    ∃ l below, closeTo item.depth stack = l :: below ∧ item.depth = below.length + 1 ∧
      addToStack item stack =
        if l.ordered = item.ordered then ([], l.addItem item :: below)
        else ((l.close below).1, start item :: (l.close below).2) := by
  have hlength := length_closeTo hone h
  rcases addToStack_cases item stack with ⟨hnil | hlt, -⟩ | ⟨l, below, heq, -, hstep⟩
  · rw [hnil, List.length_nil] at hlength
    omega
  · omega
  · rw [heq, List.length_cons] at hlength
    exact ⟨l, below, heq, hlength.symm, hstep⟩

end TicketMarkup.OpenList
