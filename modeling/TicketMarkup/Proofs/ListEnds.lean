import TicketMarkup.Proofs.ListNesting
import TicketMarkup.Proofs.SourceLines

/-!
# Where lists end

`listDepth_after_eq_zero_iff`: no list is open behind a line that is neither blank nor an item,
unless the line is passed over as a separator inside a list. Where no list is open, the items of the
later lines have nothing in common with those before: their runs are later ones, they stand in other
blocks of the document, and the first of them has depth 1.

1. A reading that is neither blank nor an item leaves no list open, or it is a separator and changes
   nothing (`Context.listDepth_step`).
2. The events up to a line, with what is open behind it closed, are complete blocks
   (`Context.completes_eventsBefore`), so every run among them has its end there
   (`Complete.run_lt`). Behind it items begin at depth 1 (`Context.Completes.depth_of_mem_head?`).
3. An item stands in the same block as an item of depth 1 of its run (`Grown.exists_outermost`), and
   items that share a list are of one run (`Grown.run_eq_of_list_eq`).
-/

namespace TicketMarkup

/-! ## The depth behind a line -/

namespace Context

variable {c : Context} {line : Text} {behind : Option Text}

/-- A reading that is neither blank nor an item closes the open list; a separator alone does not. -/
theorem listDepth_step {r : Reading} (hfenced : ∀ text, r = .fencedCode text → c = fenced)
    (hblank : r ≠ .blank) (hitem : ∀ indent ordered text, r ≠ .item indent ordered text) :
    (c.step r).2.listDepth = if r = .separator then c.listDepth else 0 := by
  cases r with
  | fencedCode text =>
    obtain rfl := hfenced text rfl
    rfl
  | separator =>
    rw [step, if_pos rfl]
    split_ifs with hc
    · rcases hc with rfl | rfl <;> rfl
    · rfl
  | blank => exact absurd rfl hblank
  | item indent ordered text => exact absurd rfl (hitem indent ordered text)
  | _ => rfl

/-- An open list has an open item, so its depth is positive. -/
theorem step_ne_list_zero (hc : c ≠ list 0) (r : Reading) : (c.step r).2 ≠ list 0 := by
  cases r with
  | fencedCode text => exact hc
  | separator =>
    rw [step]
    split_ifs
    · simp
    · exact hc
  | blank =>
    rw [step]
    split_ifs
    · exact hc
    · simp
  | item indent ordered text =>
    have hpos := (c.deepens_itemDepth indent).1
    show list (c.itemDepth indent) ≠ list 0
    intro h
    rw [list.inj h] at hpos
    exact absurd hpos (Nat.not_succ_le_zero 0)
  | _ => simp [step]

theorem after_ne_list_zero (hc : c ≠ list 0) (lines : List Text) : c.after lines ≠ list 0 := by
  induction lines generalizing c with
  | nil => exact hc
  | cons line rest ih => exact ih (step_ne_list_zero hc _)

theorem listDepth_eq_zero_iff (hc : c ≠ list 0) : c.listDepth = 0 ↔ ¬c.inList := by
  cases c with
  | list depth =>
    have hdepth : depth ≠ 0 := fun h => hc (congrArg list h)
    simp [inList, listDepth, hdepth]
  | _ => simp [inList, listDepth]

/-- Behind a line that is neither blank nor an item a list is open only if it was before, and the
line is passed over as a separator. -/
theorem listDepth_next_eq_zero_iff (hc : c ≠ list 0) (hblank : ¬line.isBlank)
    (hitem : ∀ indent ordered text, c.read line behind ≠ .item indent ordered text) :
    (c.next line).listDepth = 0 ↔ ¬(c.inList ∧ c.SkipsSeparator line) := by
  have hstep := listDepth_step (fun _ => eq_fenced_of_read) (fun h => hblank (read_eq_blank_iff.1 h).2)
    hitem
  rw [c.step_read_snd] at hstep
  rw [hstep, ← @read_eq_separator_iff c line behind]
  split_ifs with hsep
  · rw [listDepth_eq_zero_iff hc]
    simp [hsep]
  · simp [hsep]

end Context

/-! ## Runs that have ended -/

theorem Event.itemsFrom_append (run : Nat) (front back : List Event) :
    itemsFrom run (front ++ back) =
      itemsFrom run front ++ itemsFrom (run + front.count .listEnd) back := by
  induction front generalizing run with
  | nil => rfl
  | cons e front ih =>
    cases e <;> simp [itemsFrom, ih, Nat.add_assoc, Nat.add_comm 1]

theorem Event.le_of_mem_itemsFrom {run : Nat} {events : List Event} :
    ∀ x ∈ itemsFrom run events, run ≤ x.1 := by
  induction events generalizing run with
  | nil => simp [itemsFrom]
  | cons e events ih =>
    cases e with
    | listItem item => exact List.forall_mem_cons.2 ⟨Nat.le_refl run, ih⟩
    | listEnd => exact fun x hx => Nat.le_of_succ_le (ih x hx)
    | _ => exact ih

theorem count_listEnd_list (r : ListRun) : (Block.list r).events.count .listEnd = 1 := by
  have hlines : (r.rest.map ListRun.lineEvent).count .listEnd = 0 := by
    rw [List.count_eq_zero, List.mem_map]
    rintro ⟨line, -, hline⟩
    exact lineEvent_ne_listEnd line hline
  rw [Block.events, List.count_cons_of_ne (by simp), List.count_append, hlines]
  rfl

variable {events tail : List Event}

/-- Every run of complete blocks has ended behind them. -/
theorem Complete.run_lt (h : Complete events) (run : Nat) :
    ∀ x ∈ Event.itemsFrom run events, x.1 < run + events.count .listEnd := by
  obtain ⟨blocks, rfl⟩ := h
  induction blocks generalizing run with
  | nil => simp [Event.itemsFrom]
  | cons b rest ih =>
    rw [List.flatMap_cons, List.count_append]
    by_cases hb : ∃ r, b = .list r
    · obtain ⟨r, rfl⟩ := hb
      rw [itemsFrom_listRun_append, count_listEnd_list]
      refine List.forall_mem_append.2 ⟨?_, ?_⟩
      · intro x hx
        obtain ⟨item, -, rfl⟩ := List.mem_map.1 hx
        show run < _
        omega
      · intro x hx
        have := ih (run + 1) x hx
        omega
    · have hb : ∀ r, b ≠ .list r := fun r hr => hb ⟨r, hr⟩
      rw [itemsFrom_events_append hb]
      intro x hx
      have := ih run x hx
      omega

/-- The same of a beginning of complete blocks, if what is left out has neither items nor ends of
lists. -/
theorem run_lt_of_complete_append (h : Complete (events ++ tail))
    (htail : ∀ e ∈ tail, e ≠ .listEnd ∧ ∀ item, e ≠ .listItem item) (run : Nat) :
    ∀ x ∈ Event.itemsFrom run events, x.1 < run + events.count .listEnd := by
  have hcount : tail.count .listEnd = 0 := List.count_eq_zero.2 fun hmem => (htail _ hmem).1 rfl
  intro x hx
  have hlt := h.run_lt run x (by
    rw [Event.itemsFrom_append]
    exact List.mem_append_left _ hx)
  rwa [List.count_append, hcount] at hlt

/-- The items of complete blocks begin at depth 1. -/
theorem Complete.depth_of_mem_head? (h : Complete events) (run : Nat) :
    ∀ x ∈ (Event.itemsFrom run events).head?, x.2.depth = 1 := by
  obtain ⟨blocks, rfl⟩ := h
  induction blocks with
  | nil => simp [Event.itemsFrom]
  | cons b rest ih =>
    rw [List.flatMap_cons]
    by_cases hb : ∃ r, b = .list r
    · obtain ⟨r, rfl⟩ := hb
      rw [itemsFrom_listRun_append]
      rintro x hx
      obtain rfl : (run, r.first) = x := Option.some.inj hx
      exact r.depth_first
    · rw [itemsFrom_events_append fun r hr => hb ⟨r, hr⟩]
      exact ih

namespace Context

variable {c : Context}

/-- Outside lists items begin at depth 1. -/
theorem Completes.depth_of_mem_head? (h : c.Completes events) (hc : ¬c.inList) (run : Nat) :
    ∀ x ∈ (Event.itemsFrom run events).head?, x.2.depth = 1 := by
  have hskip {front rest : List Event} {last : Event} (hrest : Complete rest)
      (hfront : ∀ e ∈ front ++ [last], e ≠ .listEnd ∧ ∀ item, e ≠ .listItem item) :
      ∀ x ∈ (Event.itemsFrom run (front ++ last :: rest)).head?, x.2.depth = 1 := by
    rw [List.append_cons, itemsFrom_append_of_skipped hfront]
    exact hrest.depth_of_mem_head? run
  cases c with
  | idle => exact Complete.depth_of_mem_head? h run
  | list depth => exact absurd rfl hc
  | fenced | indented | quoted | table =>
    obtain ⟨lines, rest, hrest, rfl⟩ := h
    exact hskip hrest (by simp [or_imp, forall_and])

/-- Only a list has items or an end of its own. -/
theorem closing_skipped (hc : ¬c.inList) :
    ∀ e ∈ c.closing, e ≠ .listEnd ∧ ∀ item, e ≠ .listItem item := by
  cases c with
  | list depth => exact absurd rfl hc
  | _ => simp [closing]

/-- What completes the context behind lines completes that before them, with the events of the lines
in front. -/
theorem completes_eventsBefore (c : Context) (behind : Option Text) (lines : List Text)
    (h : (c.after lines).Completes events) : c.Completes (c.eventsBefore behind lines ++ events) := by
  induction lines generalizing c with
  | nil => exact h
  | cons line rest ih =>
    rw [eventsBefore, List.append_assoc]
    apply completes_step
    rw [c.step_read_snd]
    exact ih (c.next line) h

end Context

/-! ## The events up to a line -/

/-- The events whose line has at most the given number. -/
def eventsUpTo (number : Nat) (events : List NumberedEvent) : List Event :=
  (events.filter (·.line ≤ number)).map NumberedEvent.event

theorem eventsUpTo_append (number : Nat) (front back : List NumberedEvent) :
    eventsUpTo number (front ++ back) = eventsUpTo number front ++ eventsUpTo number back := by
  simp [eventsUpTo]

/-- The events up to a line are those of the lines so far. Up to the last line they are all
events. -/
theorem eventsUpTo_classifyFrom (c : Context) (count : Nat) {lines : List Text} {i : Nat}
    (h : i ≤ lines.length) :
    eventsUpTo (count + i) (classifyFrom c count lines) =
      c.eventsBefore lines[i]? (lines.take i) ++
        if i = lines.length then (c.after lines).closing else [] := by
  induction lines generalizing c count i with
  | nil =>
    obtain rfl := Nat.le_zero.1 h
    simp [classifyFrom, eventsUpTo, Context.eventsBefore, Context.after, List.filter_map,
      Function.comp_def]
  | cons line rest ih =>
    cases i with
    | zero =>
      have hnone : (classifyFrom c count (line :: rest)).filter (·.line ≤ count) = [] := by
        rw [List.filter_eq_nil_iff]
        intro e he
        obtain ⟨-, hlow | ⟨hnil, -⟩⟩ := line_of_mem_classifyFrom he
        · simpa using hlow
        · simp at hnil
      rw [Nat.add_zero, eventsUpTo, hnone]
      rfl
    | succ i =>
      have hhead : (rest.take i).head?.or rest[i]? = rest.head? := by
        cases i <;> cases rest <;> simp
      have hfront : eventsUpTo (count + (i + 1))
          ((c.step (c.read line rest.head?)).1.map (⟨count + 1, ·⟩)) =
            (c.step (c.read line rest.head?)).1 := by
        simp [eventsUpTo, List.filter_map, Function.comp_def]
      have hrest := ih (c.next line) (count + 1) (Nat.le_of_succ_le_succ h)
      rw [show count + 1 + i = count + (i + 1) by omega] at hrest
      rw [classifyFrom_cons, eventsUpTo_append, hfront, hrest]
      simp [Context.eventsBefore, Context.after, hhead]

/-! ## Items in different blocks -/

namespace PlacedItem

variable {placed : List PlacedItem} {a b p : PlacedItem}

/-- Items that share a list are of one run. -/
theorem Grown.run_eq_of_list_eq (h : Grown placed)
    (hsorted : (placed.map place).Pairwise (·.address < ·.address)) (ha : a ∈ placed)
    (hb : b ∈ placed) (hlist : a.place.list = b.place.list) : a.run = b.run := by
  obtain ⟨before, after, heq⟩ := List.append_of_mem ha
  rw [heq, List.mem_append, List.mem_cons] at hb
  rcases hb with hb | rfl | hb
  · obtain ⟨earlier, between, rfl⟩ := List.append_of_mem hb
    exact ((h.list_eq_iff hsorted heq).1 hlist.symm).run.symm
  · rfl
  · obtain ⟨between, later, rfl⟩ := List.append_of_mem hb
    have hsplit : placed = before ++ a :: between ++ b :: later := by
      rw [heq, List.append_assoc, List.cons_append]
    exact ((h.list_eq_iff hsorted hsplit).1 hlist).run

/-- The block of the document in which an item stands is the list of an item of its run. -/
theorem Grown.exists_outermost (h : Grown placed) (hp : p ∈ placed) :
    ∃ a ∈ placed, a.run = p.run ∧ a.place.list = p.place.address.take 1 := by
  induction hn : p.item.depth using Nat.strong_induction_on generalizing p with
  | _ n ih =>
    obtain ⟨before, after, heq⟩ := List.append_of_mem hp
    have hfits : Fits before p := h heq
    have hlength := hfits.length
    obtain ⟨index, hindex⟩ := address_eq_of_length hlength
    by_cases hdepth : 1 < p.item.depth
    · -- The list stands in an item that is less deep, so in the same block as that item.
      obtain ⟨earlier, a, between, hbefore, hparent, hdrop⟩ := hfits.parent hdepth
      have ha : a ∈ placed := by
        rw [heq, hbefore]
        simp
      have hless : a.item.depth < n := by
        have := hparent.depth
        omega
      obtain ⟨top, htop, hrun, hlist⟩ := ih a.item.depth hless ha rfl
      refine ⟨top, htop, hrun.trans hparent.run, ?_⟩
      have hmin : min 1 (p.place.list.length - 1) = 1 := by omega
      rw [hlist, ← hdrop, hindex, List.dropLast_eq_take, List.take_take, hmin,
        List.take_append_of_le_length (by omega)]
    · refine ⟨p, hp, rfl, ?_⟩
      rw [hindex, List.take_append_of_le_length (by omega), List.take_of_length_le (by omega)]

/-- Items of different runs stand in different blocks. -/
theorem Grown.head?_address_ne (h : Grown placed)
    (hsorted : (placed.map place).Pairwise (·.address < ·.address)) (ha : a ∈ placed)
    (hb : b ∈ placed) (hrun : a.run ≠ b.run) :
    a.place.address.head? ≠ b.place.address.head? := by
  intro hhead
  obtain ⟨topA, htopA, hrunA, hlistA⟩ := h.exists_outermost ha
  obtain ⟨topB, htopB, hrunB, hlistB⟩ := h.exists_outermost hb
  rw [List.take_one, hhead, ← List.take_one, ← hlistB] at hlistA
  exact hrun (hrunA.symm.trans ((h.run_eq_of_list_eq hsorted htopA htopB hlistA).trans hrunB))

end PlacedItem

/-- The items up to a line and those behind it have nothing in common: the runs of the latter are
later ones, they stand in other blocks of the document, and the first of them has depth 1 in a list
that is a block. -/
structure ItemsPart (markdown : Text) (number : Nat) (upTo behind : List PlacedItem) : Prop where
  sources : (upTo ++ behind).map PlacedItem.source =
    Event.itemsFrom 0 ((classify markdown).map NumberedEvent.event)
  places : (upTo ++ behind).map PlacedItem.place = (Document.ofMarkdown markdown).itemPlaces
  sources_upTo : upTo.map PlacedItem.source =
    Event.itemsFrom 0 (eventsUpTo number (classify markdown))
  first : ∀ b ∈ behind.head?, b.item.depth = 1 ∧ b.place.list.length = 1
  apart : ∀ a ∈ upTo, ∀ b ∈ behind,
    a.run < b.run ∧ a.place.address.head? ≠ b.place.address.head?

section

variable {markdown : Text} {i : Nat}

/-- Where no list is open, the runs so far have ended and the next one begins at depth 1. -/
theorem exists_events_behind (hi : i ≤ markdown.lines.length)
    (hlist : ¬(Context.idle.after (markdown.lines.take i)).inList) :
    ∃ later, (classify markdown).map NumberedEvent.event =
        eventsUpTo i (classify markdown) ++ later ∧
      (∀ x ∈ Event.itemsFrom 0 (eventsUpTo i (classify markdown)),
        x.1 < 0 + (eventsUpTo i (classify markdown)).count .listEnd) ∧
      ∀ run, ∀ x ∈ (Event.itemsFrom run later).head?, x.2.depth = 1 := by
  generalize hc : Context.idle.after (markdown.lines.take i) = c at hlist
  have hupTo := eventsUpTo_classifyFrom .idle 0 hi
  rw [Nat.zero_add, ← classify] at hupTo
  have hcomplete : Complete
      (Context.idle.eventsBefore markdown.lines[i]? (markdown.lines.take i) ++ c.closing) := by
    refine Context.completes_eventsBefore .idle _ _ ?_
    rw [hc]
    simpa using c.completes_closing_append complete_nil
  have hevents : (classify markdown).map NumberedEvent.event =
      Context.idle.events markdown.lines := events_classifyFrom .idle 0 markdown.lines
  by_cases hlast : i = markdown.lines.length
  · have hafter : Context.idle.after markdown.lines = c := by
      rw [← hc, hlast, List.take_length]
    rw [if_pos hlast, hafter] at hupTo
    refine ⟨[], ?_, ?_, fun run => by simp [Event.itemsFrom]⟩
    · rw [hupTo, hevents, hlast, List.take_length, List.getElem?_length, List.append_nil,
        Context.events_eq_eventsBefore, hafter]
    · rw [hupTo]
      exact hcomplete.run_lt 0
  · rw [if_neg hlast, List.append_nil] at hupTo
    refine ⟨c.events (markdown.lines.drop i), ?_, ?_, fun run => ?_⟩
    · rw [hupTo, hevents, ← hc, ← List.head?_drop, ← Context.events_append,
        List.take_append_drop]
    · rw [hupTo]
      exact run_lt_of_complete_append hcomplete (Context.closing_skipped hlist) 0
    · have hbehind := completes_classifyFrom c 0 (markdown.lines.drop i)
      rw [events_classifyFrom] at hbehind
      exact hbehind.depth_of_mem_head? hlist run

/-- Where no list is open, the items so far and those behind have nothing in common. -/
theorem exists_itemsPart (hi : i ≤ markdown.lines.length)
    (hlist : ¬(Context.idle.after (markdown.lines.take i)).inList) :
    ∃ upTo behind, ItemsPart markdown i upTo behind := by
  obtain ⟨later, hevents, hended, hfirst⟩ := exists_events_behind hi hlist
  obtain ⟨placed, hsources, hplaces, hgrown, hsorted⟩ :=
    exists_grown_ofMarkdown markdown
  have hsplit := hsources
  rw [hevents, Event.itemsFrom_append] at hsplit
  obtain ⟨upTo, behind, rfl, hupTo, hbehind⟩ := List.map_eq_append_iff.1 hsplit
  refine ⟨upTo, behind, hsources, hplaces, hupTo, ?_, ?_⟩
  · intro b hb
    have hsource : b.source ∈ (behind.map PlacedItem.source).head? := by
      rw [List.head?_map]
      exact Option.mem_map_of_mem _ hb
    rw [hbehind] at hsource
    have hdepth : b.item.depth = 1 := hfirst _ b.source hsource
    obtain ⟨before, after, heq⟩ :=
      List.append_of_mem (List.mem_append_right upTo (List.mem_of_mem_head? hb))
    have hlength := (hgrown heq).length
    exact ⟨hdepth, by omega⟩
  · intro a ha b hb
    have hrunA : a.run < _ := hended a.source (hupTo ▸ List.mem_map_of_mem ha)
    have hrunB : _ ≤ b.run :=
      Event.le_of_mem_itemsFrom b.source (hbehind ▸ List.mem_map_of_mem hb)
    have hlt : a.run < b.run := Nat.lt_of_lt_of_le hrunA hrunB
    exact ⟨hlt, hgrown.head?_address_ne hsorted (List.mem_append_left _ ha)
      (List.mem_append_right _ hb) (Nat.ne_of_lt hlt)⟩

/-- **Ends of lists.** Behind a line that is neither blank nor has an item no list is open, unless a
list is open before it and the line is passed over as a separator row. Where none is open, the items
of later lines are in later runs and in other blocks of the document than those before, and the
first of them has depth 1. -/
theorem listDepth_after_eq_zero_iff (hi : i < markdown.lines.length)
    (hblank : ¬markdown.lines[i].isBlank)
    (hitem : ∀ item, .listItem item ∉ eventsOn (i + 1) (classify markdown)) :
    ((Context.idle.after (markdown.lines.take (i + 1))).listDepth = 0 ↔
      ¬((Context.idle.after (markdown.lines.take i)).inList ∧
        (Context.idle.after (markdown.lines.take i)).SkipsSeparator markdown.lines[i])) ∧
    ((Context.idle.after (markdown.lines.take (i + 1))).listDepth = 0 →
      ∃ upTo behind, ItemsPart markdown (i + 1) upTo behind) := by
  have hzero (lines : List Text) : Context.idle.after lines ≠ .list 0 :=
    Context.after_ne_list_zero (by simp) lines
  constructor
  · have hread : ∀ indent ordered text,
        (Context.idle.after (markdown.lines.take i)).read markdown.lines[i] markdown.lines[i + 1]? ≠
          .item indent ordered text := by
      intro indent ordered text hread
      have hevents := eventsOn_classifyFrom .idle 0 hi
      rw [Nat.zero_add, hread] at hevents
      refine hitem ((Context.idle.after (markdown.lines.take i)).item indent ordered text) ?_
      rw [classify, hevents]
      exact List.mem_append_left _ (List.mem_append_right _ (List.mem_singleton_self _))
    rw [Context.idle.after_take_succ hi]
    exact Context.listDepth_next_eq_zero_iff (hzero _) hblank hread
  · intro hdepth
    exact exists_itemsPart hi ((Context.listDepth_eq_zero_iff (hzero _)).1 hdepth)

end

/-- A paragraph between the items of two lists; without it the second item would have depth 2. -/
theorem listDepth_after_eq_zero_iff_paragraph :
    let markdown : Text := "- a\n  - b\ntext\n  - c".toList
    (∀ item, .listItem item ∉ eventsOn 3 (classify markdown)) ∧
      (Context.idle.after (markdown.lines.take 2)).listDepth = 2 ∧
      (Context.idle.after (markdown.lines.take 3)).listDepth = 0 ∧
      ∃ upTo behind, ItemsPart markdown 3 upTo behind := by
  intro markdown
  have hevents : eventsOn 3 (classify markdown) =
      [.listEnd, .leaf (.paragraph "text".toList)] := by decide
  have hitem : ∀ item, .listItem item ∉ eventsOn 3 (classify markdown) := by
    rw [hevents]
    simp
  have hdepth : (Context.idle.after (markdown.lines.take 3)).listDepth = 0 := by decide
  exact ⟨hitem, by decide, hdepth,
    (@listDepth_after_eq_zero_iff markdown 2 (by decide) (by decide) hitem).2 hdepth⟩

/-- A separator row leaves the list in front of it open, and the item behind it goes on with the
list. -/
theorem listDepth_after_separator :
    let markdown : Text := "- a\n|---|\n- b".toList
    markdown.lines[1]? = some "|---|".toList ∧ ¬Text.isBlank "|---|".toList ∧
      (∀ item, .listItem item ∉ eventsOn 2 (classify markdown)) ∧
      (Context.idle.after (markdown.lines.take 2)).listDepth ≠ 0 ∧
      Event.itemsFrom 0 ((classify markdown).map NumberedEvent.event) =
        [(0, ⟨1, false, ['a'], none⟩), (0, ⟨1, false, ['b'], none⟩)] := by
  intro markdown
  have hevents : eventsOn 2 (classify markdown) = [] := by decide
  refine ⟨by decide, by decide, ?_, by decide, by decide⟩
  rw [hevents]
  simp

end TicketMarkup
