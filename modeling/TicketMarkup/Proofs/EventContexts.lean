import TicketMarkup.Proofs.BlockGrammar

/-!
# Contexts along events

The construct that is open behind some events of a text is known from the events alone.
`Context.Takes` says which events can come next in a context, and what is open behind them; the events
of complete blocks can come from the start (`Context.exists_takes`). So what every such event keeps
holds behind any first part of the events (`Complete.exists_context`).
-/

namespace TicketMarkup

namespace Context

/-- An event can come next in a context, and another context is behind it. Code is code here, be it
fenced or indented. -/
inductive Takes : Context → Event → Context → Prop
  | blank {c : Context} (h : c = idle ∨ c.inList) : Takes c .blank c
  | leaf (l : Leaf) : Takes idle (.leaf l) idle
  | listItem {c : Context} {item : ListItem} (h : c = idle ∨ c.inList)
      (hdepth : Deepens c.listDepth item.depth) : Takes c (.listItem item) (list item.depth)
  | listEnd (depth : Nat) : Takes (list depth) .listEnd idle
  | codeStart (language : Option Text) : Takes idle (.codeStart language) fenced
  | codeLine (text : Text) : Takes fenced (.codeLine text) fenced
  | codeEnd : Takes fenced .codeEnd idle
  | quoteStart : Takes idle .quoteStart quoted
  | quoteLine (text : Text) : Takes quoted (.quoteLine text) quoted
  | quoteEnd : Takes quoted .quoteEnd idle
  | tableStart : Takes idle .tableStart table
  | tableRow (row : TableRow) : Takes table (.tableRow row) table
  | tableEnd : Takes table .tableEnd idle

variable {e : Event} {rest : List Event}

/-- The first event of a block can come next where nothing is open. -/
theorem exists_takes_idle (h : Complete (e :: rest)) : ∃ c, idle.Takes e c ∧ c.Completes rest := by
  obtain ⟨blocks, hblocks⟩ := h
  cases blocks with
  | nil => simp at hblocks
  | cons b blocks =>
    have hrest : Complete (blocks.flatMap Block.events) := ⟨blocks, rfl⟩
    rw [List.flatMap_cons] at hblocks
    cases b with
    | blank =>
      obtain ⟨rfl, rfl⟩ := List.cons_eq_cons.1 hblocks
      exact ⟨idle, .blank (.inl rfl), hrest⟩
    | leaf l =>
      obtain ⟨rfl, rfl⟩ := List.cons_eq_cons.1 hblocks
      exact ⟨idle, .leaf l, hrest⟩
    | code language lines =>
      obtain ⟨rfl, rfl⟩ := List.cons_eq_cons.1 hblocks
      exact ⟨fenced, .codeStart language, lines, _, hrest, by simp⟩
    | quote first lines =>
      obtain ⟨rfl, rfl⟩ := List.cons_eq_cons.1 hblocks
      exact ⟨quoted, .quoteStart, first :: lines, _, hrest, by simp⟩
    | table first rows =>
      obtain ⟨rfl, rfl⟩ := List.cons_eq_cons.1 hblocks
      exact ⟨table, .tableStart, first :: rows, _, hrest, by simp⟩
    | list run =>
      obtain ⟨rfl, rfl⟩ := List.cons_eq_cons.1 hblocks
      have hfirst : Deepens idle.listDepth run.first.depth := by
        rw [Deepens, run.depth_first, maxListDepth]
        omega
      exact ⟨_, .listItem (.inl rfl) hfirst, run.rest, _, run.deepens, hrest, by simp⟩

/-- The first of some lines with their end behind them is a line or the end. -/
theorem cons_eq_map_append {α : Type} {f : α → Event} {last : Event} {lines : List α}
    {behind : List Event} (h : e :: rest = lines.map f ++ last :: behind) :
    (e = last ∧ rest = behind) ∨
      ∃ line lines', lines = line :: lines' ∧ e = f line ∧ rest = lines'.map f ++ last :: behind := by
  cases lines with
  | nil => exact .inl (List.cons_eq_cons.1 h)
  | cons line lines =>
    obtain ⟨he, hrest⟩ := List.cons_eq_cons.1 h
    exact .inr ⟨line, lines, rfl, he, hrest⟩

/-- The next of the events that complete a context can come in it. -/
theorem exists_takes {c : Context} (h : c.Completes (e :: rest)) (hc : c ≠ indented) :
    ∃ c', c.Takes e c' ∧ c'.Completes rest ∧ c' ≠ indented := by
  cases c with
  | indented => exact absurd rfl hc
  | idle =>
    obtain ⟨c', htakes, hrest⟩ := exists_takes_idle h
    exact ⟨c', htakes, hrest, by rintro rfl; cases htakes⟩
  | list depth =>
    obtain ⟨lines, behind, hchain, hbehind, heq⟩ := h
    rcases cons_eq_map_append heq with ⟨rfl, rfl⟩ | ⟨line, lines, rfl, rfl, rfl⟩
    · exact ⟨idle, .listEnd depth, hbehind, by simp⟩
    · cases line with
      | none => exact ⟨list depth, .blank (.inr rfl), ⟨lines, behind, hchain, hbehind, rfl⟩, by simp⟩
      | some item =>
        obtain ⟨hdepth, hchain⟩ := List.isChain_cons_cons.1 hchain
        exact ⟨list item.depth, .listItem (.inr rfl) hdepth, ⟨lines, behind, hchain, hbehind, rfl⟩,
          by simp⟩
  | fenced =>
    obtain ⟨lines, behind, hbehind, heq⟩ := h
    rcases cons_eq_map_append heq with ⟨rfl, rfl⟩ | ⟨line, lines, -, rfl, rfl⟩
    · exact ⟨idle, .codeEnd, hbehind, by simp⟩
    · exact ⟨fenced, .codeLine line, ⟨lines, behind, hbehind, rfl⟩, by simp⟩
  | quoted =>
    obtain ⟨lines, behind, hbehind, heq⟩ := h
    rcases cons_eq_map_append heq with ⟨rfl, rfl⟩ | ⟨line, lines, -, rfl, rfl⟩
    · exact ⟨idle, .quoteEnd, hbehind, by simp⟩
    · exact ⟨quoted, .quoteLine line, ⟨lines, behind, hbehind, rfl⟩, by simp⟩
  | table =>
    obtain ⟨rows, behind, hbehind, heq⟩ := h
    rcases cons_eq_map_append heq with ⟨rfl, rfl⟩ | ⟨row, rows, -, rfl, rfl⟩
    · exact ⟨idle, .tableEnd, hbehind, by simp⟩
    · exact ⟨table, .tableRow row, ⟨rows, behind, hbehind, rfl⟩, by simp⟩

end Context

/-- **Parts of complete blocks.** What holds at the start, and is kept by every event that can come
next, holds behind any number of events of complete blocks, and the event behind these can come
next. -/
theorem Complete.exists_context {events : List Event} (h : Complete events)
    {motive : List Event → Context → Prop} (start : motive [] .idle)
    (step : ∀ before c e c', motive before c → Context.Takes c e c' → motive (before ++ [e]) c')
    (n : Nat) :
    ∃ c, motive (events.take n) c ∧ ∀ e, events[n]? = some e → ∃ c', c.Takes e c' := by
  -- The events left complete the context, so the next of them can come in it.
  suffices hrun : ∃ c, motive (events.take n) c ∧ c.Completes (events.drop n) ∧ c ≠ .indented by
    obtain ⟨c, hmotive, hcompletes, hc⟩ := hrun
    refine ⟨c, hmotive, fun e he => ?_⟩
    obtain ⟨hn, rfl⟩ := List.getElem?_eq_some_iff.1 he
    rw [List.drop_eq_getElem_cons hn] at hcompletes
    obtain ⟨c', htakes, -⟩ := Context.exists_takes hcompletes hc
    exact ⟨c', htakes⟩
  induction n with
  | zero => exact ⟨.idle, start, h, by simp⟩
  | succ n ih =>
    obtain ⟨c, hmotive, hcompletes, hc⟩ := ih
    by_cases hn : n < events.length
    · rw [List.drop_eq_getElem_cons hn] at hcompletes
      obtain ⟨c', htakes, hrest, hc'⟩ := Context.exists_takes hcompletes hc
      refine ⟨c', ?_, hrest, hc'⟩
      rw [List.take_succ_eq_append_getElem hn]
      exact step _ c _ c' hmotive htakes
    · have hle : events.length ≤ n := Nat.le_of_not_lt hn
      rw [List.take_of_length_le hle] at hmotive
      rw [List.drop_of_length_le hle] at hcompletes
      refine ⟨c, ?_, ?_, hc⟩
      · rwa [List.take_of_length_le (Nat.le_succ_of_le hle)]
      · rwa [List.drop_of_length_le (Nat.le_succ_of_le hle)]

end TicketMarkup
