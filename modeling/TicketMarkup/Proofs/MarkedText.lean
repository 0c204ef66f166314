import TicketMarkup.Document.Inline
import Mathlib.Data.List.Chain

/-!
# Marked text

The nodes of runs show every character of the runs once, in order, under the marks of all runs
around it (`glyphs_ofRuns`).

1. `Run.glyphs` reads the characters with their marks off the tree: a run puts its mark in front of
   the marks that its inner characters have already.
2. The fragments of a run under some marks show its glyphs behind these marks
   (`glyphs_fragments`), and joining neighbours shows the same glyphs (`glyphs_consJoined`).
3. The joined nodes are normal: no text is empty and neighbouring texts differ in their marks. Normal
   nodes are put back together from their glyphs (`ofGlyphs_flatMap_glyphs`), so they are the only
   normal nodes that show them.
-/

namespace TicketMarkup

/-- What a reader of inline content sees, one at a time: a character with its marks, outermost
first, or a line break. -/
inductive Glyph
  | char (c : Char) (marks : List Mark)
  | lineBreak
  deriving Repr, DecidableEq

namespace Glyph

/-- A glyph that stands inside runs with the given marks. -/
def inside (marks : List Mark) : Glyph → Glyph
  | char c own => char c (marks ++ own)
  | lineBreak => lineBreak

theorem inside_inside (outer inner : List Mark) (g : Glyph) :
    (g.inside inner).inside outer = g.inside (outer ++ inner) := by
  cases g with
  | char c own => rw [inside, inside, inside, List.append_assoc]
  | lineBreak => rfl

theorem inside_nil (g : Glyph) : g.inside [] = g := by
  cases g <;> rfl

/-- The characters of a text under the same marks. -/
def ofText (t : Text) (marks : List Mark) : List Glyph := t.map (char · marks)

theorem ofText_map_inside (t : Text) (marks own : List Mark) :
    (ofText t own).map (inside marks) = ofText t (marks ++ own) := by
  unfold ofText
  rw [List.map_map]
  rfl

end Glyph

namespace Run

mutual

/-- The glyphs of a run in preorder. -/
def glyphs : Run → List Glyph
  | text t => Glyph.ofText t []
  | strong inner => (glyphsAll inner).map (Glyph.inside [.strong])
  | emphasis inner => (glyphsAll inner).map (Glyph.inside [.em])
  | strike inner => (glyphsAll inner).map (Glyph.inside [.strike])
  | code t => Glyph.ofText t [.code]
  | link r | image r =>
    Glyph.ofText (if r.label.isEmpty then r.target else r.label) [.link r.target r.title]
  | lineBreak => [.lineBreak]

/-- The glyphs of runs in preorder. -/
def glyphsAll : List Run → List Glyph
  | [] => []
  | run :: rest => glyphs run ++ glyphsAll rest

end

end Run

namespace Node

/-- The glyphs of a text node or a line break; other nodes are no inline content. -/
def glyphs : Node → List Glyph
  | text t marks => Glyph.ofText t marks
  | hardBreak => [.lineBreak]
  | _ => []

/-- Inline content in normal form: breaks and texts that are not empty, where neighbouring texts
differ in their marks. -/
structure Normal (nodes : List Node) : Prop where
  inline : ∀ n ∈ nodes, n = hardBreak ∨ ∃ t marks, n = text t marks ∧ t ≠ []
  apart : nodes.IsChain fun n n' =>
    ∀ t marks t' marks', n = text t marks → n' = text t' marks' → marks ≠ marks'

/-! ## Fragments -/

theorem shown_eq (r : Reference) : shown r = if r.label.isEmpty then r.target else r.label := by
  unfold shown
  cases r.label <;> rfl

mutual

/-- Under marks, the fragments of a run show its glyphs behind these marks. -/
theorem glyphs_fragments (marks : List Mark) : ∀ run : Run,
    (fragments marks run).flatMap glyphs = run.glyphs.map (Glyph.inside marks)
  | .text t | .code t => by
    rw [fragments, Run.glyphs, Glyph.ofText_map_inside]
    simp [glyphs]
  | .link r | .image r => by
    rw [fragments, Run.glyphs, Glyph.ofText_map_inside, shown_eq]
    simp [glyphs, linkMark]
  | .strong inner | .emphasis inner | .strike inner => by
    rw [fragments, Run.glyphs, glyphs_fragmentsAll _ inner, List.map_map]
    congr 1
    funext g
    exact (Glyph.inside_inside marks _ g).symm
  | .lineBreak => rfl

theorem glyphs_fragmentsAll (marks : List Mark) : ∀ runs : List Run,
    (fragmentsAll marks runs).flatMap glyphs = (Run.glyphsAll runs).map (Glyph.inside marks)
  | [] => rfl
  | run :: rest => by
    rw [fragmentsAll, Run.glyphsAll, List.flatMap_append, List.map_append,
      glyphs_fragments marks run, glyphs_fragmentsAll marks rest]

end

mutual

theorem inline_of_mem_fragments (marks : List Mark) : ∀ run : Run, ∀ n ∈ fragments marks run,
    n = hardBreak ∨ ∃ t marks', n = text t marks'
  | .text _ | .code _ | .link _ | .image _ =>
    List.forall_mem_singleton.2 (.inr ⟨_, _, rfl⟩)
  | .strong inner | .emphasis inner | .strike inner => inline_of_mem_fragmentsAll _ inner
  | .lineBreak => List.forall_mem_singleton.2 (.inl rfl)

theorem inline_of_mem_fragmentsAll (marks : List Mark) : ∀ runs : List Run,
    ∀ n ∈ fragmentsAll marks runs, n = hardBreak ∨ ∃ t marks', n = text t marks'
  | [] => fun _ h => absurd h List.not_mem_nil
  | run :: rest => List.forall_mem_append.2
      ⟨inline_of_mem_fragments marks run, inline_of_mem_fragmentsAll marks rest⟩

end

/-! ## Joining neighbours -/

theorem glyphs_consJoined (n : Node) (rest : List Node) :
    (consJoined n rest).flatMap glyphs = n.glyphs ++ rest.flatMap glyphs := by
  unfold consJoined
  split
  · rfl
  · next t marks u marks' more _ =>
    split
    · next h =>
      subst h
      simp [glyphs, Glyph.ofText]
    · rfl
  · rfl

theorem glyphs_foldr_consJoined (nodes : List Node) :
    (nodes.foldr consJoined []).flatMap glyphs = nodes.flatMap glyphs := by
  induction nodes with
  | nil => rfl
  | cons n rest ih => rw [List.foldr_cons, glyphs_consJoined, ih, List.flatMap_cons]

theorem normal_nil : Normal [] := ⟨fun _ h => absurd h List.not_mem_nil, List.isChain_nil⟩

/-- A node in front of normal ones, if it is no text or a text with marks of its own. -/
theorem Normal.cons {n : Node} {rest : List Node} (h : Normal rest)
    (hn : n = hardBreak ∨ ∃ t marks, n = text t marks ∧ t ≠ [])
    (hapart : ∀ t marks u marks', n = text t marks → rest.head? = some (text u marks') →
      marks ≠ marks') : Normal (n :: rest) := by
  refine ⟨List.forall_mem_cons.2 ⟨hn, h.inline⟩, List.isChain_cons.2 ⟨?_, h.apart⟩⟩
  rintro n' hn' t marks t' marks' rfl rfl
  exact hapart t marks t' marks' rfl hn'

/-- A text that is not empty stands apart from nodes that do not go on with its marks. -/
theorem consJoined_of_apart {t : Text} {marks : List Mark} {rest : List Node} (ht : t ≠ [])
    (h : ∀ u marks', rest.head? = some (text u marks') → marks ≠ marks') :
    consJoined (text t marks) rest = text t marks :: rest := by
  cases t with
  | nil => exact absurd rfl ht
  | cons c t =>
    cases rest with
    | nil => rfl
    | cons n more =>
      cases n with
      | text u marks' => exact if_neg (h u marks' rfl)
      | _ => rfl

/-- A text that is not empty joins a text with the same marks. -/
theorem consJoined_text {t : Text} (ht : t ≠ []) (u : Text) (marks : List Mark)
    (more : List Node) :
    consJoined (text t marks) (text u marks :: more) = text (t ++ u) marks :: more := by
  cases t with
  | nil => exact absurd rfl ht
  | cons c t => exact if_pos rfl

theorem normal_consJoined {n : Node} {rest : List Node} (h : Normal rest)
    (hn : n = hardBreak ∨ ∃ t marks, n = text t marks) : Normal (consJoined n rest) := by
  rcases hn with rfl | ⟨t, marks, rfl⟩
  · exact h.cons (.inl rfl) (by simp)
  · by_cases ht : t = []
    · rw [ht]
      exact h
    by_cases hsame : ∃ u more, rest = text u marks :: more
    · obtain ⟨u, more, rfl⟩ := hsame
      obtain ⟨hinline, hchain⟩ := h
      rw [List.forall_mem_cons] at hinline
      rw [List.isChain_cons] at hchain
      rw [consJoined_text ht]
      -- The joined text takes the place of the text with the same marks.
      refine Normal.cons ⟨hinline.2, hchain.2⟩ (.inr ⟨t ++ u, marks, rfl, by simp [ht]⟩) ?_
      rintro t₁ marks₁ t₂ marks₂ heq hhead
      obtain ⟨-, rfl⟩ := text.inj heq
      exact hchain.1 _ hhead u marks t₂ marks₂ rfl rfl
    · have hapart : ∀ u marks', rest.head? = some (text u marks') → marks ≠ marks' := by
        rintro u _ hhead rfl
        exact hsame ⟨u, rest.tail, (List.cons_head?_tail hhead).symm⟩
      rw [consJoined_of_apart ht hapart]
      refine h.cons (.inr ⟨t, marks, rfl, ht⟩) ?_
      rintro t₁ marks₁ t₂ marks₂ heq
      obtain ⟨-, rfl⟩ := text.inj heq
      exact hapart t₂ marks₂

theorem normal_foldr_consJoined {nodes : List Node}
    (h : ∀ n ∈ nodes, n = hardBreak ∨ ∃ t marks, n = text t marks) :
    Normal (nodes.foldr consJoined []) := by
  induction nodes with
  | nil => exact normal_nil
  | cons n rest ih =>
    rw [List.forall_mem_cons] at h
    exact normal_consJoined (ih h.2) h.1

/-! ## Normal nodes are determined by their glyphs -/

/-- A glyph as a node of its own. -/
def ofGlyph : Glyph → Node
  | .char c marks => text [c] marks
  | .lineBreak => hardBreak

/-- The nodes of glyphs, neighbours joined. -/
def ofGlyphs (gs : List Glyph) : List Node := (gs.map ofGlyph).foldr consJoined []

/-- The characters of a text come together again in front of nodes that do not go on with the text's
marks. -/
theorem foldr_ofText {t : Text} {marks : List Mark} {rest : List Node} (ht : t ≠ [])
    (hrest : ∀ u marks', rest.head? = some (text u marks') → marks ≠ marks') :
    ((Glyph.ofText t marks).map ofGlyph).foldr consJoined rest = text t marks :: rest := by
  induction t with
  | nil => exact absurd rfl ht
  | cons c t ih =>
    have hcons : ((Glyph.ofText (c :: t) marks).map ofGlyph).foldr consJoined rest =
        consJoined (text [c] marks) (((Glyph.ofText t marks).map ofGlyph).foldr consJoined rest) :=
      rfl
    rw [hcons]
    by_cases hnil : t = []
    · rw [hnil]
      exact consJoined_of_apart (List.cons_ne_nil c []) hrest
    · rw [ih hnil, consJoined_text (List.cons_ne_nil c []), List.singleton_append]

/-- Normal nodes are put together again from their glyphs. -/
theorem ofGlyphs_flatMap_glyphs {nodes : List Node} (h : Normal nodes) :
    ofGlyphs (nodes.flatMap glyphs) = nodes := by
  induction nodes with
  | nil => rfl
  | cons n rest ih =>
    obtain ⟨hinline, hchain⟩ := h
    rw [List.forall_mem_cons] at hinline
    rw [List.isChain_cons] at hchain
    have hrest : (((rest.flatMap glyphs).map ofGlyph).foldr consJoined []) = rest :=
      ih ⟨hinline.2, hchain.2⟩
    rw [ofGlyphs, List.flatMap_cons, List.map_append, List.foldr_append, hrest]
    rcases hinline.1 with rfl | ⟨t, marks, rfl, ht⟩
    · rfl
    · exact foldr_ofText ht fun u marks' hu => hchain.1 _ hu t marks u marks' rfl rfl

/-- **Marked text.** The nodes of runs show the glyphs of the runs, and they are the normal nodes
that do so. -/
theorem glyphs_ofRuns (runs : List Run) :
    (ofRuns runs).flatMap glyphs = Run.glyphsAll runs ∧ Normal (ofRuns runs) ∧
      ∀ nodes, Normal nodes → nodes.flatMap glyphs = Run.glyphsAll runs → nodes = ofRuns runs := by
  have hglyphs : (ofRuns runs).flatMap glyphs = Run.glyphsAll runs := by
    rw [ofRuns, glyphs_foldr_consJoined, glyphs_fragmentsAll]
    exact List.map_id'' Glyph.inside_nil _
  have hnormal : Normal (ofRuns runs) :=
    normal_foldr_consJoined (inline_of_mem_fragmentsAll [] runs)
  refine ⟨hglyphs, hnormal, ?_⟩
  intro nodes hnodes heq
  calc nodes = ofGlyphs (nodes.flatMap glyphs) := (ofGlyphs_flatMap_glyphs hnodes).symm
    _ = ofGlyphs ((ofRuns runs).flatMap glyphs) := by rw [heq, hglyphs]
    _ = ofRuns runs := ofGlyphs_flatMap_glyphs hnormal

end Node

end TicketMarkup
