import TicketMarkup.Document.Node
import TicketMarkup.Proofs.ClosingSearch
import TicketMarkup.Proofs.Tiling
import Mathlib.Data.List.Flatten
import Mathlib.Data.List.Perm.Subperm

/-!
# Nested delimiters

`bounded_nesting`: however long a line is, no delimiter is read inside itself. So texts are read at
most seven levels deep below the line, and no run lies inside more than one struck, four strong and
four emphasised runs.

1. The inner text of a delimiter ends where the delimiter can close first, and does not end in the
   delimiter's character. So the delimiter can close nowhere in its inner text (`Unclosable`), also
   now that the text is cut off there.
2. Where `d` can close nowhere in a text, it can close nowhere in the inner text of any delimiter
   read there (`Unclosable.of_encloses`): the character behind the inner text is not the one that
   it ends in, and no letter or digit.
3. A delimiter is read only where it closes, so no delimiter stands twice in a chain of delimiters
   that are read one inside the other (`Reads.nodup`). The runs around a run come from such a chain
   (`exists_reads_of_isPath`).
-/

namespace TicketMarkup

namespace Delimiter

/-! ## Where a delimiter can close -/

/-- The delimiter can close between two parts of a text. -/
theorem closesAt_iff {d : Delimiter} {t : Text} {k : Nat} :
    d.ClosesAt t k ↔ ∃ inner behind, t = inner ++ (d.text ++ behind) ∧ inner.length = k ∧
      (∃ c ∈ inner.getLast?, ¬isBlank c ∧ c ≠ d.char) ∧
        ∀ c ∈ behind.head?, c ≠ d.char ∧ ¬(d.char = '_' ∧ isAlphanumeric c) := by
  constructor
  · rintro ⟨⟨behind, hbehind⟩, hlast, hnext⟩
    have hlength : (t.take k).length = k := by
      have hpos := d.width_pos
      have hlengths := congrArg List.length hbehind
      rw [List.length_append, List.length_drop, d.length_text] at hlengths
      rw [List.length_take]
      omega
    rw [← List.drop_drop, ← hbehind, d.drop_width_append] at hnext
    exact ⟨t.take k, behind, by rw [hbehind, List.take_append_drop], hlength, hlast, hnext⟩
  · rintro ⟨inner, behind, rfl, rfl, hlast, hnext⟩
    refine ⟨?_, ?_, ?_⟩
    · rw [List.drop_left]
      exact List.prefix_append d.text behind
    · rwa [List.take_left]
    · rwa [← List.drop_drop, List.drop_left, d.drop_width_append]

/-- A place where the delimiter can close remains one between other texts, unless it is the end of
the text and the next text begins with a character that hinders it. -/
theorem ClosesAt.between {d : Delimiter} {t : Text} {k : Nat} (h : d.ClosesAt t k)
    (before behind : Text)
    (hbehind : t.getLast? = some d.char →
      ∀ c ∈ behind.head?, c ≠ d.char ∧ ¬(d.char = '_' ∧ isAlphanumeric c)) :
    d.ClosesAt (before ++ (t ++ behind)) (before.length + k) := by
  obtain ⟨inner, rest, rfl, rfl, ⟨c, hc, hadmits⟩, hnext⟩ := closesAt_iff.1 h
  refine closesAt_iff.2 ⟨before ++ inner, rest ++ behind, by simp, by simp, ⟨c, ?_, hadmits⟩, ?_⟩
  · rw [List.getLast?_append, Option.mem_def.1 hc]
    rfl
  · cases rest with
    | nil =>
      rw [List.append_nil, List.getLast?_append, getLast?_text] at hbehind
      exact hbehind rfl
    | cons b rest => exact hnext

/-- The delimiter can close nowhere in a text. -/
def Unclosable (d : Delimiter) (t : Text) : Prop := ∀ k, ¬d.ClosesAt t k

/-! ## Enclosed texts -/

/-- A text begins with an inner text between the delimiter and the first place where it closes. -/
def Encloses (d : Delimiter) (inner t : Text) : Prop :=
  ∃ after, t = d.text ++ after ∧ d.inner? none after = some inner

variable {d : Delimiter} {inner after t : Text}

/-- An inner text does not end in the character of its delimiter. -/
theorem getLast?_ne_of_inner? (h : d.inner? none after = some inner) :
    inner.getLast? ≠ some d.char := by
  obtain ⟨k, -, ⟨-, ⟨c, hc, -, hne⟩, -⟩, -, rfl⟩ := inner?_eq_some_iff.1 h
  intro hlast
  exact hne (Option.some.inj (hc.symm.trans hlast))

/-- A delimiter cannot close in its inner text. -/
theorem unclosable_of_inner? (h : d.inner? none after = some inner) : d.Unclosable inner := by
  have hlast := getLast?_ne_of_inner? h
  obtain ⟨k, hle, -, hleast, rfl⟩ := inner?_eq_some_iff.1 h
  intro j hj
  have hjk : j < k := by
    obtain ⟨front, rest, heq, rfl, -⟩ := closesAt_iff.1 hj
    have := d.width_pos
    have hlength := congrArg List.length heq
    rw [List.length_take, Nat.min_eq_left hle, List.length_append, List.length_append,
      d.length_text] at hlength
    omega
  have hafter := hj.between [] (after.drop k) fun h => absurd h hlast
  rw [List.nil_append, List.take_append_drop, List.length_nil, Nat.zero_add] at hafter
  exact hleast j hjk hafter

/-- Where `d` cannot close, no text is enclosed in `d`. -/
theorem Unclosable.ne_of_encloses {d' : Delimiter} {before : Text}
    (h : d.Unclosable (before ++ t)) (hin : d'.Encloses inner t) : d' ≠ d := by
  rintro rfl
  obtain ⟨after, rfl, hinner⟩ := hin
  obtain ⟨k, -, hcloses, -⟩ := inner?_eq_some_iff.1 hinner
  have hbetween := hcloses.between (before ++ d'.text) [] (by simp)
  rw [List.append_nil, List.append_assoc] at hbetween
  exact h _ hbetween

/-- Where `d` cannot close, it cannot close in a text that another delimiter encloses. -/
theorem Unclosable.of_encloses {d' : Delimiter} {before : Text} (h : d.Unclosable (before ++ t))
    (hin : d'.Encloses inner t) : d.Unclosable inner := by
  obtain ⟨after, rfl, hinner⟩ := hin
  have hlast := getLast?_ne_of_inner? hinner
  obtain ⟨rest, rfl⟩ := inner?_append_isPrefix hinner
  intro k hk
  -- Behind the inner text stands a delimiter whose character neither ends the inner text nor
  -- belongs to a word.
  have hbehind : inner.getLast? = some d.char →
      ∀ c ∈ (d'.text ++ rest).head?, c ≠ d.char ∧ ¬(d.char = '_' ∧ isAlphanumeric c) := by
    intro hchar c hc
    rw [List.head?_append, head?_text] at hc
    obtain rfl : d'.char = c := Option.some.inj hc
    refine ⟨fun heq => hlast (heq ▸ hchar), fun hword => d'.not_isAlphanumeric_char hword.2⟩
  have hbetween := hk.between (before ++ d'.text) (d'.text ++ rest) hbehind
  rw [List.append_assoc, ← List.append_assoc inner] at hbetween
  exact h _ hbetween

end Delimiter

/-! ## Delimited pieces -/

theorem exists_encloses_of_mem_piecesFrom {m : Memory} {prev : Option Char} {t inner : Text}
    {d : Delimiter} (h : .delimited d inner ∈ piecesFrom m prev t) :
    ∃ before u, t = before ++ u ∧ d.Encloses inner u := by
  fun_induction piecesFrom m prev t with
  | case1 => simp at h
  | case2 m prev c rest piece memory hfirst source ih =>
    rcases List.mem_cons.1 h with hpiece | h
    · have hdelimited : (Piece.first m prev c rest).1 = .delimited d inner := by
        rw [hfirst, hpiece]
      obtain ⟨after, heq, -, hinner⟩ := Piece.exists_of_first hdelimited
      exact ⟨[], c :: rest, rfl, after, heq, hinner⟩
    · obtain ⟨before, u, heq, hin⟩ := ih h
      refine ⟨c :: (rest.take (source.length - 1) ++ before), u, ?_, hin⟩
      rw [List.cons_append, List.append_assoc, ← heq, List.take_append_drop]

/-- A delimited piece stands in the line as its delimiter encloses it. -/
theorem exists_encloses_of_mem_pieces {t inner : Text} {d : Delimiter}
    (h : .delimited d inner ∈ pieces t) : ∃ before u, t = before ++ u ∧ d.Encloses inner u :=
  exists_encloses_of_mem_piecesFrom h

/-! ## Chains of delimiters -/

namespace Run

/-- Reading the runs of a text leads through delimiters, outermost first, to reading the runs of
another text: each delimiter makes a piece of the text that is read, and its inner text is read
next. -/
inductive Reads : Text → List Delimiter → Text → Prop
  | here (t : Text) : Reads t [] t
  | through {t inner u : Text} {d : Delimiter} {ds : List Delimiter}
      (piece : .delimited d inner ∈ pieces t) (rest : Reads inner ds u) : Reads t (d :: ds) u

/-- A delimiter that cannot close in a text is not read below it. -/
theorem Reads.not_mem {d : Delimiter} {t u : Text} {ds : List Delimiter} (h : Reads t ds u)
    (hd : d.Unclosable t) : d ∉ ds := by
  induction h with
  | here t => exact List.not_mem_nil
  | through piece rest ih =>
    obtain ⟨before, t', rfl, hin⟩ := exists_encloses_of_mem_pieces piece
    rw [List.mem_cons, not_or]
    exact ⟨(hd.ne_of_encloses hin).symm, ih (hd.of_encloses hin)⟩

/-- No delimiter is read inside itself. -/
theorem Reads.nodup {t u : Text} {ds : List Delimiter} (h : Reads t ds u) : ds.Nodup := by
  induction h with
  | here t => exact List.nodup_nil
  | through piece rest ih =>
    obtain ⟨before, t', -, after, -, hinner⟩ := exists_encloses_of_mem_pieces piece
    exact List.nodup_cons.2 ⟨rest.not_mem (Delimiter.unclosable_of_inner? hinner), ih⟩

end Run

namespace Delimiter

/-- All delimiters. -/
def all : List Delimiter :=
  [strongEmphasis .star, strongEmphasis .underscore, strong .star, strong .underscore,
    emphasis .star, emphasis .underscore, strike]

theorem mem_all (d : Delimiter) : d ∈ all := by
  rcases d with (_ | _) | (_ | _) | (_ | _) | _ <;> decide

/-- The marks of the runs that a delimiter makes, outermost first. -/
def marks : Delimiter → List Mark
  | strongEmphasis _ => [.strong, .em]
  | strong _ => [.strong]
  | emphasis _ => [.em]
  | strike => [.strike]

theorem length_le_of_nodup {ds : List Delimiter} (h : ds.Nodup) : ds.length ≤ 7 :=
  (List.subperm_of_subset h fun d _ => d.mem_all).length_le

/-- Different delimiters give each mark at most as often as all delimiters do together. -/
theorem count_marks_le {ds : List Delimiter} (h : ds.Nodup) (mark : Mark) :
    (ds.flatMap marks).count mark ≤ (all.flatMap marks).count mark := by
  obtain ⟨part, hperm, hpart⟩ := List.subperm_of_subset h fun d _ => d.mem_all
  rw [← (hperm.flatMap_right marks).count_eq]
  exact (hpart.flatMap marks).count_le mark

end Delimiter

/-! ## Paths of runs -/

namespace Run

/-- The runs inside a run. -/
def inner : Run → List Run
  | strong runs | emphasis runs | strike runs => runs
  | _ => []

/-- The mark that a run puts on the runs inside it. -/
def mark? : Run → Option Mark
  | strong _ => some .strong
  | emphasis _ => some .em
  | strike _ => some .strike
  | _ => none

/-- A path from one of some runs downwards, each run inside the one before it. -/
inductive IsPath : List Run → List Run → Prop
  | nil (runs : List Run) : IsPath runs []
  | cons {runs path : List Run} {run : Run} (mem : run ∈ runs) (rest : IsPath run.inner path) :
      IsPath runs (run :: path)

/-- The marks of the runs on a path. -/
def marks (path : List Run) : List Mark := path.filterMap mark?

theorem IsPath.eq_nil {path : List Run} (h : IsPath [] path) : path = [] := by
  cases h with
  | nil => rfl
  | cons mem _ => exact absurd mem List.not_mem_nil

/-- A run of plain text, code or a reference, and a line break. -/
def IsLeaf (run : Run) : Prop := run.inner = [] ∧ run.mark? = none

theorem mem_consChar {c : Char} {runs : List Run} {run : Run} (h : run ∈ consChar c runs) :
    run.IsLeaf ∨ run ∈ runs := by
  cases runs with
  | nil =>
    obtain rfl := List.mem_singleton.1 h
    exact .inl ⟨rfl, rfl⟩
  | cons first rest =>
    have hcases : (∃ t, run = text t) ∨ run ∈ first :: rest := by
      cases first with
      | text t => exact (List.mem_cons.1 h).imp (⟨_, ·⟩) (List.mem_cons_of_mem _)
      | _ => exact (List.mem_cons.1 h).imp_left (⟨_, ·⟩)
    refine hcases.imp_left ?_
    rintro ⟨t, rfl⟩
    exact ⟨rfl, rfl⟩

theorem mem_consPiece {piece : Piece} {inner rest : List Run} {run : Run}
    (h : run ∈ consPiece piece inner rest) :
    (run.IsLeaf ∨ ∃ d t, piece = .delimited d t ∧ run = d.run inner) ∨ run ∈ rest := by
  cases piece with
  | literal c | escaped c => exact (mem_consChar h).imp_left .inl
  | delimited d t => exact (List.mem_cons.1 h).imp_left fun heq => .inr ⟨d, t, rfl, heq⟩
  | code ticks t =>
    refine (List.mem_cons.1 h).imp_left fun heq => .inl ?_
    exact heq ▸ ⟨rfl, rfl⟩
  | reference kind spelling =>
    refine (List.mem_cons.1 h).imp_left fun heq => .inl ?_
    subst heq
    cases kind <;> exact ⟨rfl, rfl⟩

/-- A run of a text is a leaf or the run of a delimited piece. -/
theorem isLeaf_or_of_mem_ofText {t : Text} {run : Run} (h : run ∈ ofText t) :
    run.IsLeaf ∨ ∃ d inner, .delimited d inner ∈ pieces t ∧ run = d.run (ofText inner) := by
  rw [ofText_eq] at h
  generalize pieces t = ps at h
  induction ps with
  | nil => exact absurd h List.not_mem_nil
  | cons piece rest ih =>
    rcases mem_consPiece h with (hleaf | ⟨d, inner, rfl, hrun⟩) | h
    · exact .inl hleaf
    · exact .inr ⟨d, inner, List.mem_cons_self, hrun⟩
    · refine (ih h).imp_right ?_
      rintro ⟨d, inner, hmem, hrun⟩
      exact ⟨d, inner, List.mem_cons_of_mem _ hmem, hrun⟩

/-- A path through the run of a delimiter goes on through the runs inside the delimiter. -/
theorem IsPath.of_run {d : Delimiter} {runs path : List Run} (h : IsPath (d.run runs).inner path) :
    ∃ path', IsPath runs path' ∧ path'.length ≤ path.length ∧
      marks (d.run runs :: path) <+: d.marks ++ marks path' := by
  cases d with
  | strongEmphasis mark =>
    cases h with
    | nil => exact ⟨[], .nil runs, Nat.le_refl 0, ⟨[.em], rfl⟩⟩
    | @cons _ path run mem rest =>
      obtain rfl := List.mem_singleton.1 mem
      exact ⟨path, rest, Nat.le_succ _, List.prefix_rfl⟩
  | strong _ | emphasis _ | strike => exact ⟨path, h, Nat.le_refl _, List.prefix_rfl⟩

/-- The marks of a path through the runs of a text come from delimiters that are read one inside
the other. -/
theorem exists_reads_of_isPath {t : Text} {path : List Run} (h : IsPath (ofText t) path) :
    ∃ ds u, Reads t ds u ∧ marks path <+: ds.flatMap Delimiter.marks := by
  induction hlength : path.length using Nat.strong_induction_on generalizing t path with
  | _ n ih =>
    cases h with
    | nil => exact ⟨[], t, .here t, List.prefix_rfl⟩
    | @cons _ path run mem rest =>
      rcases isLeaf_or_of_mem_ofText mem with ⟨hinner, hmark⟩ | ⟨d, inner, hpiece, rfl⟩
      · rw [hinner] at rest
        obtain rfl := rest.eq_nil
        refine ⟨[], t, .here t, ?_⟩
        rw [marks, List.filterMap_cons_none hmark]
        exact List.prefix_rfl
      · obtain ⟨path', hpath, hle, hmarks⟩ := rest.of_run
        rw [List.length_cons] at hlength
        obtain ⟨ds, u, hreads, hprefix⟩ := ih path'.length (by omega) hpath rfl
        refine ⟨d :: ds, u, .through hpiece hreads, hmarks.trans ?_⟩
        rw [List.flatMap_cons, List.prefix_append_right_inj]
        exact hprefix

theorem count_marks_le {t : Text} {path : List Run} (h : IsPath (ofText t) path) (mark : Mark) :
    (marks path).count mark ≤ (Delimiter.all.flatMap Delimiter.marks).count mark := by
  obtain ⟨ds, u, hreads, hprefix⟩ := exists_reads_of_isPath h
  calc (marks path).count mark ≤ (ds.flatMap Delimiter.marks).count mark :=
        hprefix.sublist.count_le mark
    _ ≤ (Delimiter.all.flatMap Delimiter.marks).count mark :=
        Delimiter.count_marks_le hreads.nodup mark

/-- The runs of a line are those of a text, and a break that holds no runs. -/
theorem exists_isPath_ofText {line : Text} {path : List Run} (h : IsPath (ofLine line) path) :
    ∃ t path', IsPath (ofText t) path' ∧ marks path = marks path' := by
  unfold ofLine at h
  split at h
  · cases h with
    | nil => exact ⟨line, [], .nil _, rfl⟩
    | cons mem rest =>
      rcases List.mem_append.1 mem with hmem | hmem
      · exact ⟨line.trimEnd, _, .cons hmem rest, rfl⟩
      · obtain rfl := List.mem_singleton.1 hmem
        obtain rfl := rest.eq_nil
        exact ⟨line, [], .nil _, rfl⟩
  · exact ⟨line, path, h, rfl⟩

/-- **Bounded nesting.** No delimiter is read inside itself, so at most seven are read one inside
the other; and on a path downwards through the runs of a line there are at most one struck, four
strong and four emphasised runs. -/
theorem bounded_nesting (line : Text) :
    (∀ ds u, Reads line ds u → ds.Nodup ∧ ds.length ≤ 7) ∧
      ∀ path, IsPath (ofLine line) path →
        (marks path).count .strike ≤ 1 ∧ (marks path).count .strong ≤ 4 ∧
          (marks path).count .em ≤ 4 := by
  constructor
  · intro ds u h
    exact ⟨h.nodup, Delimiter.length_le_of_nodup h.nodup⟩
  · intro path h
    obtain ⟨t, path', hpath, heq⟩ := exists_isPath_ofText h
    rw [heq]
    exact ⟨count_marks_le hpath .strike, count_marks_le hpath .strong, count_marks_le hpath .em⟩

end Run

end TicketMarkup
