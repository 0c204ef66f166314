import TicketMarkup.Proofs.TextParts
import TicketMarkup.Proofs.Tiling
import Mathlib.Data.List.Infix
import Mathlib.Tactic.SplitIfs

/-!
# The openings that a failed reference rules out

`Run.ofText_eq_ofTextUnskipped`: skipping the openings that a failed link or image rules out changes
no run, unless a reference straddles the end of a target (`Reference.Straddled`). There it can drop
a link: see `Run.ofText_ne_ofTextUnskipped`.

1. Whether an opening is a reference depends on the text behind its first `](`
   (`Reference.reads_iff`). Openings in the label of a failed reference reach the same `](`.
2. Openings in its target have a `](` of their own. If more of the target follows it, the two
   references have the same end (`Reference.tailReads_of_suffix`). If the target ends at a blank,
   that `](` can also stand right there or further on, and then the end of the first reference says
   nothing about the second.
3. So a failed reference rules out openings that fail (`Reference.not_reads_drop`), the memory of a
   scan rules out only such openings (`Memory.RulesOut`), and every attempt gives what it gives with
   the failed references forgotten.
4. A part of a text that is not straddled is not straddled (`Reference.Straddled.of_infix`), which
   carries the equation into delimited texts.
-/

namespace TicketMarkup

/-! ## Suffixes and cuts -/

section

variable {p : Char → Bool} {t v : Text}

theorem dropWhile_drop {n : Nat} (h : n ≤ (t.takeWhile p).length) :
    (t.drop n).dropWhile p = t.dropWhile p := by
  induction n generalizing t with
  | zero => rfl
  | succ n ih =>
    cases t with
    | nil => rfl
    | cons c rest =>
      by_cases hc : p c
      · simp only [List.takeWhile_cons, hc, if_true, List.length_cons] at h
        rw [List.drop_succ_cons, ih (Nat.le_of_succ_le_succ h), List.dropWhile_cons_of_pos hc]
      · simp [hc] at h

theorem suffix_dropWhile (h : v <:+ t) (hhead : ∀ c ∈ v.head?, ¬p c) : v <:+ t.dropWhile p := by
  induction t with
  | nil => simpa using h
  | cons c rest ih =>
    by_cases hc : p c
    · rw [List.dropWhile_cons_of_pos hc]
      rcases List.suffix_cons_iff.1 h with rfl | h
      · exact absurd hc (hhead c rfl)
      · exact ih h
    · rwa [List.dropWhile_cons_of_neg hc]

theorem dropWhile_append_of_ne_nil (h : t.dropWhile p ≠ []) (more : Text) :
    (t ++ more).dropWhile p = t.dropWhile p ++ more := by
  rw [List.dropWhile_append, if_neg (by simpa using h)]

theorem takeWhile_append_of_ne_nil (h : t.dropWhile p ≠ []) (more : Text) :
    (t ++ more).takeWhile p = t.takeWhile p := by
  have hlength : (t.takeWhile p).length ≠ t.length := by
    intro heq
    have := congrArg List.length (List.takeWhile_append_dropWhile (p := p) (l := t))
    rw [List.length_append, heq] at this
    exact h (List.eq_nil_of_length_eq_zero (by omega))
  rw [List.takeWhile_append, if_neg hlength]

end

namespace Reference

/-! ## What decides whether an opening is a reference -/

/-- The text behind the first `](`, if no other `]` comes before it. -/
def tail? (t : Text) : Option Text :=
  match t.dropWhile (· != ']') with
  | ']' :: '(' :: rest => some rest
  | _ => none

/-- The text behind a `](` without the blanks and the target at its head. -/
def beyond (rest : Text) : Text := (rest.dropWhile isBlank).dropWhile isTargetChar

/-- A reference of the kind stands at the head of a text. -/
def Reads (kind : ReferenceKind) (t : Text) : Prop :=
  kind.mark <+: t ∧ (read? kind (t.drop kind.mark.length)).isSome

/-- The text behind a `](` completes a reference of the kind. -/
def TailReads (kind : ReferenceKind) (rest : Text) : Prop :=
  (kind = .image → (rest.dropWhile isBlank).takeWhile isTargetChar ≠ []) ∧
      (Ending.read? (beyond rest)).isSome ∨
    kind = .link ∧ (Ending.read? rest).isSome

theorem tail?_mark (kind : ReferenceKind) (t : Text) : tail? (kind.mark ++ '[' :: t) = tail? t := by
  cases kind <;> simp [tail?, ReferenceKind.mark]

theorem isSome_readTarget? {kind : ReferenceKind} {label rest : Text} :
    (readTarget? kind label rest).isSome ↔
      (kind = .image → (rest.dropWhile isBlank).takeWhile isTargetChar ≠ []) ∧
        (Ending.read? (beyond rest)).isSome := by
  simp only [readTarget?, beyond]
  split_ifs with h
  · simp [h.1, h.2]
  · rw [not_and] at h
    simpa using fun _ => h

theorem isSome_readUntargeted? {kind : ReferenceKind} {label rest : Text} :
    (readUntargeted? kind label rest).isSome ↔ kind = .link ∧ (Ending.read? rest).isSome := by
  cases kind <;> simp [readUntargeted?]

theorem isSome_read?_cons {kind : ReferenceKind} {t : Text} :
    (read? kind ('[' :: t)).isSome ↔ ∃ rest, tail? t = some rest ∧ TailReads kind rest := by
  simp only [read?, tail?]
  generalize t.dropWhile (· != ']') = u
  split
  · next rest =>
    rw [Option.orElse_eq_orElse, Option.orElse_eq_or, Option.isSome_or, Bool.or_eq_true,
      isSome_readTarget?, isSome_readUntargeted?]
    simp [TailReads]
  · simp

theorem reads_iff {kind : ReferenceKind} {t : Text} :
    Reads kind t ↔
      kind.mark ++ ['['] <+: t ∧ ∃ rest, tail? t = some rest ∧ TailReads kind rest := by
  constructor
  · rintro ⟨⟨u, rfl⟩, h⟩
    rw [List.drop_left] at h
    cases u with
    | nil => simp [read?] at h
    | cons c u =>
      by_cases hc : c = '['
      · rw [hc] at h ⊢
        rw [isSome_read?_cons] at h
        exact ⟨⟨u, by simp⟩, by rwa [tail?_mark]⟩
      · simp [read?, hc] at h
  · rintro ⟨⟨u, rfl⟩, h⟩
    rw [List.append_assoc, List.singleton_append] at h ⊢
    rw [tail?_mark] at h
    exact ⟨List.prefix_append _ _, by rwa [List.drop_left, isSome_read?_cons]⟩

/-! ## Openings inside a failed reference -/

/-- In the text behind a `](`, inside a target that ends at a blank, a reference starts whose own
`](` comes only at the end of that target or behind it. -/
def Straddles (rest : Text) : Prop :=
  (beyond rest).head?.any isBlank ∧ ∃ v, v <:+ rest ∧ (beyond rest).length < v.length ∧
    ∃ kind, Reads kind v ∧ ∀ inner ∈ tail? v, inner.length ≤ (beyond rest).length

/-- A reference straddles the end of a target somewhere in the text. -/
def Straddled (t : Text) : Prop := ∃ rest, ']' :: '(' :: rest <:+ t ∧ Straddles rest

instance (kind : ReferenceKind) : DecidablePred (Reads kind) :=
  fun _ => inferInstanceAs (Decidable (_ ∧ _))

instance : DecidablePred Straddles := fun rest =>
  let Starts (v : Text) (kind : ReferenceKind) : Prop :=
    Reads kind v ∧ ∀ inner ∈ tail? v, inner.length ≤ (beyond rest).length
  decidable_of_iff ((beyond rest).head?.any isBlank ∧ ∃ v ∈ rest.tails,
      (beyond rest).length < v.length ∧ (Starts v .link ∨ Starts v .image)) <| by
    simp only [List.mem_tails, Straddles]
    refine and_congr_right fun _ => exists_congr fun v => and_congr_right fun _ =>
      and_congr_right fun _ => ⟨?_, ?_⟩
    · rintro (h | h)
      · exact ⟨.link, h⟩
      · exact ⟨.image, h⟩
    · rintro ⟨_ | _, h⟩
      · exact .inl h
      · exact .inr h

instance : DecidablePred Straddled := fun t =>
  decidable_of_iff (∃ u ∈ t.tails, u.take 2 = [']', '('] ∧ Straddles (u.drop 2)) <| by
    simp only [List.mem_tails]
    constructor
    · rintro ⟨u, hu, htake, h⟩
      refine ⟨u.drop 2, ?_, h⟩
      rwa [← List.take_append_drop 2 u, htake] at hu
    · rintro ⟨rest, hrest, h⟩
      exact ⟨_, hrest, rfl, h⟩

theorem Straddled.of_suffix {t u : Text} (h : Straddled u) (hsuffix : u <:+ t) : Straddled t := by
  obtain ⟨rest, hrest, hstraddles⟩ := h
  exact ⟨rest, hrest.trans hsuffix, hstraddles⟩

theorem tail?_drop {t : Text} {n : Nat} (h : n ≤ (t.takeWhile (· != ']')).length) :
    tail? (t.drop n) = tail? t := by
  rw [tail?, dropWhile_drop h, tail?]

theorem tail?_suffix {t rest : Text} (h : tail? t = some rest) : rest <:+ t := by
  unfold tail? at h
  split at h
  · next u hu =>
    obtain rfl := Option.some.inj h
    have hdropped : ']' :: '(' :: u <:+ t := hu ▸ List.dropWhile_suffix _
    exact (List.suffix_append [']', '('] u).trans hdropped
  · simp at h

theorem length_lead_target_beyond (rest : Text) :
    (rest.takeWhile isBlank).length + ((rest.dropWhile isBlank).takeWhile isTargetChar).length +
      (beyond rest).length = rest.length := by
  have hlead := congrArg List.length (List.takeWhile_append_dropWhile (p := isBlank) (l := rest))
  have htarget := congrArg List.length
    (List.takeWhile_append_dropWhile (p := isTargetChar) (l := rest.dropWhile isBlank))
  rw [List.length_append] at hlead htarget
  rw [beyond]
  omega

/-- The first character behind a target is a blank or the closing parenthesis. -/
theorem not_isTargetChar_of_mem_beyond {rest : Text} {c : Char} (h : c ∈ (beyond rest).head?) :
    ¬isTargetChar c :=
  Text.not_of_mem_head?_dropWhile h

theorem dropWhile_beyond (rest : Text) : (beyond rest).dropWhile isTargetChar = beyond rest := by
  cases h : beyond rest with
  | nil => rfl
  | cons c b =>
    exact List.dropWhile_cons_of_neg (not_isTargetChar_of_mem_beyond (by rw [h]; rfl))

theorem not_isBlank_of_isTargetChar {c : Char} (h : isTargetChar c) : ¬isBlank c := by
  simp only [isTargetChar, Bool.and_eq_true, Bool.not_eq_true'] at h
  simp [h.1]

/-- No reference ends right before a character of a target. -/
theorem Ending.read?_cons_of_isTargetChar {c : Char} (h : isTargetChar c) (t : Text) :
    Ending.read? (c :: t) = none := by
  have hblank := not_isBlank_of_isTargetChar h
  have hclose : c ≠ ')' := by
    rintro rfl
    simp [isTargetChar] at h
  simp only [Ending.read?, List.dropWhile_cons_of_neg hblank, List.takeWhile_cons_of_neg hblank]
  split
  · next heq => exact absurd (List.head_eq_of_cons_eq heq) hclose
  · rfl
  · rfl

/-- A part of a target with what stands behind it completes a reference only if the whole target
does. -/
theorem tailReads_of_suffix {kind : ReferenceKind} {rest inner : Text}
    (hinner : inner <:+ rest.dropWhile isBlank) (hlength : (beyond rest).length < inner.length)
    (h : TailReads kind inner) : TailReads kind rest := by
  have htarget : ∀ c ∈ (rest.dropWhile isBlank).takeWhile isTargetChar, isTargetChar c :=
    fun c hc => List.all_eq_true.1 List.all_takeWhile c hc
  have hsplit : (rest.dropWhile isBlank).takeWhile isTargetChar ++ beyond rest =
      rest.dropWhile isBlank := List.takeWhile_append_dropWhile
  obtain ⟨front, hfront⟩ := hinner
  rw [← hsplit] at hfront
  unfold TailReads
  generalize (rest.dropWhile isBlank).takeWhile isTargetChar = target at hfront htarget ⊢
  rcases List.append_eq_append_iff.1 hfront with ⟨part, rfl, rfl⟩ | ⟨part, rfl, hpart⟩
  · cases part with
    | nil => exact absurd hlength (Nat.lt_irrefl _)
    | cons c part =>
      have hc : isTargetChar c := htarget c (by simp)
      have hbeyond : beyond (c :: part ++ beyond rest) = beyond rest := by
        have hpart : ∀ d ∈ c :: part, isTargetChar d :=
          fun d hd => htarget d (List.mem_append_right _ hd)
        rw [beyond, List.cons_append, List.dropWhile_cons_of_neg (not_isBlank_of_isTargetChar hc),
          ← List.cons_append, List.dropWhile_append_of_pos hpart, dropWhile_beyond]
      rcases h with ⟨-, hend⟩ | ⟨-, hend⟩
      · exact .inl ⟨fun _ => by simp, hbeyond ▸ hend⟩
      · rw [List.cons_append, Ending.read?_cons_of_isTargetChar hc] at hend
        simp at hend
  · rw [hpart, List.length_append] at hlength
    omega

theorem not_tailReads_nil (kind : ReferenceKind) : ¬TailReads kind [] := by
  simp [TailReads, beyond, Ending.read?]

/-- A target that a parenthesis follows completes a reference. -/
theorem tailReads_of_close {kind : ReferenceKind} {rest more : Text}
    (htarget : (rest.dropWhile isBlank).takeWhile isTargetChar ≠ [])
    (h : beyond rest = ')' :: more) : TailReads kind rest :=
  .inl ⟨fun _ => htarget, by rw [h]; rfl⟩

theorem head?_of_opens {kind : ReferenceKind} {t : Text} (h : kind.mark ++ ['['] <+: t) :
    t.head? = some '[' ∨ t.head? = some '!' := by
  obtain ⟨more, rfl⟩ := h
  cases kind
  · exact .inl rfl
  · exact .inr rfl

/-- An opening inside the target of a failed reference fails as well if its own target starts inside
it; otherwise the two are straddled. -/
theorem not_reads_of_suffix {kind : ReferenceKind} {rest v : Text} (hfails : ¬TailReads kind rest)
    (hv : v <:+ rest) (hlength : (beyond rest).length < v.length)
    (hstraddles : ¬Straddles rest) : ¬Reads kind v := by
  intro hreads
  obtain ⟨hopen, inner, htail, hinner⟩ := reads_iff.1 hreads
  have hblank : ∀ c ∈ v.head?, ¬isBlank c := by
    intro c hc
    rcases head?_of_opens hopen with hhead | hhead <;>
    · rw [hhead] at hc
      obtain rfl := Option.some.inj hc
      decide
  have hvtarget := suffix_dropWhile hv hblank
  -- The `](` of `v` leads to its own tail `inner`, which starts inside the first target or not.
  by_cases hshort : inner.length ≤ (beyond rest).length
  · cases hbeyond : beyond rest with
    | nil =>
      rw [hbeyond, List.length_nil, Nat.le_zero, List.length_eq_zero_iff] at hshort
      exact not_tailReads_nil kind (hshort ▸ hinner)
    | cons c more =>
      have hc : ¬isTargetChar c := not_isTargetChar_of_mem_beyond (by rw [hbeyond]; rfl)
      have htarget : (rest.dropWhile isBlank).takeWhile isTargetChar ≠ [] := by
        intro hnil
        have hsplit := List.takeWhile_append_dropWhile (p := isTargetChar)
          (l := rest.dropWhile isBlank)
        rw [hnil, List.nil_append, ← beyond] at hsplit
        have := hvtarget.length_le
        rw [← hsplit] at this
        omega
      by_cases hcblank : isBlank c
      · refine hstraddles ⟨by simp [hbeyond, hcblank], v, hv, hlength, kind, hreads, ?_⟩
        intro inner' hinner'
        rw [htail] at hinner'
        exact Option.some.inj hinner' ▸ hshort
      · obtain rfl : c = ')' := by simpa [isTargetChar, hcblank] using hc
        exact hfails (tailReads_of_close htarget hbeyond)
  · exact hfails (tailReads_of_suffix ((tail?_suffix htail).trans hvtarget)
      (Nat.lt_of_not_le hshort) hinner)

/-- **What a failed reference rules out.** An opening before the end of the failed target fails as
well, unless the text is straddled. -/
theorem not_reads_drop {kind : ReferenceKind} {t : Text} {n : Nat}
    (hfails : ¬Reads kind t) (hopens : kind.mark ++ ['['] <+: t) (hn : n < failureLength t)
    (hstraddled : ¬Straddled t) : ¬Reads kind (t.drop n) := by
  intro hreads
  obtain ⟨hopen, inner, htail, hinner⟩ := reads_iff.1 hreads
  by_cases hlabel : n ≤ (t.takeWhile (· != ']')).length
  · rw [tail?_drop hlabel] at htail
    exact hfails (reads_iff.2 ⟨hopens, inner, htail, hinner⟩)
  · simp only [failureLength] at hn
    split at hn
    · next rest hrest =>
      have hbracket : t.drop (t.takeWhile (· != ']')).length = ']' :: '(' :: rest := by
        rw [← hrest]
        conv_lhs => arg 2; rw [← List.takeWhile_append_dropWhile (p := (· != ']')) (l := t)]
        exact List.drop_left
      have hrestFails : ¬TailReads kind rest := fun h =>
        hfails (reads_iff.2 ⟨hopens, rest, by simp [tail?, hrest], h⟩)
      have hstraddles : ¬Straddles rest :=
        fun h => hstraddled ⟨rest, hrest ▸ List.dropWhile_suffix _, h⟩
      obtain ⟨k, rfl⟩ : ∃ k, n = (t.takeWhile (· != ']')).length + (k + 1) :=
        ⟨n - (t.takeWhile (· != ']')).length - 1, by omega⟩
      rw [← List.drop_drop, hbracket, List.drop_succ_cons] at hreads hopen
      cases k with
      | zero => rcases head?_of_opens hopen with h | h <;> simp at h
      | succ k =>
        rw [List.drop_succ_cons] at hreads
        refine not_reads_of_suffix hrestFails (List.drop_suffix k rest) ?_ hstraddles hreads
        rw [List.length_drop]
        have := length_lead_target_beyond rest
        omega
    · omega

/-! ## Straddling in a part of a text -/

theorem Ending.isSome_read?_append {t : Text} (h : (Ending.read? t).isSome) (more : Text) :
    (Ending.read? (t ++ more)).isSome := by
  have cut (p : Char → Bool) {l l' : Text} {c : Char} (hl : l.dropWhile p = c :: l') :
      (l ++ more).dropWhile p = c :: (l' ++ more) := by
    rw [dropWhile_append_of_ne_nil (by simp [hl]), hl, List.cons_append]
  simp only [Ending.read?] at h ⊢
  split at h
  · next u hu => simp [cut _ hu]
  · next u hu =>
    rw [takeWhile_append_of_ne_nil (by simp [hu]), cut _ hu]
    split at h
    · simp at h
    · next hgap =>
      split at h
      · next v hv =>
        split at h
        · next w hw => simp [hgap, cut _ hv, cut _ hw]
        · simp at h
      · simp at h
  · simp at h

theorem beyond_append {rest : Text} (h : beyond rest ≠ []) (more : Text) :
    beyond (rest ++ more) = beyond rest ++ more := by
  have hblank : rest.dropWhile isBlank ≠ [] := by
    intro hnil
    simp [beyond, hnil] at h
  rw [beyond, dropWhile_append_of_ne_nil hblank, dropWhile_append_of_ne_nil h, beyond]

theorem TailReads.append {kind : ReferenceKind} {rest : Text} (h : TailReads kind rest)
    (more : Text) : TailReads kind (rest ++ more) := by
  rcases h with ⟨htarget, hend⟩ | ⟨hkind, hend⟩
  · have hne : beyond rest ≠ [] := by
      intro hnil
      simp [hnil, Ending.read?] at hend
    refine .inl ⟨fun hkind => ?_, ?_⟩
    · have hblank : rest.dropWhile isBlank ≠ [] := by
        intro hnil
        simp [hnil] at htarget
        exact absurd hkind htarget
      rw [dropWhile_append_of_ne_nil hblank, takeWhile_append_of_ne_nil hne]
      exact htarget hkind
    · rw [beyond_append hne]
      exact Ending.isSome_read?_append hend more
  · exact .inr ⟨hkind, Ending.isSome_read?_append hend more⟩

theorem tail?_append {t rest : Text} (h : tail? t = some rest) (more : Text) :
    tail? (t ++ more) = some (rest ++ more) := by
  unfold tail? at h
  split at h
  · next u hu =>
    obtain rfl := Option.some.inj h
    rw [tail?, dropWhile_append_of_ne_nil (by simp [hu]), hu]
    rfl
  · simp at h

theorem Straddles.append {rest : Text} (h : Straddles rest) (more : Text) :
    Straddles (rest ++ more) := by
  obtain ⟨hblank, v, ⟨front, rfl⟩, hlength, kind, hreads, hshort⟩ := h
  obtain ⟨hopens, inner, htail, hinner⟩ := reads_iff.1 hreads
  have hbeyond : beyond (front ++ v ++ more) = beyond (front ++ v) ++ more := by
    refine beyond_append ?_ more
    intro hnil
    simp [hnil] at hblank
  have hreadsMore : Reads kind (v ++ more) := reads_iff.2
    ⟨hopens.trans (List.prefix_append v more), _, tail?_append htail more, hinner.append more⟩
  unfold Straddles
  rw [hbeyond]
  refine ⟨?_, v ++ more, ⟨front, by simp⟩, by simpa using hlength, kind, hreadsMore, ?_⟩
  · rw [List.head?_append]
    cases hhead : (beyond (front ++ v)).head? <;> simp_all
  · intro inner' hinner'
    rw [tail?_append htail more] at hinner'
    obtain rfl := Option.some.inj hinner'
    simpa using hshort inner htail

theorem Straddled.append {t : Text} (h : Straddled t) (more : Text) : Straddled (t ++ more) := by
  obtain ⟨rest, ⟨front, rfl⟩, hstraddles⟩ := h
  exact ⟨rest ++ more, ⟨front, by simp⟩, hstraddles.append more⟩

theorem Straddled.of_infix {t u : Text} (h : Straddled u) (hpart : u <:+: t) : Straddled t := by
  obtain ⟨front, back, rfl⟩ := hpart
  exact (h.of_suffix (List.suffix_append front u)).append back

end Reference

/-! ## The scan that skips no opening -/

namespace Memory

/-- The memory without the openings that failed references rule out. -/
def forget (m : Memory) : Memory := { m with deadLink := 0, deadImage := 0 }

theorem forget_forget (m : Memory) : m.forget.forget = m.forget := rfl

theorem forget_fail (m : Memory) (kind : ReferenceKind) (length : Nat) :
    (m.fail kind length).forget = m.forget := by
  cases kind <;> rfl

theorem dead_forget (m : Memory) (kind : ReferenceKind) : m.forget.dead kind = 0 := by
  cases kind <;> rfl

theorem dead_spend (m : Memory) (closer : Closer) (kind : ReferenceKind) :
    (m.spend closer).dead kind = m.dead kind := by
  cases kind <;> rfl

theorem dead_advance (m : Memory) (count : Nat) (kind : ReferenceKind) :
    (m.advance count).dead kind = m.dead kind - count := by
  cases kind <;> rfl

/-- No opening that the memory rules out is one of a reference. -/
def RulesOut (m : Memory) (t : Text) : Prop :=
  ∀ kind, ∀ n < m.dead kind, ¬Reference.Reads kind (t.drop n)

theorem rulesOut_empty (t : Text) : empty.RulesOut t := by
  intro kind n hn
  cases kind <;> exact absurd hn (Nat.not_lt_zero n)

theorem RulesOut.spend {m : Memory} {t : Text} (h : m.RulesOut t) (closer : Closer) :
    (m.spend closer).RulesOut t :=
  fun kind n hn => h kind n (m.dead_spend closer kind ▸ hn)

theorem RulesOut.advance {m : Memory} {t : Text} (h : m.RulesOut t) (count : Nat) :
    (m.advance count).RulesOut (t.drop count) := by
  intro kind n hn
  rw [dead_advance] at hn
  rw [List.drop_drop]
  exact h kind (count + n) (by omega)

theorem RulesOut.fail {m : Memory} {t : Text} (h : m.RulesOut t) {kind : ReferenceKind}
    {length : Nat} (hlength : ∀ n < length, ¬Reference.Reads kind (t.drop n)) :
    (m.fail kind length).RulesOut t := by
  intro kind' n hn
  cases kind <;> cases kind'
  · exact hlength n hn
  · exact h .image n hn
  · exact h .link n hn
  · exact hlength n hn

end Memory

/-- The pieces of a text after the character `prev` when no opening is skipped: what failed
references rule out is forgotten before each piece, so a reference is tried at every opening that is
reached. -/
def piecesUnskippedFrom (memory : Memory) (prev : Option Char) (t : Text) : List Piece :=
  match t with
  | [] => []
  | c :: rest =>
    let (piece, memory) := Piece.first memory.forget prev c rest
    let source := piece.source
    piece :: piecesUnskippedFrom memory source.getLast? (rest.drop (source.length - 1))
termination_by t.length

/-- The pieces of a line when no opening is skipped. -/
def piecesUnskipped (t : Text) : List Piece := piecesUnskippedFrom .empty none t

/-- An attempt gives the same result with and without the memory of failed references, remembers the
same closers, and rules out only openings that fail. -/
structure AgreesUnskipped {α : Type} (t : Text) (attempt unskipped : α × Memory) : Prop where
  result : attempt.1 = unskipped.1
  forget : attempt.2.forget = unskipped.2.forget
  rulesOut : attempt.2.RulesOut t

namespace Piece

variable {m : Memory} {t : Text}

theorem delimited?_forget (m : Memory) (prev : Option Char) (t : Text) (d : Delimiter) :
    delimited? m.forget prev t d = (delimited? m prev t d).map id Memory.forget := by
  unfold delimited?
  rw [show m.forget.spent = m.spent from rfl]
  split_ifs
  · split <;> rfl
  · rfl

theorem rulesOut_delimited? (hm : m.RulesOut t) (prev : Option Char) (d : Delimiter) :
    (delimited? m prev t d).2.RulesOut t := by
  unfold Piece.delimited?
  split_ifs
  · split
    · exact hm
    · exact hm.spend _
  · exact hm

theorem firstDelimited?_agreesUnskipped (hm : m.RulesOut t) (prev : Option Char)
    (ds : List Delimiter) :
    AgreesUnskipped t (firstDelimited? m prev t ds) (firstDelimited? m.forget prev t ds) := by
  induction ds generalizing m with
  | nil => exact ⟨rfl, rfl, hm⟩
  | cons d rest ih =>
    have hrules := rulesOut_delimited? hm prev d
    rw [firstDelimited?, firstDelimited?, delimited?_forget]
    generalize Piece.delimited? m prev t d = attempt at hrules
    obtain ⟨piece, memory⟩ := attempt
    cases piece with
    | some piece => exact ⟨rfl, rfl, hrules⟩
    | none => exact ih hrules

theorem code?_agreesUnskipped (hm : m.RulesOut t) :
    AgreesUnskipped t (code? m t) (code? m.forget t) := by
  simp only [code?]
  rw [show m.forget.spent = m.spent from rfl]
  split_ifs
  · exact ⟨rfl, rfl, hm⟩
  · split
    · exact ⟨rfl, rfl, hm⟩
    · exact ⟨rfl, rfl, hm.spend _⟩

theorem reference?_agreesUnskipped (hm : m.RulesOut t) (ht : ¬Reference.Straddled t)
    {kind : ReferenceKind} (hopens : kind.mark ++ ['['] <+: t) :
    AgreesUnskipped t (reference? m kind t) (reference? m.forget kind t) := by
  have hmark : kind.mark <+: t := (List.prefix_append _ _).trans hopens
  unfold reference?
  rw [Memory.dead_forget, if_neg (Nat.lt_irrefl 0)]
  by_cases hdead : 0 < m.dead kind
  · have hfails : Reference.read? kind (t.drop kind.mark.length) = none := by
      by_contra h
      exact hm kind 0 hdead ⟨hmark, Option.isSome_iff_ne_none.2 h⟩
    rw [if_pos hdead, hfails]
    exact ⟨rfl, (m.forget.forget_fail kind _).symm, hm⟩
  · rw [if_neg hdead]
    cases hread : Reference.read? kind (t.drop kind.mark.length) with
    | some spelling => exact ⟨rfl, rfl, hm⟩
    | none =>
      have hfails : ¬Reference.Reads kind t := by
        rintro ⟨-, h⟩
        simp [hread] at h
      refine ⟨rfl, ?_, hm.fail fun n hn => Reference.not_reads_drop hfails hopens hn ht⟩
      rw [Memory.forget_fail, Memory.forget_fail, Memory.forget_forget]

theorem markup?_agreesUnskipped (hm : m.RulesOut t) (ht : ¬Reference.Straddled t)
    (prev : Option Char) : AgreesUnskipped t (markup? m prev t) (markup? m.forget prev t) := by
  unfold markup?
  split
  · exact ⟨rfl, rfl, hm⟩
  · next rest => exact reference?_agreesUnskipped hm ht ⟨rest, rfl⟩
  · next rest => exact reference?_agreesUnskipped hm ht ⟨rest, rfl⟩
  · exact code?_agreesUnskipped hm
  · exact firstDelimited?_agreesUnskipped hm prev _
  · exact ⟨rfl, rfl, hm⟩

theorem first_agreesUnskipped {c : Char} {rest : Text} (hm : m.RulesOut (c :: rest))
    (ht : ¬Reference.Straddled (c :: rest)) (prev : Option Char) :
    AgreesUnskipped (c :: rest) (first m prev c rest) (first m.forget prev c rest) := by
  obtain ⟨hresult, hforget, hrules⟩ := markup?_agreesUnskipped hm ht prev
  unfold first
  generalize markup? m prev (c :: rest) = attempt at hresult hforget hrules
  generalize markup? m.forget prev (c :: rest) = unskipped at hresult hforget
  obtain ⟨piece, memory⟩ := attempt
  obtain ⟨_, memory'⟩ := unskipped
  obtain rfl := hresult
  cases piece with
  | some piece => exact ⟨rfl, hforget, hrules⟩
  | none => exact ⟨rfl, hforget, hrules⟩

end Piece

theorem piecesFrom_eq_unskipped {m m' : Memory} {t : Text} (hm : m.RulesOut t)
    (hforget : m.forget = m'.forget) (ht : ¬Reference.Straddled t) (prev : Option Char) :
    piecesFrom m prev t = piecesUnskippedFrom m' prev t := by
  fun_induction piecesFrom m prev t generalizing m' with
  | case1 => rw [piecesUnskippedFrom]
  | case2 m prev c rest piece memory hfirst source =>
    rename_i ih
    obtain ⟨hresult, hmemory, hrules⟩ := Piece.first_agreesUnskipped hm ht prev
    have hheads := Piece.first_heads m prev c rest
    rw [hfirst] at hresult hmemory hrules hheads
    have hdrop : rest.drop (source.length - 1) = (c :: rest).drop source.length := by
      rw [← List.drop_succ_cons (a := c), Nat.sub_add_cancel (List.length_pos_of_ne_nil hheads.1)]
    rw [piecesUnskippedFrom, ← hforget]
    generalize Piece.first m.forget prev c rest = unskipped at hresult hmemory
    obtain ⟨_, memory'⟩ := unskipped
    obtain rfl : piece = _ := hresult
    refine congrArg (piece :: ·) (ih ?_ hmemory ?_)
    · rw [hdrop]
      exact hrules.advance source.length
    · rw [hdrop]
      exact fun h => ht (h.of_suffix (List.drop_suffix _ _))

theorem pieces_eq_piecesUnskipped {t : Text} (ht : ¬Reference.Straddled t) :
    pieces t = piecesUnskipped t :=
  piecesFrom_eq_unskipped (Memory.rulesOut_empty t) rfl ht none

theorem length_inner_lt_of_mem_piecesUnskippedFrom {m : Memory} {prev : Option Char} {t : Text}
    {piece : Piece} (h : piece ∈ piecesUnskippedFrom m prev t) : piece.inner.length < t.length := by
  fun_induction piecesUnskippedFrom m prev t with
  | case1 => simp at h
  | case2 m prev c rest piece' memory' hfirst source ih =>
    rcases List.mem_cons.1 h with rfl | h
    · have := Piece.length_inner_first_lt m.forget prev c rest
      rwa [hfirst] at this
    · have := ih h
      rw [List.length_drop] at this
      simp only [List.length_cons]
      omega

theorem inner_infix_of_mem_pieces {t : Text} {piece : Piece} (h : piece ∈ pieces t) :
    piece.inner <:+: t := by
  refine List.IsInfix.trans ?_ (source_infix_of_mem_pieces h)
  cases piece with
  | delimited d inner => exact ⟨d.text, d.text, rfl⟩
  | _ => exact List.nil_infix

namespace Run

/-- The runs of a text when no opening is skipped, inside delimited texts as well. -/
def ofTextUnskipped (t : Text) : List Run :=
  (piecesUnskipped t).attach.foldr (fun (piece : { piece // piece ∈ piecesUnskipped t }) rest =>
    have : piece.1.inner.length < t.length := length_inner_lt_of_mem_piecesUnskippedFrom piece.2
    consPiece piece.1 (ofTextUnskipped piece.1.inner) rest) []
termination_by t.length

theorem ofTextUnskipped_eq (t : Text) :
    ofTextUnskipped t =
      (piecesUnskipped t).foldr
        (fun piece rest => consPiece piece (ofTextUnskipped piece.inner) rest) [] := by
  rw [ofTextUnskipped]
  exact List.foldr_attach (l := piecesUnskipped t)
    (f := fun piece rest => consPiece piece (ofTextUnskipped piece.inner) rest) (b := [])

/-- **What failed references rule out.** If no reference straddles the end of a target, skipping the
openings that a failed reference rules out changes no run. -/
theorem ofText_eq_ofTextUnskipped {t : Text} (ht : ¬Reference.Straddled t) :
    ofText t = ofTextUnskipped t := by
  induction h : t.length using Nat.strong_induction_on generalizing t with
  | _ n ih =>
    rw [ofText_eq, ofTextUnskipped_eq, ← pieces_eq_piecesUnskipped ht]
    apply List.foldr_ext
    intro piece hpiece rest
    have hinner : ¬Reference.Straddled piece.inner := fun hs =>
      ht (hs.of_infix (inner_infix_of_mem_pieces hpiece))
    rw [ih _ (h ▸ length_inner_lt_of_mem_pieces hpiece) hinner rfl]

/-- The first opening fails and rules out the second, which would fail as well; the third lies
behind the failed target and is a link. -/
theorem ofText_eq_ofTextUnskipped_three_openings :
    ¬Reference.Straddled "[a](x[b](y [c](d)".toList ∧
      ofText "[a](x[b](y [c](d)".toList = ofTextUnskipped "[a](x[b](y [c](d)".toList :=
  have h : ¬Reference.Straddled "[a](x[b](y [c](d)".toList := by decide +kernel
  ⟨h, ofText_eq_ofTextUnskipped h⟩

/-- The failed target `x[b](` rules out the opening inside it, which is a link to `y`. -/
theorem ofText_ne_ofTextUnskipped :
    ofText "[a](x[b]( y)".toList ≠ ofTextUnskipped "[a](x[b]( y)".toList := by
  have hskipped : pieces "[a](x[b]( y)".toList = "[a](x[b]( y)".toList.map .literal := by
    decide +kernel
  have htried : piecesUnskipped "[a](x[b]( y)".toList =
      "[a](x".toList.map .literal ++ [.reference .link ⟨['b'], [' '], ['y'], none, []⟩] := by
    decide +kernel
  rw [ofText_eq, ofTextUnskipped_eq, hskipped, htried]
  simp [consPiece, consChar, ReferenceKind.run]

end Run

end TicketMarkup
