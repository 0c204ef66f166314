import TicketMarkup.Text.Basic

/-!
# Code spans

A code span opens with a run of backticks and ends at the next run of the same length. Its text is
taken as it stands, shorter and longer runs included.
-/

namespace TicketMarkup.CodeSpan

/-- The number of backticks at the head of a text. -/
def tickCount (t : Text) : Nat := (t.takeWhile (· == '`')).length

/-- The backticks at the head of a text are as many as stand there before another character. -/
theorem tickCount_eq_iff {n : Nat} {t : Text} :
    tickCount t = n ↔ List.replicate n '`' <+: t ∧ (t.drop n).head? ≠ some '`' := by
  unfold tickCount
  induction t generalizing n with
  | nil => cases n <;> simp
  | cons c rest ih =>
    by_cases hc : c = '`'
    · cases n with
      | zero => simp [hc]
      | succ n => simp [hc, List.replicate_succ, List.cons_prefix_cons, ih]
    · cases n with
      | zero => simp [hc]
      | succ n => simp [hc, List.replicate_succ, List.cons_prefix_cons, Ne.symm hc]

/-- The part of a text before the first run of exactly `ticks` backticks; `fresh` says that the
character before the text is no backtick. -/
def inner? (ticks : Nat) (fresh : Bool) (t : Text) : Option Text :=
  match t with
  | [] => none
  | c :: rest =>
    if fresh && tickCount (c :: rest) == ticks then some []
    else (inner? ticks (c != '`') rest).map (c :: ·)

end TicketMarkup.CodeSpan
