import TicketMarkup.Json.Record
import Mathlib.Data.List.Nodup
import Mathlib.Data.List.Perm.Basic

/-!
# The order of fields

Two objects with the same fields in different orders are the same value: sorting their keys gives
the same (`sortKeys_object_eq_of_perm`), as long as no name stands twice in them.
-/

namespace TicketMarkup.Json

variable {name : String} {fields fields' : List (String × Json)} {value : Json}

theorem mem_of_lastField? (h : lastField? name fields = some value) : (name, value) ∈ fields := by
  induction fields with
  | nil => simp [lastField?] at h
  | cons field rest ih =>
    obtain ⟨key, v⟩ := field
    rw [lastField?] at h
    cases hrest : lastField? name rest with
    | some later =>
      rw [hrest] at h ih
      exact List.mem_cons_of_mem _ (ih h)
    | none =>
      rw [hrest] at h
      obtain ⟨rfl, hv⟩ := Option.ite_none_right_eq_some.1 h
      rw [Option.some.inj hv]
      exact List.mem_cons_self

theorem sortKeysFields_eq_map (fields : List (String × Json)) :
    sortKeysFields fields = fields.map fun field => (field.1, field.2.sortKeys) := by
  induction fields with
  | nil => rfl
  | cons field rest ih => rw [sortKeysFields, ih, List.map_cons]

theorem sortKeysFields_append (fields fields' : List (String × Json)) :
    sortKeysFields (fields ++ fields') = sortKeysFields fields ++ sortKeysFields fields' := by
  simp only [sortKeysFields_eq_map, List.map_append]

/-- Fields with different names are sorted in one way. -/
theorem mergeSort_eq_of_perm (hperm : fields.Perm fields') (hnames : (fields.map Prod.fst).Nodup) :
    (fields.mergeSort fun f g => f.1 ≤ g.1) = fields'.mergeSort fun f g => f.1 ≤ g.1 := by
  have hsorted (l : List (String × Json)) :
      (l.mergeSort fun f g => f.1 ≤ g.1).Pairwise fun f g => f.1 ≤ g.1 := by
    have := @List.pairwise_mergeSort _ (fun f g : String × Json => decide (f.1 ≤ g.1))
      (fun f g h => by simpa using String.le_trans)
      (fun f g => by simpa using String.le_total f.1 g.1) l
    simpa using this
  apply List.Perm.eq_of_pairwise _ (hsorted fields) (hsorted fields')
  · exact ((List.mergeSort_perm fields _).trans hperm).trans (List.mergeSort_perm fields' _).symm
  · intro f g hf hg hfg hgf
    rw [List.mem_mergeSort] at hf hg
    exact List.inj_on_of_nodup_map hnames hf (hperm.mem_iff.2 hg) (String.le_antisymm hfg hgf)

theorem sortKeys_object_eq_of_perm (hperm : fields.Perm fields')
    (hnames : (fields.map Prod.fst).Nodup) :
    (object fields).sortKeys = (object fields').sortKeys := by
  rw [sortKeys, sortKeys, sortKeysFields_eq_map, sortKeysFields_eq_map,
    mergeSort_eq_of_perm (hperm.map _)]
  rwa [List.map_map]

theorem sortKeys_object_congr (h : sortKeysFields fields = sortKeysFields fields') :
    (object fields).sortKeys = (object fields').sortKeys := by
  rw [sortKeys, sortKeys, h]

theorem sortKeys_array_cons {item item' : Json} {items items' : List Json}
    (h : item.sortKeys = item'.sortKeys) (hs : (array items).sortKeys = (array items').sortKeys) :
    (array (item :: items)).sortKeys = (array (item' :: items')).sortKeys := by
  rw [sortKeys, sortKeys, array.injEq] at hs
  rw [sortKeys, sortKeys, sortKeysItems, sortKeysItems, h, hs]

end TicketMarkup.Json
