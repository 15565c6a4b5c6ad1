import Mathlib.Data.List.Nodup

/-!
# Sorted by a text

What is shown in the order of a text, such as a code or the key of an entry, comes in ascending
order, and in strictly ascending order where no text comes twice. Then the order in which it was
collected does not show.
-/

namespace ShortLinks

variable {α : Type} {l l' : List α}

/-- What is sorted by a text is in the order of the texts. -/
theorem pairwise_le_mergeSort (text : α → String) (l : List α) :
    (l.mergeSort fun a b => decide (text a ≤ text b)).Pairwise fun a b => text a ≤ text b := by
  refine (List.pairwise_mergeSort (fun a b c hab hbc => ?_) (fun a b => ?_) l).imp (by simp)
  · simp only [decide_eq_true_eq] at hab hbc ⊢
    exact String.le_trans hab hbc
  · simpa using String.le_total (text a) (text b)

/-- Where no text comes twice, the order is strict. -/
theorem pairwise_lt_mergeSort (text : α → String) (h : (l.map text).Nodup) :
    (l.mergeSort fun a b => decide (text a ≤ text b)).Pairwise fun a b => text a < text b := by
  have hdistinct : ((l.mergeSort fun a b => decide (text a ≤ text b)).map text).Nodup :=
    ((List.mergeSort_perm _ _).map text).nodup_iff.2 h
  rw [List.Nodup, List.pairwise_map] at hdistinct
  refine (pairwise_le_mergeSort text l).imp₂ (fun a b hle hne => ?_) hdistinct
  rw [← String.not_le]
  exact fun hge => hne (String.le_antisymm hle hge)

/-- Where a text tells elements apart, sorting forgets the order they had. -/
theorem mergeSort_congr (text : α → String)
    (h : ∀ a ∈ l, ∀ b ∈ l, text a = text b → a = b) (hperm : l.Perm l') :
    (l.mergeSort fun a b => decide (text a ≤ text b)) =
      l'.mergeSort fun a b => decide (text a ≤ text b) := by
  refine List.Perm.eq_of_pairwise (fun a b ha hb hab hba => ?_) (pairwise_le_mergeSort text l)
    (pairwise_le_mergeSort text l')
    ((List.mergeSort_perm _ _).trans (hperm.trans (List.mergeSort_perm _ _).symm))
  have ha := (List.mergeSort_perm _ _).mem_iff.1 ha
  have hb := hperm.mem_iff.2 ((List.mergeSort_perm _ _).mem_iff.1 hb)
  exact h a ha b hb (String.le_antisymm hab hba)

/-- A list in strictly ascending order is told by its members. -/
theorem eq_of_pairwise_lt {text : α → String} (h : l.Pairwise fun a b => text a < text b)
    (h' : l'.Pairwise fun a b => text a < text b) (hmem : ∀ a, a ∈ l ↔ a ∈ l') : l = l' := by
  have hnodup {l : List α} (h : l.Pairwise fun a b => text a < text b) : l.Nodup := by
    apply h.imp
    rintro a _ hlt rfl
    exact String.lt_irrefl (text a) hlt
  have hperm : l.Perm l' := (List.perm_ext_iff_of_nodup (hnodup h) (hnodup h')).2 hmem
  exact hperm.eq_of_pairwise (fun _ _ _ _ hlt hgt => absurd hgt (String.lt_asymm hlt)) h h'

end ShortLinks
