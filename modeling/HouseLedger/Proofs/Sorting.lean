import Mathlib.Data.List.Nodup
import Mathlib.Data.List.Perm.Basic
import Mathlib.Tactic

/-!
# Sorting and parting lists

`StableSort key xs ys` says that `ys` is the list `xs` in the order of a key, in which elements of
one key keep their order. Sorting by `List.mergeSort` is of this kind (`StableSort.mergeSort`).

Parting a list by a key and joining the parts again gives its elements, none of them lost and
none twice (`flatMap_filter_perm`).
-/

namespace HouseLedger

variable {α κ : Type} [DecidableEq κ] {key : α → κ}

/-- The elements in the order of their keys; those of one key keep their order. -/
structure StableSort [LE κ] (key : α → κ) (xs ys : List α) : Prop where
  perm : ys.Perm xs
  ordered : ys.Pairwise fun x y => key x ≤ key y
  stable : ∀ k, (ys.filter fun x => key x = k) = xs.filter fun x => key x = k

theorem StableSort.mergeSort [LE κ] [DecidableLE κ] (hrefl : ∀ k : κ, k ≤ k)
    (htrans : ∀ {k k' k'' : κ}, k ≤ k' → k' ≤ k'' → k ≤ k'')
    (htotal : ∀ k k' : κ, k ≤ k' ∨ k' ≤ k) (xs : List α) :
    StableSort key xs (xs.mergeSort fun x y => key x ≤ key y) := by
  have htrans' : ∀ x y z : α, decide (key x ≤ key y) = true → decide (key y ≤ key z) = true →
      decide (key x ≤ key z) = true := by
    intro x y z hxy hyz
    exact decide_eq_true (htrans (of_decide_eq_true hxy) (of_decide_eq_true hyz))
  have htotal' : ∀ x y : α, (decide (key x ≤ key y) || decide (key y ≤ key x)) = true := by
    intro x y
    rw [← Bool.decide_or]
    exact decide_eq_true (htotal (key x) (key y))
  have hperm := List.mergeSort_perm xs fun x y => decide (key x ≤ key y)
  refine ⟨hperm, (List.pairwise_mergeSort htrans' htotal' xs).imp of_decide_eq_true, fun k => ?_⟩
  -- The elements of one key are in order already, and so they stay a sublist.
  have hordered : (xs.filter fun x => key x = k).Pairwise fun x y =>
      decide (key x ≤ key y) = true := by
    refine List.pairwise_of_forall_mem_list fun x hx y hy => decide_eq_true ?_
    rw [of_decide_eq_true (List.mem_filter.mp hx).2, of_decide_eq_true (List.mem_filter.mp hy).2]
    exact hrefl k
  have hsublist := (List.sublist_mergeSort htrans' htotal' hordered List.filter_sublist).filter
    fun x => decide (key x = k)
  simp only [List.filter_filter, Bool.and_self] at hsublist
  exact (hsublist.eq_of_length (hperm.filter _).length_eq.symm).symm

/-- The parts of a list for all of its keys, one behind the other, are its elements. -/
theorem flatMap_filter_perm {keys : List κ} (hkeys : keys.Nodup) {xs : List α}
    (hxs : ∀ x ∈ xs, key x ∈ keys) :
    (keys.flatMap fun k => xs.filter fun x => key x = k).Perm xs := by
  induction keys generalizing xs with
  | nil =>
    rw [List.eq_nil_iff_forall_not_mem.mpr fun x hx => List.not_mem_nil (hxs x hx)]
    rfl
  | cons k keys ih =>
    obtain ⟨hk, hkeys⟩ := List.nodup_cons.mp hkeys
    -- The other keys part what the first one leaves.
    have hrest : (keys.flatMap fun k' => xs.filter fun x => key x = k') =
        keys.flatMap fun k' => (xs.filter fun x => !decide (key x = k)).filter fun x =>
          key x = k' := by
      refine List.flatMap_congr fun k' hk' => ?_
      rw [List.filter_filter]
      refine List.filter_congr fun x _ => ?_
      by_cases hx : key x = k'
      · have hne : k' ≠ k := fun heq => hk (heq ▸ hk')
        simp [hx, hne]
      · simp [hx]
    rw [List.flatMap_cons, hrest]
    refine .trans (.append_left _ (ih hkeys fun x hx => ?_)) (List.filter_append_perm _ xs)
    obtain ⟨hx, hne⟩ := List.mem_filter.mp hx
    exact (List.mem_cons.mp (hxs x hx)).resolve_left (by simpa using hne)

end HouseLedger
