import Mathlib

/-!
# Sorted lists without duplicates

`sortedSet l` is the iteration order of an ordered set of the elements of `l`; it is also
`sort` followed by `dedup`.
-/

namespace RunmanAgent

variable {α : Type} [LinearOrder α]

def sortedSet (l : List α) : List α := l.dedup.insertionSort (· ≤ ·)

@[simp] theorem mem_sortedSet {l : List α} {a : α} : a ∈ sortedSet l ↔ a ∈ l := by
  rw [sortedSet, List.mem_insertionSort, List.mem_dedup]

theorem nodup_sortedSet (l : List α) : (sortedSet l).Nodup :=
  (List.perm_insertionSort _ _).nodup_iff.mpr (List.nodup_dedup l)

theorem pairwise_sortedSet (l : List α) : (sortedSet l).Pairwise (· < ·) := by
  have hle : (sortedSet l).Pairwise (· ≤ ·) := List.pairwise_insertionSort _ _
  exact (hle.and (nodup_sortedSet l)).imp fun h => lt_of_le_of_ne h.1 h.2

@[simp] theorem sortedSet_sortedSet (l : List α) : sortedSet (sortedSet l) = sortedSet l := by
  have hsorted : (sortedSet l).Pairwise (· ≤ ·) := List.pairwise_insertionSort _ _
  rw [sortedSet, (nodup_sortedSet l).dedup, hsorted.insertionSort_eq]

theorem sortedSet_congr {l m : List α} (h : ∀ a, a ∈ l ↔ a ∈ m) : sortedSet l = sortedSet m := by
  have hperm := (List.perm_ext_iff_of_nodup (nodup_sortedSet l) (nodup_sortedSet m)).mpr fun a => by
    rw [mem_sortedSet, mem_sortedSet, h a]
  exact hperm.eq_of_pairwise' (pairwise_sortedSet l) (pairwise_sortedSet m)

theorem length_sortedSet_le (l : List α) : (sortedSet l).length ≤ l.length := by
  rw [sortedSet, List.length_insertionSort]
  exact (List.dedup_sublist l).length_le

theorem length_sortedSet {l : List α} (h : l.Nodup) : (sortedSet l).length = l.length := by
  rw [sortedSet, List.length_insertionSort, h.dedup]

theorem sortedSet_eq_nil {l : List α} : sortedSet l = [] ↔ l = [] := by
  constructor
  · intro h
    refine List.eq_nil_iff_forall_not_mem.mpr fun a ha => ?_
    have hmem := mem_sortedSet.mpr ha
    rw [h] at hmem
    cases hmem
  · rintro rfl
    rfl

end RunmanAgent
