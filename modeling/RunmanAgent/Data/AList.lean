import Mathlib

/-!
# Retaining and counting entries of an association list

`AList.retain keep s` keeps the entries that pass the test, as `HashMap::retain` does. The
number of entries with some property changes by one where an entry is inserted or erased.
-/

namespace AList

variable {α : Type} [DecidableEq α] {β : α → Type}

/-- The entries that pass the test. -/
def retain (keep : ∀ a, β a → Bool) (s : AList β) : AList β where
  entries := s.entries.filter fun e => keep e.1 e.2
  nodupKeys := List.NodupKeys.sublist List.filter_sublist s.nodupKeys

theorem lookup_retain (keep : ∀ a, β a → Bool) (s : AList β) (a : α) :
    (s.retain keep).lookup a = (s.lookup a).filter (keep a) := by
  ext b
  have hmem : b ∈ (s.retain keep).lookup a ↔ b ∈ s.lookup a ∧ keep a b = true := by
    rw [mem_lookup_iff, mem_lookup_iff]
    simp [retain]
  simpa [Option.filter_eq_some_iff] using hmem

theorem erase_of_lookup_eq_none {s : AList β} {a : α} (h : s.lookup a = none) : s.erase a = s :=
  AList.ext (List.kerase_of_notMem_keys (lookup_eq_none.mp h))

theorem countP_entries_insert (q : Sigma β → Bool) (s : AList β) (a : α) (b : β a) :
    (s.insert a b).entries.countP q =
      (if q ⟨a, b⟩ = true then 1 else 0) + (s.erase a).entries.countP q := by
  rw [entries_insert, List.countP_cons, Nat.add_comm]
  rfl

theorem countP_entries_of_lookup {s : AList β} {a : α} {b : β a} (h : s.lookup a = some b)
    (q : Sigma β → Bool) :
    s.entries.countP q = (if q ⟨a, b⟩ = true then 1 else 0) + (s.erase a).entries.countP q := by
  have hmem : a ∈ s.entries.keys := lookup_isSome.mp (Option.isSome_iff_exists.mpr ⟨b, h⟩)
  obtain ⟨b', l₁, l₂, -, heq, herase⟩ := List.exists_of_kerase hmem
  have hb : b' = b := by
    have hin : (⟨a, b'⟩ : Sigma β) ∈ s.entries := heq ▸ List.mem_append_right _ (.head _)
    exact Option.some.inj ((mem_lookup_iff.mpr hin).symm.trans h)
  subst hb
  have hentries : (s.erase a).entries = l₁ ++ l₂ := herase
  rw [hentries, heq, List.countP_append, List.countP_cons, List.countP_append]
  omega

end AList
