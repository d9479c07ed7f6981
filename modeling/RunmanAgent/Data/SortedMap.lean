import Mathlib

/-!
# Maps in the order of their keys

`SortedMap κ α` is an ordered map as a list of entries with increasing keys; iteration is over
that list. Everything is said through `get`: what an insertion or a removal does to it
(`get_insert`, `get_erase`), and that it determines the map (`SortedMap.ext_get`).
-/

namespace RunmanAgent

theorem SortedMap.sorted_nil {κ α : Type} [LinearOrder κ] :
    ([] : List (κ × α)).Pairwise fun a b => a.1 < b.1 := List.Pairwise.nil

/-- The entries, with increasing keys. -/
structure SortedMap (κ α : Type) [LinearOrder κ] where
  entries : List (κ × α) := []
  sorted : entries.Pairwise fun a b => a.1 < b.1 := by exact SortedMap.sorted_nil

namespace SortedMap

variable {κ α : Type} [LinearOrder κ] {m m' : SortedMap κ α} {k k' : κ} {v v' : α}

def empty : SortedMap κ α := {}

def keys (m : SortedMap κ α) : List κ := m.entries.map Prod.fst

def values (m : SortedMap κ α) : List α := m.entries.map Prod.snd

def get (m : SortedMap κ α) (k : κ) : Option α :=
  (m.entries.find? fun e => e.1 = k).map Prod.snd

def insert (m : SortedMap κ α) (k : κ) (v : α) : SortedMap κ α where
  entries := m.entries.filter (·.1 < k) ++ (k, v) :: m.entries.filter (k < ·.1)
  sorted := by
    rw [List.pairwise_append, List.pairwise_cons]
    refine ⟨m.sorted.filter _, ⟨fun e he => ?_, m.sorted.filter _⟩, fun e he e' he' => ?_⟩
    · simpa using (List.mem_filter.mp he).2
    · have hlt : e.1 < k := by simpa using (List.mem_filter.mp he).2
      rcases he' with _ | ⟨_, he'⟩
      · exact hlt
      · exact hlt.trans (by simpa using (List.mem_filter.mp he').2)

def erase (m : SortedMap κ α) (k : κ) : SortedMap κ α where
  entries := m.entries.filter (·.1 ≠ k)
  sorted := m.sorted.filter _

theorem eq_of_mem (h : (k, v) ∈ m.entries) (h' : (k, v') ∈ m.entries) : v = v' := by
  by_contra hne
  have hpair : ∀ a ∈ m.entries, ∀ b ∈ m.entries, a ≠ b → a.1 ≠ b.1 := by
    intro a ha b hb hab
    have hsym : Std.Symm fun a b : κ × α => a.1 ≠ b.1 := ⟨fun _ _ h => h.symm⟩
    exact (m.sorted.imp fun h => ne_of_lt h).forall ha hb hab
  exact hpair _ h _ h' (fun he => hne (congrArg Prod.snd he)) rfl

theorem get_eq_some : m.get k = some v ↔ (k, v) ∈ m.entries := by
  rw [get, Option.map_eq_some_iff]
  constructor
  · rintro ⟨⟨k', v'⟩, hfind, rfl⟩
    obtain rfl : k' = k := by simpa using List.find?_some hfind
    exact List.mem_of_find?_eq_some hfind
  · intro h
    have hsome : (m.entries.find? fun e => e.1 = k).isSome :=
      List.find?_isSome.mpr ⟨_, h, by simp⟩
    obtain ⟨⟨k', v'⟩, hfind⟩ := Option.isSome_iff_exists.mp hsome
    obtain rfl : k' = k := by simpa using List.find?_some hfind
    exact ⟨_, hfind, eq_of_mem (List.mem_of_find?_eq_some hfind) h⟩

theorem mem_values : v ∈ m.values ↔ ∃ k, m.get k = some v := by
  simp only [values, List.mem_map, get_eq_some]
  constructor
  · rintro ⟨⟨k, v'⟩, h, rfl⟩
    exact ⟨k, h⟩
  · rintro ⟨k, h⟩
    exact ⟨(k, v), h, rfl⟩

theorem mem_keys : k ∈ m.keys ↔ ∃ v, m.get k = some v := by
  simp only [keys, List.mem_map, get_eq_some]
  constructor
  · rintro ⟨⟨k', v⟩, h, rfl⟩
    exact ⟨v, h⟩
  · rintro ⟨v, h⟩
    exact ⟨(k, v), h, rfl⟩

theorem get_insert : (m.insert k v).get k' = if k' = k then some v else m.get k' := by
  ext v'
  rw [get_eq_some]
  have hmem : (k', v') ∈ (m.insert k v).entries ↔
      (k', v') = (k, v) ∨ ((k', v') ∈ m.entries ∧ k' ≠ k) := by
    simp only [insert, List.mem_append, List.mem_filter, List.mem_cons, decide_eq_true_eq]
    constructor
    · rintro (⟨h, hlt⟩ | h | ⟨h, hlt⟩)
      · exact .inr ⟨h, hlt.ne⟩
      · exact .inl h
      · exact .inr ⟨h, hlt.ne'⟩
    · rintro (h | ⟨h, hne⟩)
      · exact .inr (.inl h)
      · rcases hne.lt_or_gt with hlt | hlt
        · exact .inl ⟨h, hlt⟩
        · exact .inr (.inr ⟨h, hlt⟩)
  rw [hmem]
  split
  · rename_i heq
    simp [heq, eq_comm]
  · rename_i hne
    simp [hne, get_eq_some]

@[simp] theorem get_insert_self : (m.insert k v).get k = some v := by rw [get_insert, if_pos rfl]

theorem get_insert_ne (h : k' ≠ k) : (m.insert k v).get k' = m.get k' := by
  rw [get_insert, if_neg h]

theorem get_erase : (m.erase k).get k' = if k' = k then none else m.get k' := by
  ext v
  rw [get_eq_some]
  split
  · rename_i heq
    simp [erase, heq]
  · rename_i hne
    simp [erase, hne, get_eq_some]

@[simp] theorem get_erase_self : (m.erase k).get k = none := by rw [get_erase, if_pos rfl]

theorem get_erase_ne (h : k' ≠ k) : (m.erase k).get k' = m.get k' := by
  rw [get_erase, if_neg h]

theorem ext_get (h : ∀ k, m.get k = m'.get k) : m = m' := by
  have hnodup : ∀ m : SortedMap κ α, m.entries.Nodup := fun m =>
    m.sorted.imp fun hlt heq => hlt.ne (congrArg Prod.fst heq)
  have hmem : ∀ e, e ∈ m.entries ↔ e ∈ m'.entries := fun e => by
    rw [← get_eq_some (k := e.1) (v := e.2), ← get_eq_some (k := e.1) (v := e.2), h]
  have hperm := (List.perm_ext_iff_of_nodup (hnodup m) (hnodup m')).mpr hmem
  have hentries : m.entries = m'.entries :=
    hperm.eq_of_pairwise (fun a b _ _ hab hba => absurd hab hba.asymm) m.sorted m'.sorted
  cases m
  cases m'
  cases hentries
  rfl

theorem insert_of_get (h : m.get k = some v) : m.insert k v = m := by
  refine ext_get fun k' => ?_
  rw [get_insert]
  split
  · rename_i heq
    rw [heq, h]
  · rfl

end SortedMap

end RunmanAgent
