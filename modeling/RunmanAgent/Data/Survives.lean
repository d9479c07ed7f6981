import Mathlib

/-!
# What a list of writes leaves of one object

Each step of a list may delete an object and may then create it. `Survives creates deletes js p`
says that the object is there after the steps `js`, if `p` says whether it was there before. If some
step creates it, only the steps after that one matter (`survives_append_cons`); if none does, it has
to be there already (`survives_of_not_creates`).
-/

namespace RunmanAgent

variable {α : Type} {creates deletes : α → Prop} {j : α} {js js' : List α} {p : Prop}

def Survives (creates deletes : α → Prop) : List α → Prop → Prop
  | [], p => p
  | j :: js, p => Survives creates deletes js (creates j ∨ (p ∧ ¬deletes j))

theorem survives_append :
    Survives creates deletes (js ++ js') p ↔
      Survives creates deletes js' (Survives creates deletes js p) := by
  induction js generalizing p with
  | nil => rfl
  | cons j js ih => exact ih

theorem survives_of_not_creates (h : ∀ j ∈ js, ¬creates j) :
    Survives creates deletes js p ↔ p ∧ ∀ j ∈ js, ¬deletes j := by
  induction js generalizing p with
  | nil => simp [Survives]
  | cons j js ih =>
    rw [List.forall_mem_cons] at h
    rw [Survives, ih h.2, List.forall_mem_cons]
    simp only [h.1, false_or, and_assoc]

theorem survives_append_cons (hj : creates j) (h : ∀ j' ∈ js', ¬creates j') :
    Survives creates deletes (js ++ j :: js') p ↔ ∀ j' ∈ js', ¬deletes j' := by
  rw [survives_append, Survives, survives_of_not_creates h]
  simp only [hj, true_or, true_and]

theorem Survives.created (h : Survives creates deletes js p) :
    (∃ j ∈ js, creates j) ∨ (p ∧ ∀ j ∈ js, ¬deletes j) := by
  by_cases hcreates : ∃ j ∈ js, creates j
  · exact .inl hcreates
  · refine .inr ((survives_of_not_creates fun j hj hc => hcreates ⟨j, hj, hc⟩).mp h)

end RunmanAgent
