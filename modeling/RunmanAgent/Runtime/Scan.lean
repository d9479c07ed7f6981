import RunmanAgent.Runtime.Triples

/-!
# Scans of the records under the allocation lock

A create looks for a free index and the image collection for the layers in use, both by
reading every record while they hold the allocation lock. As long as no other task writes
a record with a new value of the field they look for (`KeepsField`), and the scan reads a
record in every instance directory (`ReadsRecords`), they know that field of the record last
written to each directory until they release the lock.
-/

namespace RunmanAgent

open Concurrency

section Scan

variable {D : Discipline agent} {duty : Pid → Act → World → Prop} {me : Pid} {β : Type}
  {g : Record → β} {K : World → Prop} {seen : List β} {left : List VmId}

/-- A record is written with the value of `g` it had, or under the allocation lock. -/
class KeepsField (D : Discipline agent) (g : Record → β) : Prop where
  keeps : ∀ p ch rec w, D.may p (.writeRecord ch rec) w →
    (∃ old, w.lastRecord rec.id = some old ∧ g old = g rec) ∨ Holds p .alloc w

/-- Under the allocation lock, `me` reads a record in every instance directory. -/
def ReadsRecords (D : Discipline agent) (me : Pid) : Prop :=
  ∀ id w i, D.ok me (.query (.load id)) w i → Holds me .alloc w →
    ∀ rec, w.lastRecord id = some rec → w.readRecord id i = .ok (some rec)

/-- `me` holds the allocation lock; the record last written to a directory has its `g` in
`seen`, or belongs to one of the instances `left`. `K` is what else is known. -/
structure Scanning (me : Pid) (g : Record → β) (K : World → Prop) (seen : List β)
    (left : List VmId) (w : World) : Prop where
  kept : K w
  alloc : Holds me .alloc w
  covers : ∀ id rec, w.lastRecord id = some rec → g rec ∈ seen ∨ id ∈ left

variable [hD : KeepsField D g] [hK : Stable D me K]

instance stable_scanning : Stable D me (Scanning me g K seen left) where
  keep w w' h hother := by
    have hkept := hK.keep w w' h.kept hother
    obtain ⟨p, e, i, hne, -, hen, hmay, -⟩ := hother
    refine ⟨hkept, Act.apply_locks_of_ne hne hen h.alloc, fun id rec hrec => ?_⟩
    rcases e.apply_lastRecord p w i id with hsame | ⟨ch, r, rfl, rfl, hwritten⟩ | hgone
    · exact h.covers id rec (hsame ▸ hrec)
    · rw [agent_apply, hwritten, Option.some.injEq] at hrec
      subst hrec
      rcases hD.keeps p ch r w hmay with ⟨old, hold, hg⟩ | hp
      · exact hg ▸ h.covers _ old hold
      · have heq : me = p := Option.some.inj (h.alloc.symm.trans hp)
        exact absurd heq.symm hne
    · rw [agent_apply, hgone] at hrec
      cases hrec

theorem Scanning.apply {w : World} (h : Scanning me g K seen left w) {e : Act} {i : Oracle}
    (hK : K (e.apply me w i)) (hw : ∀ ch rec, e ≠ .writeRecord ch rec)
    (hr : e ≠ .release .alloc) : Scanning me g K seen left (e.apply me w i) := by
  refine ⟨hK, holds_apply hr h.alloc, fun id rec hrec => ?_⟩
  rcases e.apply_lastRecord me w i id with hsame | ⟨ch, r, he, -, -⟩ | hgone
  · exact h.covers id rec (hsame ▸ hrec)
  · exact absurd he (hw ch r)
  · rw [hgone] at hrec
    cases hrec

/-- What one read of the scan adds. -/
def readField (g : Record → β) : Except Err (Option Record) → List β
  | .ok (some rec) => [g rec]
  | _ => []

theorem triple_scanLoad (hF : FreeDuty duty me)
    (hR : ReadsRecords D me) (n : VmId) :
    Triple D duty me (Scanning me g K seen (n :: left)) (load n)
      (fun r => Scanning me g K (seen ++ readField g r) left) := by
  refine .perform fun w i _ hs _ hok => ?_
  refine ⟨hF _ w trivial, hs.kept, hs.alloc, fun id rec hrec => ?_⟩
  rcases hs.covers id rec hrec with h | h
  · exact .inl (List.mem_append_left _ h)
  · rcases List.mem_cons.mp h with rfl | h
    · have hread := hR id w i hok hs.alloc rec hrec
      exact .inl (List.mem_append_right _ (by simp [hread, readField]))
    · exact .inr h

theorem triple_loadAll (hF : FreeDuty duty me)
    (hR : ReadsRecords D me) (names : List VmId) :
    ∀ seen, Triple D duty me (Scanning me g K seen names) (loadAll names)
      (ends (fun recs => Scanning me g K (seen ++ recs.map g) []) (fun _ _ => False)) := by
  induction names with
  | nil => exact fun _ => .ret fun _ _ h => by simpa using h
  | cons n names ih =>
    intro seen
    refine .attemptBind (triple_scanLoad hF hR n) fun r => ?_
    refine .procBind (ih _) fun rest => ?_
    split
    all_goals
      exact .ret fun _ _ h => by simpa [readField] using h

def ListingFails (D : Discipline agent) (me : Pid) : Prop :=
  ∃ w i, D.ok me (.query .readDir) w i ∧ i.fail ≠ none

theorem triple_records (hF : FreeDuty duty me)
    (hR : ReadsRecords D me) :
    Triple D duty me (fun w => K w ∧ Holds me .alloc w) records
      (ends (fun recs => Scanning me g K (recs.map g) [])
        (fun _ w => (K w ∧ Holds me .alloc w) ∧ ListingFails D me)) := by
  refine .procBind (R := fun names => Scanning me g K [] names) ?_ fun names => ?_
  · refine .perform fun w i _ hk _ hok => ?_
    refine ⟨hF _ w trivial, ?_⟩
    show ends _ _ (do i.check; pure (w.listDir i)) w
    cases hi : i.fail with
    | some text =>
      have hcheck : i.check = .error (.io text) := by rw [Oracle.check, hi]
      rw [hcheck]
      exact ⟨hk, w, i, hok, by simp [hi]⟩
    | none =>
      have hcheck : i.check = .ok () := by rw [Oracle.check, hi]
      rw [hcheck]
      exact ⟨hk.1, hk.2, fun id rec hrec => .inr (mem_listDir hrec i)⟩
  · exact (triple_loadAll hF hR names []).imp (fun _ _ _ h => by simpa using h)
      fun _ _ _ h => h.elim

/-- `me` holds both locks of a create. -/
def Allocating (me : Pid) (id : VmId) (w : World) : Prop :=
  Holds me (.vm id) w ∧ Holds me .alloc w

instance stable_allocating (id : VmId) : Stable D me (Allocating me id) := Stable.and

theorem triple_alloc {α : Type} (hF : FreeDuty duty me)
    (hacquire : ∀ w i, K w → K ((Act.acquire .alloc).apply me w i))
    (hrelease : ∀ w i, K w → K ((Act.release .alloc).apply me w i)) {x : Agent α}
    (hx : Triple D duty me (fun w => K w ∧ Holds me .alloc w) x
      (fun _ w => K w ∧ Holds me .alloc w)) :
    Triple D duty me K (Proc.bracket (.acquire .alloc) (.release .alloc) x) (fun _ => K) := by
  refine .bracket (B := fun w => K w ∧ Holds me .alloc w)
    (R := fun _ w => K w ∧ Holds me .alloc w) ?_ hx (fun _ => ?_)
  · refine .perform fun w i _ hk _ _ => ?_
    refine ⟨hF _ w trivial, hacquire w i hk, ?_⟩
    simp [agent, Act.apply, Act.check, Act.perform, Holds]
  · exact .perform fun w i _ hk _ _ => ⟨hF _ w trivial, hrelease w i hk.1⟩

end Scan

end RunmanAgent
