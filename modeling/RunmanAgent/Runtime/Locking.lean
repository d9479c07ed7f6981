import RunmanAgent.Concurrency.Discipline
import RunmanAgent.Runtime.Effects
import RunmanAgent.Runtime.Ops

/-!
# The locking rules of the agent

`Act.guarded` says which lock an action needs: the files and the unit of an instance are
changed under its lock, the counters of running instances under the schedule lock. Every
task of the agent but the recovery follows these rules (`Op.follows_locks`). In a
discipline that includes them (`FollowsLocks`), what a lock protects stays as it is while
a task holds the lock: `stable_lock`, `stable_record`.
-/

namespace RunmanAgent

open Concurrency

/-- The lock an action needs is held by `p`. -/
def Act.guarded (p : Pid) (w : World) : Act → Prop
  | .writeRecord _ rec => w.locks (.vm rec.id) = some p
  | .writeRuntime id _ | .mkdir id | .makeDisk id _ | .prepareRoot id _ | .unlink id _
  | .rmdir id | .carry id _ | .removePid id | .systemdRun id | .killCt id | .terminate id
  | .writeTraffic .restore id _ => w.locks (.vm id) = some p
  | .writeTraffic _ _ _ | .setSchedule _ => w.locks .schedule = some p
  | _ => True

/-- Every permission of the discipline includes the locking rules. -/
class FollowsLocks (D : Discipline agent) : Prop where
  guarded : ∀ p e w, D.may p e w → e.guarded p w

theorem Act.apply_locks_of_ne {e : Act} {p me : Pid} {w : World} {i : Oracle} {k : LockId}
    (hne : p ≠ me) (hen : e.enabled w = true) (hk : w.locks k = some me) :
    (e.apply p w i).locks k = some me := by
  rcases apply_locks e p w i k with h | ⟨rfl, -⟩ | ⟨rfl, hp, -⟩
  · rw [h, hk]
  · simp [enabled, hk] at hen
  · rw [hk, Option.some.injEq] at hp
    exact absurd hp.symm hne

theorem Act.apply_record_of_guarded {e : Act} {p me : Pid} {w : World} {i : Oracle}
    {id : VmId} (hne : p ≠ me) (hg : e.guarded p w) (hk : w.locks (.vm id) = some me) :
    (e.apply p w i).record id = w.record id := by
  rcases apply_record e p w i id with h | ⟨ch, rec, rfl, rfl, -⟩ | ⟨rfl, -⟩
  · exact h
  · simp only [guarded, hk, Option.some.injEq] at hg
    exact absurd hg.symm hne
  · simp only [guarded, hk, Option.some.injEq] at hg
    exact absurd hg.symm hne

section Stable

variable {D : Discipline agent} {me : Pid}

theorem stable_lock (k : LockId) : Stable D me (fun w => w.locks k = some me) :=
  .of_step fun hk hne _ hen _ _ => Act.apply_locks_of_ne hne hen hk

theorem stable_record [FollowsLocks D] (id : VmId) (r : Option Record) :
    Stable D me (fun w => w.locks (.vm id) = some me ∧ w.record id = r) :=
  .of_step fun h hne _ hen hmay _ => ⟨Act.apply_locks_of_ne hne hen h.1,
    (Act.apply_record_of_guarded hne (FollowsLocks.guarded _ _ _ hmay) h.1).trans h.2⟩

end Stable

end RunmanAgent
