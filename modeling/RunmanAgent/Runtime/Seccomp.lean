import RunmanAgent.Data.Bpf

/-!
# The seccomp filter (`runtime/seccomp.rs`)

`program` assembles one block per architecture. A block denies the listed system calls by jumps
over its remaining tests, and the test for the architecture jumps over the whole block.
`assemble_correct`: while those distances fit a `u8`, the assembled program denies what the lists
say, and all its jumps stay inside.
-/

namespace RunmanAgent.Seccomp

open Bpf

def AUDIT_ARCH_X86_64 : UInt32 := 0xC000003E
def AUDIT_ARCH_I386 : UInt32 := 0x40000003
def AUDIT_ARCH_AARCH64 : UInt32 := 0xC00000B7
def AUDIT_ARCH_ARM : UInt32 := 0x40000028
def X32_SYSCALL_BIT : UInt32 := 0x40000000

def RET_ALLOW : UInt32 := 0x7fff0000
def RET_EPERM : UInt32 := 0x00050000 ||| 1

def X86_64 : List UInt32 := [246, 320, 175, 313, 176, 304]
def I386 : List UInt32 := [283, 128, 350, 129, 342]
def AARCH64 : List UInt32 := [104, 294, 105, 273, 106, 265]
def ARM : List UInt32 := [347, 128, 379, 129, 371]

/-- The offsets in `struct seccomp_data`. -/
def OFF_NR : UInt32 := 0
def OFF_ARCH : UInt32 := 4

def block (nrs : List UInt32) (denyX32 : Bool) : List SockFilter :=
  let k := nrs.length + denyX32.toNat
  [stmt BPF_LD_W_ABS OFF_NR] ++
    (if denyX32 then [jump BPF_JSET_K X32_SYSCALL_BIT (UInt8.ofNat k) 0] else []) ++
    (nrs.zipIdx denyX32.toNat).map (fun x => jump BPF_JEQ_K x.1 (UInt8.ofNat (k - x.2)) 0) ++
    [stmt BPF_RET_K RET_ALLOW, stmt BPF_RET_K RET_EPERM]

/-- An architecture with its deny list; `x32` refuses the x32 ABI. -/
structure Arch where
  arch : UInt32
  nrs : List UInt32
  x32 : Bool

/-- The loop of `program`. -/
def dispatch (arches : List Arch) : List SockFilter :=
  arches.flatMap fun a =>
    jump BPF_JEQ_K a.arch 0 (UInt8.ofNat (block a.nrs a.x32).length) :: block a.nrs a.x32

def assemble (arches : List Arch) : List SockFilter :=
  stmt BPF_LD_W_ABS OFF_ARCH :: (dispatch arches ++ [stmt BPF_RET_K RET_ALLOW])

def program (x86 : Bool) : List SockFilter :=
  assemble (if x86 then [⟨AUDIT_ARCH_X86_64, X86_64, true⟩, ⟨AUDIT_ARCH_I386, I386, false⟩]
    else [⟨AUDIT_ARCH_AARCH64, AARCH64, false⟩, ⟨AUDIT_ARCH_ARM, ARM, false⟩])

/-- What the lists say. -/
def Denied (arches : List Arch) (arch nr : UInt32) : Prop :=
  ∃ a ∈ arches, a.arch = arch ∧ (nr ∈ a.nrs ∨ a.x32 = true ∧ nr &&& X32_SYSCALL_BIT ≠ 0)

/-- The block can be left out by one jump. -/
def Arch.Fits (a : Arch) : Prop := (block a.nrs a.x32).length < 2 ^ 8

instance (a : Arch) : Decidable a.Fits := inferInstanceAs (Decidable (_ < _))

/-! ## A block -/

/-- The tests of a block: code and operand. -/
def Arch.tests (a : Arch) : List (UInt16 × UInt32) :=
  (if a.x32 then [(BPF_JSET_K, X32_SYSCALL_BIT)] else []) ++ a.nrs.map (BPF_JEQ_K, ·)

/-- A block after its load, by the number of tests that follow each test. -/
def verdict : List (UInt16 × UInt32) → List SockFilter
  | [] => [stmt BPF_RET_K RET_ALLOW, stmt BPF_RET_K RET_EPERM]
  | t :: ts => jump t.1 t.2 (UInt8.ofNat (ts.length + 1)) 0 :: verdict ts

variable {a : Arch} {arches : List Arch} {ts : List (UInt16 × UInt32)} {data : UInt32 → UInt32}
  {acc nr : UInt32} {rest : List SockFilter}

theorem length_verdict : (verdict ts).length = ts.length + 2 := by
  induction ts with
  | nil => rfl
  | cons t ts ih => simp [verdict, ih]

theorem verdict_map (nrs : List UInt32) (i : Nat) :
    (nrs.zipIdx i).map (fun x => jump BPF_JEQ_K x.1 (UInt8.ofNat (nrs.length + i - x.2)) 0) ++
      [stmt BPF_RET_K RET_ALLOW, stmt BPF_RET_K RET_EPERM] =
      verdict (nrs.map (BPF_JEQ_K, ·)) := by
  induction nrs generalizing i with
  | nil => rfl
  | cons nr nrs ih =>
    have hlen : (nr :: nrs).length + i = nrs.length + (i + 1) := by
      rw [List.length_cons]
      omega
    rw [hlen, List.zipIdx_cons, List.map_cons, List.cons_append, ih (i + 1), List.map_cons, verdict,
      List.length_map, show nrs.length + (i + 1) - i = nrs.length + 1 by omega]

theorem block_eq (a : Arch) :
    block a.nrs a.x32 = stmt BPF_LD_W_ABS OFF_NR :: verdict a.tests := by
  rw [block, List.append_assoc, verdict_map, Arch.tests]
  cases a.x32 <;> simp [verdict]

theorem tests_jump : ∀ t ∈ a.tests, jumps t.1 = true := by
  unfold Arch.tests
  cases a.x32 <;> simp [jumps]

theorem any_tests : (∃ t ∈ a.tests, holds t.1 t.2 nr = true) ↔
    nr ∈ a.nrs ∨ a.x32 = true ∧ nr &&& X32_SYSCALL_BIT ≠ 0 := by
  have hset : BPF_JSET_K ≠ BPF_JEQ_K := by decide
  unfold Arch.tests
  cases a.x32 <;> simp [holds, hset, or_comm]

theorem run_eperm (hfit : ts.length + 1 < 2 ^ 8) :
    run data (verdict ts ++ rest) (UInt8.ofNat (ts.length + 1)).toNat acc = some RET_EPERM := by
  rw [UInt8.toNat_ofNat_of_lt' hfit]
  clear hfit
  induction ts with
  | nil => rfl
  | cons t ts ih => exact ih

open Classical in
theorem run_verdict (hts : ∀ t ∈ ts, jumps t.1 = true) (hfit : ts.length < 2 ^ 8) :
    run data (verdict ts ++ rest) 0 acc =
      some (if ∃ t ∈ ts, holds t.1 t.2 acc = true then RET_EPERM else RET_ALLOW) := by
  induction ts with
  | nil => simp [verdict, run_ret]
  | cons t ts ih =>
    obtain ⟨ht, hts⟩ := List.forall_mem_cons.mp hts
    rw [List.length_cons] at hfit
    rw [verdict, List.cons_append, run_jump ht]
    by_cases hholds : holds t.1 t.2 acc = true
    · rw [if_pos hholds, run_eperm hfit, if_pos ⟨t, by simp, hholds⟩]
    · rw [if_neg hholds, UInt8.toNat_zero, ih hts (by omega)]
      simp [hholds]

theorem inside_verdict (hfit : ts.length < 2 ^ 8) : Inside (verdict ts) := by
  induction ts with
  | nil => exact ⟨fun h => absurd h (by decide), fun h => absurd h (by decide), trivial⟩
  | cons t ts ih =>
    rw [List.length_cons] at hfit
    refine ⟨fun _ => ?_, ih (by omega)⟩
    show (UInt8.ofNat (ts.length + 1)).toNat < (verdict ts).length ∧ 0 < (verdict ts).length
    rw [UInt8.toNat_ofNat_of_lt' hfit, length_verdict]
    omega

theorem Arch.Fits.tests_lt (h : a.Fits) : a.tests.length < 2 ^ 8 := by
  rw [Arch.Fits, block_eq, List.length_cons, length_verdict] at h
  omega

/-! ## The program -/

open Classical in
theorem run_dispatch (hfits : ∀ a ∈ arches, a.Fits) (hnodup : (arches.map (·.arch)).Nodup) :
    run data (dispatch arches ++ [stmt BPF_RET_K RET_ALLOW]) 0 acc =
      some (if Denied arches acc (data OFF_NR) then RET_EPERM else RET_ALLOW) := by
  induction arches with
  | nil => simp [dispatch, Denied, run_ret]
  | cons a arches ih =>
    obtain ⟨hfit, hfits⟩ := List.forall_mem_cons.mp hfits
    obtain ⟨hnew, hnodup⟩ := List.nodup_cons.mp hnodup
    rw [dispatch, List.flatMap_cons, ← dispatch, List.cons_append, List.cons_append,
      List.append_assoc, run_jump rfl]
    by_cases harch : acc = a.arch
    · rw [if_pos (by simp [holds, harch]), UInt8.toNat_zero, block_eq, List.cons_append, run_load,
        run_verdict tests_jump hfit.tests_lt]
      -- no later block is for the same architecture
      have hiff : Denied (a :: arches) acc (data OFF_NR) ↔
          ∃ t ∈ a.tests, holds t.1 t.2 (data OFF_NR) = true := by
        rw [any_tests]
        constructor
        · rintro ⟨b, hb, hbarch, hden⟩
          rcases hb with _ | ⟨_, hb⟩
          · exact hden
          · exact absurd (List.mem_map.mpr ⟨b, hb, hbarch.trans harch⟩) hnew
        · exact fun hden => ⟨a, by simp, harch.symm, hden⟩
      simp only [hiff]
    · rw [if_neg (by simpa [holds] using harch), run_append (UInt8.toNat_ofNat_of_lt' hfit),
        ih hfits hnodup]
      have hiff : Denied (a :: arches) acc (data OFF_NR) ↔ Denied arches acc (data OFF_NR) := by
        simp [Denied, Ne.symm harch]
      simp only [hiff]

theorem inside_dispatch (hfits : ∀ a ∈ arches, a.Fits) :
    Inside (dispatch arches ++ [stmt BPF_RET_K RET_ALLOW]) := by
  induction arches with
  | nil => exact ⟨fun h => absurd h (by decide), trivial⟩
  | cons a arches ih =>
    obtain ⟨hfit, hfits⟩ := List.forall_mem_cons.mp hfits
    have hblock : Inside (block a.nrs a.x32) := by
      rw [block_eq]
      exact ⟨fun h => absurd h (by decide), inside_verdict hfit.tests_lt⟩
    rw [dispatch, List.flatMap_cons, ← dispatch, List.cons_append, List.cons_append,
      List.append_assoc]
    refine ⟨fun _ => ?_, inside_append hblock (ih hfits)⟩
    show 0 < _ ∧ (UInt8.ofNat (block a.nrs a.x32).length).toNat < _
    rw [UInt8.toNat_ofNat_of_lt' hfit]
    simp only [List.length_append, List.length_cons]
    omega

/-- The assembled program returns `EPERM` for what the lists deny and `ALLOW` for the rest, and its
jumps stay inside. -/
theorem assemble_correct (hfits : ∀ a ∈ arches, a.Fits) (hnodup : (arches.map (·.arch)).Nodup)
    (data : UInt32 → UInt32) (acc : UInt32) :
    (run data (assemble arches) 0 acc = some RET_EPERM ↔
      Denied arches (data OFF_ARCH) (data OFF_NR)) ∧
    (run data (assemble arches) 0 acc = some RET_ALLOW ↔
      ¬ Denied arches (data OFF_ARCH) (data OFF_NR)) ∧
    Inside (assemble arches) := by
  classical
  have hne : RET_ALLOW ≠ RET_EPERM := by decide
  have hinside : Inside (assemble arches) :=
    ⟨fun h => absurd h (by decide), inside_dispatch hfits⟩
  rw [assemble, run_load, run_dispatch hfits hnodup]
  refine ⟨?_, ?_, hinside⟩
  · split <;> simp [*]
  · split <;> simp [*, hne.symm]

/-- `init_module` of the filter for `x86_64`. -/
theorem program_denies :
    run (fun off => if off = OFF_ARCH then AUDIT_ARCH_X86_64 else 175) (program true) 0 0 =
      some RET_EPERM :=
  (assemble_correct (by decide) (by decide) _ 0).1.mpr ⟨_, .head _, rfl, .inl (by decide)⟩

end RunmanAgent.Seccomp
