import Mathlib

/-!
# Classic BPF

The instructions of a filter that reads words, compares them and returns. A jump counts the
instructions it leaves out, so `run` walks along the program with the number of instructions that
are still to be left out.
-/

namespace RunmanAgent.Bpf

/-- `struct sock_filter`. -/
structure SockFilter where
  code : UInt16
  jt : UInt8
  jf : UInt8
  k : UInt32

def BPF_LD_W_ABS : UInt16 := 0x20
def BPF_JEQ_K : UInt16 := 0x15
def BPF_JSET_K : UInt16 := 0x45
def BPF_RET_K : UInt16 := 0x06

def stmt (code : UInt16) (k : UInt32) : SockFilter := ⟨code, 0, 0, k⟩

def jump (code : UInt16) (k : UInt32) (jt jf : UInt8) : SockFilter := ⟨code, jt, jf, k⟩

def jumps (code : UInt16) : Bool := code == BPF_JEQ_K || code == BPF_JSET_K

/-- Whether a jump with this code and operand is taken. -/
def holds (code : UInt16) (k acc : UInt32) : Bool :=
  if code = BPF_JEQ_K then acc == k else acc &&& k != 0

/-- The return value of the program on `data` (the word at an offset), started `skip` instructions
ahead with `acc` in the accumulator; `none` if it leaves its instructions. -/
def run (data : UInt32 → UInt32) : List SockFilter → (skip : Nat) → (acc : UInt32) → Option UInt32
  | [], _, _ => none
  | _ :: rest, skip + 1, acc => run data rest skip acc
  | ins :: rest, 0, acc =>
    if jumps ins.code then
      run data rest (if holds ins.code ins.k acc then ins.jt else ins.jf).toNat acc
    else if ins.code = BPF_LD_W_ABS then run data rest 0 (data ins.k)
    else if ins.code = BPF_RET_K then some ins.k
    else none

/-- Every jump lands on an instruction of the program. -/
def Inside : List SockFilter → Prop
  | [] => True
  | ins :: rest =>
    (jumps ins.code = true → ins.jt.toNat < rest.length ∧ ins.jf.toNat < rest.length) ∧ Inside rest

variable {data : UInt32 → UInt32} {acc k : UInt32} {p q : List SockFilter}

theorem run_load : run data (stmt BPF_LD_W_ABS k :: p) 0 acc = run data p 0 (data k) := rfl

theorem run_ret : run data (stmt BPF_RET_K k :: p) 0 acc = some k := rfl

theorem run_jump {code : UInt16} {jt jf : UInt8} (h : jumps code = true) :
    run data (jump code k jt jf :: p) 0 acc =
      run data p (if holds code k acc then jt else jf).toNat acc :=
  if_pos h

/-- A jump over `p`. -/
theorem run_append {n : Nat} (hn : n = p.length) : run data (p ++ q) n acc = run data q 0 acc := by
  subst hn
  induction p with
  | nil => rfl
  | cons ins p ih => exact ih

theorem inside_append (hp : Inside p) (hq : Inside q) : Inside (p ++ q) := by
  induction p with
  | nil => exact hq
  | cons ins p ih =>
    refine ⟨fun h => ?_, ih hp.2⟩
    have hlt := hp.1 h
    show _ < (p ++ q).length ∧ _ < (p ++ q).length
    rw [List.length_append]
    omega

end RunmanAgent.Bpf
