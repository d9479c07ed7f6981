import RunmanAgent.Wg.Binding

/-!
# Sizes of an instance, from the command to the limits

`InstanceSpec::build` (`src/model.rs`) raises the sizes of a create or reinstall command to a
floor and has no ceiling. The record keeps them; `provision` and `launch` (`src/runtime/mod.rs`)
and `create_ct` (`src/runtime/supervisor.rs`) compute the limits from them in `u64` and `u32`.
In a release build a product wraps, and a shift drops the bits that leave the word.
-/

namespace RunmanAgent

/-- `char::is_control`. -/
def isControl (c : Char) : Bool := c.toNat < 0x20 || (0x7f ≤ c.toNat && c.toNat < 0xa0)

def validatePassword (password : String) : Except Err Unit :=
  if password = "" then .error (.io "password is required")
  else if password.toList.any isControl then
    .error (.io "password must not contain control characters")
  else .ok ()

variable (uuid : UuidReader)

/-- Same floor as the Go agent: 1 vCPU, 128 MiB, 1 GiB. -/
def InstanceSpec.build (vmId : String) (cpu : Int32) (ramMb diskGb : Int64) (bandwidthMbps : Int32)
    (osImage rootPassword : String) : Except Err InstanceSpec := do
  if osImage = "" then throw (.io "os_image is required")
  validatePassword rootPassword
  let vmId ← (VmId.parse uuid vmId).mapError .io
  pure
    { vmId
      cpu := (max cpu.toInt 1).toNat
      ramMb := (max ramMb.toInt 128).toNat
      diskGb := (max diskGb.toInt 1).toNat
      bandwidthMbps := (max bandwidthMbps.toInt 0).toNat
      osImage, rootPassword }

/-! ## The limits -/

/-- The quota in `cpu.max`, for a period of 100000. -/
def cpuMax (cpus : Nat) : Nat := cpus * 100000 % 2 ^ 32

variable {uuid} {vmId : String} {cpu : Int32} {ramMb diskGb : Int64} {bandwidthMbps : Int32}
  {osImage rootPassword : String} {spec : InstanceSpec}

end RunmanAgent
