import Mathlib

/-!
# Domain types (`src/model.rs`)

Values the protocol layer hands to the backends, and the errors the backends return.
-/

namespace RunmanAgent

/-- `n` in lower-case hexadecimal, `width` digits. -/
def hexDigits : (width n : Nat) → List Char
  | 0, _ => []
  | w + 1, n => hexDigits w (n / 16) ++ [Nat.digitChar (n % 16)]

/-- Platform-assigned instance identifier: a UUID. -/
structure VmId where
  uuid : BitVec 128
  deriving DecidableEq

/-- The canonical hyphenated form, which is what the agent uses in paths. -/
def VmId.asStr (id : VmId) : String :=
  let h := hexDigits 32 id.uuid.toNat
  String.ofList (h.take 8 ++ ['-'] ++ (h.drop 8).take 4 ++ ['-'] ++ (h.drop 12).take 4 ++ ['-'] ++
    (h.drop 16).take 4 ++ ['-'] ++ h.drop 20)

theorem hexDigits_inj {k n m : Nat} (hn : n < 16 ^ k) (hm : m < 16 ^ k)
    (h : hexDigits k n = hexDigits k m) : n = m := by
  have hdigit : ∀ a < 16, ∀ b < 16, Nat.digitChar a = Nat.digitChar b → a = b := by decide
  induction k generalizing n m with
  | zero => omega
  | succ k ih =>
    rw [Nat.pow_succ] at hn hm
    obtain ⟨hinit, hlast⟩ := List.append_inj' h rfl
    have hquot : n / 16 = m / 16 := ih (by omega) (by omega) hinit
    have hrem : n % 16 = m % 16 :=
      hdigit _ (Nat.mod_lt _ (by decide)) _ (Nat.mod_lt _ (by decide)) (List.cons.inj hlast).1
    omega

theorem hexDigits_length : ∀ width n, (hexDigits width n).length = width
  | 0, _ => rfl
  | w + 1, n => by rw [hexDigits, List.length_append, hexDigits_length w, List.length_singleton]

theorem uuid_groups (l : List Char) : l = l.take 8 ++ ((l.drop 8).take 4 ++
    ((l.drop 12).take 4 ++ ((l.drop 16).take 4 ++ l.drop 20))) := by
  have hcut : ∀ n, (l.drop n).take 4 ++ l.drop (n + 4) = l.drop n := fun n => by
    rw [← List.drop_drop, List.take_append_drop]
  rw [hcut 16, hcut 12, hcut 8, List.take_append_drop]

theorem VmId.asStr_injective : Function.Injective VmId.asStr := by
  intro id id' h
  have hlist := String.ofList_injective h
  have hlen := hexDigits_length 32 id.uuid.toNat
  have hlen' := hexDigits_length 32 id'.uuid.toNat
  have hlt := id.uuid.isLt
  have hlt' := id'.uuid.isLt
  have huuid : hexDigits 32 id.uuid.toNat = hexDigits 32 id'.uuid.toNat → id = id' := fun hd => by
    have hnat := hexDigits_inj (k := 32) (by omega) (by omega) hd
    cases id
    cases id'
    exact congrArg _ (BitVec.eq_of_toNat_eq hnat)
  generalize hexDigits 32 id.uuid.toNat = l at hlist hlen huuid
  generalize hexDigits 32 id'.uuid.toNat = l' at hlist hlen' huuid
  -- the groups between the hyphens have the same lengths on both sides
  obtain ⟨h20, hlast⟩ := List.append_inj' hlist (by simp [hlen, hlen'])
  obtain ⟨h16, hfour⟩ := List.append_inj' (List.append_inj' h20 rfl).1 (by simp [hlen, hlen'])
  obtain ⟨h12, hthree⟩ := List.append_inj' (List.append_inj' h16 rfl).1 (by simp [hlen, hlen'])
  obtain ⟨h8, htwo⟩ := List.append_inj' (List.append_inj' h12 rfl).1 (by simp [hlen, hlen'])
  have hone := (List.append_inj' h8 rfl).1
  exact huuid (by rw [uuid_groups l, uuid_groups l', hone, htwo, hthree, hfour, hlast])

structure InstanceSpec where
  vmId : VmId
  cpu : Nat
  ramMb : Nat
  diskGb : Nat
  /-- 0 = unlimited. -/
  bandwidthMbps : Nat
  osImage : String
  rootPassword : String
  deriving DecidableEq

inductive L4Proto where
  | tcp
  | udp
  deriving DecidableEq

def L4Proto.asStr : L4Proto → String
  | .tcp => "tcp"
  | .udp => "udp"

structure PortForward where
  vmId : VmId
  proto : L4Proto
  hostPort : Nat
  guestPort : Nat
  description : String
  deriving DecidableEq

/-- Owner's choices about which images are offered, and in what order. -/
structure ImageSettings where
  order : List String := []
  /-- Ids not offered for new instances. -/
  disabled : List String := []
  deriving DecidableEq

/-! ## Errors -/

/-- Errors of the runtime. `io` stands for a system call, a helper process or a parser
that failed, with its own text; `context` is `Context::context`. -/
inductive Err where
  | imageDisabled (osImage : String)
  | invalidImageId (id : String)
  | imageNotAvailable (id : String)
  /-- `meta.json` of an image cannot be read or parsed. -/
  | imageMeta (text : String)
  | noFreeSlot
  | noFreeAddress (subnet : String)
  | ipv6PrefixTooSmall
  | instanceNotFound (id : VmId)
  | didNotStart (log : String)
  | portForwarded (hostPort : Nat) (proto : L4Proto)
  | portUsedByHost (hostPort : Nat) (proto : L4Proto)
  | forwardLimit (id : VmId) (count max : Nat)
  | watcher (text : String)
  | unsupportedStopSignal (name : String)
  | linkReadback (hostIf : String)
  | io (text : String)
  | context (text : String) (cause : Err)
  deriving DecidableEq

/-- `{:?}` of a string without characters that need escaping. -/
def debugStr (s : String) : String := "\"" ++ s ++ "\""

end RunmanAgent
