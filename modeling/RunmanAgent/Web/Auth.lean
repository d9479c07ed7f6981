import RunmanAgent.Concurrency.Discipline
import RunmanAgent.Data.AList
import RunmanAgent.Runtime.Net

/-!
# Logins and sessions of the management panel (`src/web/mod.rs`)

Each request is a program of its own. The tables of the panel are behind mutexes that are held
for one access only, and the password is verified in another thread, outside of them; so the
actions are the single accesses. A request whose client goes away is dropped: it takes no
further action.

Beside what the panel stores, the state keeps what the results speak about: the logins between
their check and their end, the wrong passwords that were evaluated, the logins that succeeded,
how often the password was changed, and the successful changes.
-/

namespace RunmanAgent.Web

open Concurrency Proc

def cookieName : String := "rm_session"

/-- Nanoseconds. -/
def second : Nat := 10 ^ 9

def sessionTtl : Nat := 12 * 3600 * second
def loginWindow : Nat := 600 * second
def loginMaxFailures : Nat := 5

/-- `to_canonical`: a mapped IPv4 address is an IPv4 address. -/
def toCanonical : IpAddr → IpAddr
  | .v6 a => if a / 2 ^ 32 = 0xffff then .v4 (a % 2 ^ 32) else .v6 a
  | .v4 a => .v4 a

/-- Who failed logins are counted against: an IPv4 address or an IPv6 /64. -/
def loginKey (ip : IpAddr) : IpAddr :=
  match toCanonical ip with
  | .v6 a => .v6 (a / 2 ^ 64 * 2 ^ 64)
  | .v4 a => .v4 a

/-! ## State and actions -/

structure Session where
  expires : Nat
  /-- The password it was authenticated with: how often it had been changed then. -/
  password : Nat
deriving DecidableEq

/-- A login that has passed the check. -/
structure Flight where
  key : IpAddr
  /-- When its password was found to be wrong. -/
  wrongAt : Option Nat := none
deriving DecidableEq

structure Change where
  /-- The token of the caller's own session. -/
  caller : Option String
  /-- The number of the new password. -/
  password : Nat
deriving DecidableEq

structure State where
  clock : Nat := 0
  webUser : String := "admin"
  webPasswordHash : String := ""
  sessions : AList (fun _ : String => Session) := ∅
  failures : AList (fun _ : IpAddr => List Nat) := ∅
  /-- How often the password has been changed. -/
  password : Nat := 0
  flights : AList (fun _ : Pid => Flight) := ∅
  /-- Wrong passwords that were evaluated: the client and when. -/
  wrong : List (IpAddr × Nat) := []
  /-- Logins that succeeded: the client and when. -/
  successes : List (IpAddr × Nat) := []
  changes : List Change := []

inductive Act where
  | checkFailures (key : IpAddr)
  | config
  | verify (key : Option IpAddr)
  | recordFailure (key : IpAddr)
  | clearFailures (key : IpAddr)
  | randomToken
  | insertSession (token : String) (password : Nat)
  | sessionValid (token : String)
  | removeSession (token : String)
  | hashPassword
  | updateHash (hash : String)
  | retainSession (caller : Option String) (password : Nat)

structure Input where
  now : Nat := 0
  /-- What `bcrypt::verify` says. -/
  verified : Bool := false
  fail : Option String := none
  token : String := ""
  hash : String := ""

namespace State

variable (s : State)

/-- The clock does not go back. -/
def time (i : Input) : Nat := max s.clock i.now

def failuresOf (key : IpAddr) : List Nat := (s.failures.lookup key).getD []

/-- The failures that still count. -/
def fresh (i : Input) (key : IpAddr) : List Nat :=
  (s.failuresOf key).filter fun t => s.time i - t < loginWindow

/-- `session_valid` drops the sessions that have expired and extends the one it finds. -/
def touch (now : Nat) (token : String) : AList (fun _ : String => Session) :=
  let live := s.sessions.retain fun _ session => now < session.expires
  match live.lookup token with
  | some session => live.insert token { session with expires := now + sessionTtl }
  | none => live

def step (p : Pid) (i : Input) : Act → State
  | .checkFailures key =>
    { s with
      failures := s.failures.insert key (s.fresh i key)
      flights := if (s.fresh i key).length < loginMaxFailures then s.flights.insert p ⟨key, none⟩
        else s.flights }
  | .config =>
    { s with flights := if s.webPasswordHash = "" then s.flights.erase p else s.flights }
  | .verify none => s
  | .verify (some key) =>
    if i.verified then s
    else { s with
      wrong := (key, s.time i) :: s.wrong
      flights := s.flights.insert p ⟨key, some (s.time i)⟩ }
  | .recordFailure key =>
    { s with
      failures := s.failures.insert key (s.failuresOf key ++ [s.time i])
      flights := s.flights.erase p }
  | .clearFailures key =>
    { s with
      failures := s.failures.erase key
      successes := (key, s.time i) :: s.successes
      flights := s.flights.erase p }
  | .insertSession token password =>
    { s with sessions := s.sessions.insert token ⟨s.time i + sessionTtl, password⟩ }
  | .sessionValid token => { s with sessions := s.touch (s.time i) token }
  | .removeSession token => { s with sessions := s.sessions.erase token }
  | .updateHash hash =>
    if i.fail.isSome then s
    else { s with webPasswordHash := hash, password := s.password + 1 }
  | .retainSession caller password =>
    { s with
      sessions := s.sessions.retain fun token _ => some token = caller
      changes := ⟨caller, password⟩ :: s.changes }
  | .randomToken | .hashPassword => s

def apply (p : Pid) (i : Input) (e : Act) : State := { s.step p i e with clock := s.time i }

end State

def machine : Machine State Input Act where
  enabled _ _ _ := true
  apply e p s i := s.apply p i e

@[simp] theorem machine_apply (e : Act) (p : Pid) (s : State) (i : Input) :
    machine.apply e p s i = s.apply p i e := rfl

/-! ## The requests -/

structure ApiError where
  code : Nat
  message : String
deriving DecidableEq

abbrev Handler := Proc State Input Act ApiError

/-- What a request reads of the configuration. -/
structure Config where
  webUser : String
  webPasswordHash : String
  password : Nat

def config : Handler Config :=
  read .config fun _ s _ => ⟨s.webUser, s.webPasswordHash, s.password⟩

def fallible {α : Type} (e : Act) (f : State → Input → α) : Handler α :=
  perform e fun _ s i =>
    match i.fail with
    | some msg => .error ⟨400, msg⟩
    | none => .ok (f s i)

def sessionCookie (token : String) (maxAge : Nat) : String :=
  s!"{cookieName}={token}; HttpOnly; SameSite=Strict; Path=/; Max-Age={maxAge}"

/-- The end of a login with the right password. -/
def signIn (key : IpAddr) (password : Nat) : Handler String := do
  run (.clearFailures key)
  let token ← read .randomToken fun _ _ i => i.token
  run (.insertSession token password)
  pure (sessionCookie token (sessionTtl / second))

def refuse (key : IpAddr) : Handler String := do
  run (.recordFailure key)
  fail ⟨401, "wrong username or password"⟩

/-- The part of a login after the check of the failures. -/
def authenticate (key : IpAddr) (username : String) : Handler String := do
  let cfg ← config
  if cfg.webPasswordHash = "" then
    fail ⟨503, "panel password not set: run \x60runman-agent set-password\x60"⟩
  else do
    let okPassword ← read (.verify (some key)) fun _ _ i => i.verified
    if okPassword && username == cfg.webUser then signIn key cfg.password else refuse key

def login (peer : IpAddr) (username : String) : Handler String := do
  let key := loginKey (toCanonical peer)
  let failed ← read (.checkFailures key) fun _ s i => (s.fresh i key).length
  if loginMaxFailures ≤ failed then fail ⟨429, "too many failed logins, try again later"⟩
  else authenticate key username

/-- `require_session` before the handler: the session and the `X-Runman` header. -/
def requireSession {α : Type} (cookie : Option String) (headerOk : Bool) (x : Handler α) :
    Handler α :=
  match cookie with
  | none => fail ⟨401, "not logged in"⟩
  | some token => do
    let valid ← read (.sessionValid token) fun _ s i =>
      ((s.touch (s.time i) token).lookup token).isSome
    if valid = false then fail ⟨401, "not logged in"⟩
    else if headerOk = false then fail ⟨403, "missing X-Runman header"⟩
    else x

def logout (cookie : Option String) : Handler Unit :=
  match cookie with
  | some token => run (.removeSession token)
  | none => pure ()

def changePassword (cookie : Option String) (newPassword : String) : Handler Unit :=
  if newPassword.utf8ByteSize < 8 then
    fail ⟨400, "new password must have at least 8 characters"⟩
  else do
    let _ ← config
    let ok ← read (.verify none) fun _ _ i => i.verified
    if ok = false then fail ⟨403, "current password is wrong"⟩
    else do
      let newHash ← fallible .hashPassword fun _ i => i.hash
      let password ← fallible (.updateHash newHash) fun s _ => s.password + 1
      run (.retainSession cookie password)

inductive Request where
  | login (peer : IpAddr) (username : String)
  | logout (cookie : Option String) (headerOk : Bool)
  | changePassword (cookie : Option String) (headerOk : Bool) (newPassword : String)
  /-- Any other request that needs a session. -/
  | other (cookie : Option String) (headerOk : Bool)

def Request.code : Request → Prog State Input Act Unit
  | .login peer username => Prog.bind (Web.login peer username) fun _ => .ret ()
  | .logout cookie headerOk =>
    Prog.bind (requireSession cookie headerOk (Web.logout cookie)) fun _ => .ret ()
  | .changePassword cookie headerOk newPassword =>
    Prog.bind (requireSession cookie headerOk (Web.changePassword cookie newPassword))
      fun _ => .ret ()
  | .other cookie headerOk =>
    Prog.bind (requireSession cookie headerOk (pure () : Handler Unit)) fun _ => .ret ()

/-- Any number of requests at once. -/
def pool (requests : Pid → Request) (s : State) : Pool State Input Act where
  mem := s
  procs p := (requests p).code

end RunmanAgent.Web
