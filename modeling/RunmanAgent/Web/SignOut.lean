import RunmanAgent.Web.Auth

/-!
# A new password signs everybody else out

`change_password` replaces the hash and then drops every session but the caller's. A login reads
the hash, verifies the password against it in another thread and inserts its session later; so a
login that was in progress leaves a session that the old password opened. It does not if a login
only inserts its session while the password that it has verified is still the configured one
(`StillCurrent`, `changed_password_signs_out`).
-/

namespace RunmanAgent.Web

open Concurrency Proc

/-- A session is inserted while its password is the configured one. -/
def StillCurrent (_ : Pid) (e : Act) (s : State) (_ : Input) : Prop :=
  match e with
  | .insertSession _ password => password = s.password
  | _ => True

/-- Every session is the caller's of a change, or it was opened with the password of that change
or a later one. -/
def SignedOut (s : State) : Prop :=
  ∀ c ∈ s.changes, ∀ token session, s.sessions.lookup token = some session →
    some token = c.caller ∨ c.password ≤ session.password

structure Inv (s : State) : Prop where
  signedOut : SignedOut s
  past : ∀ c ∈ s.changes, c.password ≤ s.password

/-- The number of the new password is one that has been set. -/
def MaySet (_ : Pid) (e : Act) (s : State) : Prop :=
  match e with
  | .retainSession _ password => password ≤ s.password
  | _ => True

theorem lookup_touch {s : State} {now : Nat} {token token' : String} {session : Session}
    (h : (s.touch now token').lookup token = some session) :
    ∃ old, s.sessions.lookup token = some old ∧ old.password = session.password := by
  have hlive : ∀ {session},
    (s.sessions.retain fun _ session => now < session.expires).lookup token =
      some session → s.sessions.lookup token = some session := by
    intro session hl
    rw [AList.lookup_retain] at hl
    exact (Option.filter_eq_some_iff.mp hl).1
  simp only [State.touch] at h
  split at h
  · rename_i old hold
    by_cases heq : token = token'
    · subst heq
      rw [AList.lookup_insert] at h
      cases h
      exact ⟨old, hlive hold, rfl⟩
    · rw [AList.lookup_insert_ne heq] at h
      exact ⟨session, hlive h, rfl⟩
  · exact ⟨session, hlive h, rfl⟩

theorem Inv.apply {s : State} {p : Pid} {i : Input} {e : Act} (h : Inv s) (hmay : MaySet p e s)
    (hok : StillCurrent p e s i) : Inv (s.apply p i e) := by
  cases e with
  | insertSession token password =>
    refine ⟨fun c hc token' session hs => ?_, h.past⟩
    by_cases heq : token' = token
    · subst heq
      cases (AList.lookup_insert _).symm.trans hs
      have hpassword : password = s.password := hok
      exact .inr (hpassword ▸ h.past c hc)
    · exact h.signedOut c hc token' session ((AList.lookup_insert_ne heq).symm.trans hs)
  | sessionValid token =>
    refine ⟨fun c hc token' session hs => ?_, h.past⟩
    obtain ⟨old, hold, hpassword⟩ := lookup_touch hs
    exact hpassword ▸ h.signedOut c hc token' old hold
  | removeSession token =>
    refine ⟨fun c hc token' session hs => h.signedOut c hc token' session ?_, h.past⟩
    by_cases heq : token' = token
    · subst heq
      cases (AList.lookup_erase ..).symm.trans hs
    · exact (AList.lookup_erase_ne heq).symm.trans hs
  | updateHash hash =>
    show Inv { s.step p i (.updateHash hash) with clock := s.time i }
    rw [State.step]
    split
    · exact ⟨h.signedOut, h.past⟩
    · exact ⟨h.signedOut, fun c hc => Nat.le_succ_of_le (h.past c hc)⟩
  | retainSession caller password =>
    refine ⟨fun c hc token session hs => ?_, fun c hc => ?_⟩
    · have hs' : (s.sessions.retain fun token _ =>
        some token = caller).lookup token = some session := hs
      rw [AList.lookup_retain] at hs'
      obtain ⟨hs', hkeep⟩ := Option.filter_eq_some_iff.mp hs'
      cases hc with
      | head => exact .inl (of_decide_eq_true hkeep)
      | tail _ hc => exact h.signedOut c hc token session hs'
    · cases hc with
      | head => exact hmay
      | tail _ hc => exact h.past c hc
  | verify key =>
    cases key with
    | none => exact ⟨h.signedOut, h.past⟩
    | some key =>
      show Inv { s.step p i (.verify (some key)) with clock := s.time i }
      rw [State.step]
      split <;> exact ⟨h.signedOut, h.past⟩
  | _ => exact ⟨h.signedOut, h.past⟩

def discipline : Discipline machine where
  inv := Inv
  may := MaySet
  ok := StillCurrent
  keeps hinv _ hmay hok := hinv.apply hmay hok

/-! ## The requests -/

section Requests

variable {me : Pid} {α : Type}

/-- The action is not the last one of a change. -/
def Plain (e : Act) : Prop := ∀ p s, MaySet p e s

theorem triple_plain {x : Prog State Input Act α} (h : x.Uses Plain) :
    Dutiful discipline MaySet me x :=
  .of_uses (h.mono fun _ he s _ _ _ _ _ => ⟨he me s, trivial⟩)

theorem password_le_apply (s : State) (p : Pid) (i : Input) (e : Act) :
    s.password ≤ (s.apply p i e).password := by
  cases e with
  | updateHash hash =>
    show s.password ≤ (s.step p i (.updateHash hash)).password
    rw [State.step]
    split
    · exact le_rfl
    · exact Nat.le_succ _
  | verify key =>
    cases key with
    | none => exact le_rfl
    | some key =>
      show s.password ≤ (s.step p i (.verify (some key))).password
      rw [State.step]
      split <;> exact le_rfl
  | _ => exact le_rfl

instance stable_password (n : Nat) : Stable discipline me (fun s => n ≤ s.password) :=
  .of_step fun hs _ _ _ _ _ => Nat.le_trans hs (password_le_apply ..)

theorem plain_signIn (key : IpAddr) (password : Nat) : Prog.Uses Plain (signIn key password) :=
  uses_bind (.perform fun _ _ => trivial) fun _ => uses_bind (.perform fun _ _ => trivial) fun _ =>
    uses_bind (.perform fun _ _ => trivial) fun _ => trivial

theorem plain_refuse (key : IpAddr) : Prog.Uses Plain (refuse key) :=
  uses_bind (.perform fun _ _ => trivial) fun _ => trivial

theorem plain_login (peer : IpAddr) (username : String) :
    Prog.Uses Plain (login peer username) := by
  refine uses_bind (.perform fun _ _ => trivial) fun failed => ?_
  split
  · trivial
  · refine uses_bind (.perform fun _ _ => trivial) fun cfg => ?_
    split
    · trivial
    · refine uses_bind (.perform fun _ _ => trivial) fun okPassword => ?_
      split
      · exact plain_signIn _ _
      · exact plain_refuse _

theorem triple_requireSession (cookie : Option String) (headerOk : Bool) {x : Handler α}
    (hx : Dutiful discipline MaySet me x) :
    Dutiful discipline MaySet me (requireSession cookie headerOk x) := by
  cases cookie with
  | none => exact .ret
  | some token =>
    refine .seq (triple_plain (.perform fun _ _ => trivial)) fun valid => ?_
    split
    · exact .ret
    · split
      · exact .ret
      · exact hx

theorem triple_changePassword (cookie : Option String) (newPassword : String) :
    Dutiful discipline MaySet me (changePassword cookie newPassword) := by
  have hseq : ∀ {β : Type} {x : Handler β} {f : β → Handler Unit}, Prog.Uses Plain x →
      (∀ b, Dutiful discipline MaySet me (f b)) →
      Dutiful discipline MaySet me (x >>= f : Handler Unit) :=
    fun hx hf => .seq (triple_plain hx) hf
  unfold changePassword
  split
  · exact .ret
  · refine hseq (.perform fun _ _ => trivial) fun _ =>
      hseq (.perform fun _ _ => trivial) fun ok => ?_
    split
    · exact .ret
    · refine hseq (.perform fun _ _ => trivial) fun newHash => ?_
      refine .procBind (R := fun password s => password ≤ s.password) ?_ fun password => ?_
      · refine .perform fun s i _ _ _ _ => ⟨trivial, ?_⟩
        cases hfail : i.fail with
        | some msg => trivial
        | none =>
          show s.password + 1 ≤ (s.step me i (.updateHash newHash)).password
          rw [State.step, hfail]
          exact le_rfl
      · exact .perform fun s i _ hs _ _ => ⟨hs, trivial⟩

theorem triple_request (r : Request) : Dutiful discipline MaySet me r.code := by
  have hend : ∀ {β : Type} {x : Prog State Input Act β},
      Dutiful discipline MaySet me x →
      Dutiful discipline MaySet me (Prog.bind x fun _ => .ret ()) :=
    fun hx => hx.bind fun _ => Dutiful.ret
  cases r with
  | login peer username => exact hend (triple_plain (plain_login peer username))
  | logout cookie headerOk =>
    refine hend (triple_requireSession cookie headerOk ?_)
    cases cookie with
    | none => exact .ret
    | some token => exact triple_plain (.perform fun _ _ => trivial)
  | changePassword cookie headerOk newPassword =>
    exact hend (triple_requireSession cookie headerOk (triple_changePassword cookie newPassword))
  | other cookie headerOk =>
    exact hend (triple_requireSession cookie headerOk (.ret))

end Requests

/-- In every interleaving of requests in which a login inserts its session while its password is the
configured one, only the sessions of the caller and of later logins outlive a change. -/
theorem changed_password_signs_out {requests : Pid → Request} {s : State} {P : Pool State Input Act}
    (hnew : s.changes = []) (hrun : Pool.Run machine StillCurrent (pool requests s) P) :
    SignedOut P.mem := by
  have hsafe : (pool requests s).Safe discipline (fun _ _ _ => True) := by
    refine ⟨⟨?_, ?_⟩, fun p => triple_request (requests p) s trivial⟩
    · intro c hc
      cases hnew ▸ hc
    · intro c hc
      cases hnew ▸ hc
  exact (Pool.run_safe hsafe hrun).inv.signedOut

instance (p : Pid) (e : Act) (s : State) (i : Input) : Decidable (StillCurrent p e s i) := by
  unfold StillCurrent
  split <;> infer_instance

/-- The caller of the change has a session. -/
def callerIn : State where
  webPasswordHash := "old"
  sessions := .singleton "caller" ⟨sessionTtl, 0⟩

/-- A login, and a change of the password by the caller. -/
def loginAndChange (p : Pid) : Request :=
  if p = 0 then .login (.v4 0xcb007109) "admin"
  else .changePassword (some "caller") true "correct horse"

def verifyMoves : List (Pid × Input) := [(0, {}), (0, {}), (0, { verified := true })]

def signInMoves : List (Pid × Input) := [(0, {}), (0, { token := "login" }), (0, {})]

def changeMoves : List (Pid × Input) :=
  [(1, {}), (1, {}), (1, { verified := true }), (1, { hash := "new" }), (1, {}), (1, {})]

/-- The login starts after the change. -/
theorem later_login_signed_out :
    ∃ P, Pool.Run machine StillCurrent (pool loginAndChange callerIn) P ∧
      (P.mem.changes = [⟨some "caller", 1⟩] ∧
        P.mem.sessions.lookup "login" = some ⟨sessionTtl, 1⟩) ∧ SignedOut P.mem :=
  Pool.exists_run_imp (p := fun P => P.mem.changes = [⟨some "caller", 1⟩] ∧
      P.mem.sessions.lookup "login" = some ⟨sessionTtl, 1⟩)
    (changeMoves ++ verifyMoves ++ signInMoves) (by decide +kernel) fun _ hrun hP =>
    ⟨hP, changed_password_signs_out rfl hrun⟩

/-- The login has verified the old password before the change, and inserts its session after
it. -/
theorem login_in_progress_survives :
    ∃ P, Pool.Run machine anyStep (pool loginAndChange callerIn) P ∧
      (P.mem.changes = [⟨some "caller", 1⟩] ∧
        P.mem.sessions.lookup "login" = some ⟨sessionTtl, 0⟩) ∧ ¬SignedOut P.mem := by
  refine Pool.exists_run_imp (p := fun P => P.mem.changes = [⟨some "caller", 1⟩] ∧
      P.mem.sessions.lookup "login" = some ⟨sessionTtl, 0⟩)
    (verifyMoves ++ changeMoves ++ signInMoves) (by decide +kernel)
    fun P _ ⟨hchanges, hlogin⟩ => ⟨⟨hchanges, hlogin⟩, fun h => ?_⟩
  have hmem : (⟨some "caller", 1⟩ : Change) ∈ P.mem.changes := hchanges ▸ List.mem_singleton_self _
  obtain heq | hle := h _ hmem "login" _ hlogin
  · exact absurd heq (by decide)
  · exact absurd hle (by decide)

end RunmanAgent.Web
