import RunmanAgent.GoAgent.Limits.Steps

/-!
# A pass of `Reconcile`

A round of the loop has one policy at hand. It changes or drops that one only, so the policies
to come are in the file as they were loaded. Rules are installed for a policy that was not
marked when it was loaded; a policy that was marked loses its rules, unless a deletion fails
(`keeps_reconcile`).
-/

namespace RunmanAgent.GoAgent.Limits

open Concurrency Server
open ConnLimit (Pending)

section Rounds

variable {A : Assumed} {cfg : Config} {ok : Pid → Act → World → Input → Prop}
  {st rest : List Policy} {F : List Policy → Prop} {G : String → Prop} {p : Policy} {w : World}

variable (A cfg ok) in
/-- A round that leaves the policies to come. -/
abbrev KeepsRound (P : World → Prop) (x : HostProc Round) (rest : List Policy)
    (G : String → Prop) : Prop :=
  Keeps A cfg ok P x (ends (fun r => At A none r.1 rest (fun _ => True) G) (fun _ _ => False))

theorem round_ret {P : World → Prop} {r : Round}
    (h : ∀ w, P w → At A none r.1 rest (fun _ => True) G w) :
    KeepsRound A cfg ok P (pure r : HostProc Round) rest G :=
  .ret fun w _ hw => h w hw

theorem At.anyFile {a : Option Pending} (h : At A a st rest F G w) :
    At A a st rest (fun _ => True) G w :=
  h.mono (fun _ hq => hq) (fun _ _ => trivial) (fun _ hid => hid)

theorem At.head {a : Option Pending} (h : At A a st (p :: rest) F G w) : p ∈ st :=
  (h.kept p (.head _)).1

theorem At.tail {a : Option Pending} (h : At A a st (p :: rest) F G w) : At A a st rest F G w :=
  h.mono (fun _ hq => .tail _ hq) (fun _ hf => hf) (fun _ hid => hid)

theorem At.cleared {a : Option Pending} (h : At A a st rest F G w) (hp : p ∈ st)
    (hgone : A.truthful → Gone p w) :
    At A a st rest F (fun id => G id ∨ (A.clean ∧ id = p.id)) w := by
  refine ⟨h.applying, h.good, h.refused, h.kept, h.filed, fun ht id hid => ?_⟩
  rcases hid with hid | ⟨-, rfl⟩
  · exact h.gone ht id hid
  · exact h.good.cleared ht hp (hgone ht)

variable [Meets A ok]

theorem keeps_dropPolicy (hp : p ∈ st) (hrest : ∀ q ∈ rest, q.id ≠ p.id) :
    KeepsRound A cfg ok (At A none st rest F G) (dropPolicy st p) rest
      (fun id => G id ∨ (A.clean ∧ id = p.id)) := by
  refine .attemptBind (keeps_removeRules p) fun r => ?_
  cases r with
  | error e =>
    refine round_ret fun w h => h.1.mono (fun _ hq => hq) (fun _ _ => trivial) fun id hid => ?_
    exact hid.resolve_right fun hc => h.2 hc.1
  | ok _ =>
    refine .attemptBind ((keeps_deletePolicy hp hrest For.none).pre
      fun w (h : At A none st rest F G w ∧ (A.truthful → Gone p w)) =>
        ⟨h.1.cleared hp h.2, h.2⟩) fun r => ?_
    cases r with
    | error e => exact round_ret fun w h => h.anyFile
    | ok st' =>
      refine .procBind (keeps_stopExpiry _) fun _ => ?_
      exact round_ret fun w h => h.anyFile

omit [Meets A ok] in
theorem keeps_replaced {P : World → Prop} {p' : Policy} {x : List Policy → HostProc Round}
    {y : String → HostProc Round} (hp : p ∈ st) (hid : p'.id = p.id)
    (hplain : A.truthful → p'.Plain)
    (hmark : p.removeOnly = true → p'.removeOnly = true) (hrest : ∀ q ∈ rest, q.id ≠ p.id)
    (hP : ∀ w, P w → At A none st rest F G w ∧ (p'.rules = p.rules ∨ (A.truthful → Gone p w)))
    (hx : ∀ st', p' ∈ st' → (∀ q ∈ rest, q ∈ st') →
      KeepsRound A cfg ok (At A none st' rest F G) (x st') rest G) :
    KeepsRound A cfg ok P
      (match replacePolicy p' st with
        | .error e => y e
        | .ok st => x st) rest G := by
  intro w hw
  obtain ⟨h, hrules⟩ := hP w hw
  obtain ⟨st', hst', hr⟩ := replacePolicy_spec p' h.good.nodup hp hid
  have hat := h.replace hr hp hid hplain hrules hmark hrest
  rw [hst']
  exact hx st' hr.self (fun q hq => (hat.kept q hq).1) w hat

theorem keeps_saved {x : HostProc Round} {y : String → HostProc Round}
    (hx : KeepsRound A cfg ok (At A none st st (· = st) G) x rest G)
    (hy : ∀ e, ∃ failures, y e = pure (st, failures)) :
    KeepsRound A cfg ok (At A none st rest F G) (do
      match ← (save st).attempt with
      | .error e => y e
      | .ok _ => x) rest G := by
  refine .attemptBind (keeps_save.pre fun w h => ⟨h, h⟩) fun r => ?_
  cases r with
  | ok _ => exact hx
  | error e =>
    obtain ⟨failures, hy⟩ := hy e
    dsimp only
    rw [hy]
    exact round_ret fun w h => h.anyFile

theorem keeps_markAndDrop (text : String) (hp : p ∈ st)
    (hrest : ∀ q ∈ rest, q.id ≠ p.id) :
    KeepsRound A cfg ok (At A none st rest F G) (markAndDrop text st p) rest G := by
  intro w hw
  have hplain : A.truthful → p.marked.Plain := fun ht => hw.good.plain ht p hp
  have hid : p.marked.id = p.id := rfl
  refine keeps_replaced hp hid hplain (fun _ => rfl) hrest
    (fun w h => ⟨h, .inl (rules_marked p)⟩) (fun st' hp' hsub => ?_) w hw
  refine keeps_saved ?_ fun e => ⟨_, rfl⟩
  refine ((keeps_dropPolicy hp' hrest).pre fun w h =>
    h.mono hsub (fun _ hf => hf) (fun _ hid => hid)).post fun r w _ h => ?_
  cases r with
  | ok r => exact h.mono (fun _ hq => hq) (fun _ hf => hf) (fun _ hid => .inl hid)
  | error e => exact h

theorem keeps_suspendPolicy (hp : p ∈ st) (hrest : ∀ q ∈ rest, q.id ≠ p.id) :
    KeepsRound A cfg ok (At A none st rest F G) (suspendPolicy st p) rest G := by
  refine .attemptBind (keeps_removeRules p) fun r => ?_
  cases r with
  | error e => exact round_ret fun w h => h.1.anyFile
  | ok _ =>
    dsimp only
    split
    · exact round_ret fun w h => h.1.anyFile
    · have hid : (p.withIPs []).id = p.id := rfl
      have hplain : A.truthful → (p.withIPs []).Plain := nofun
      refine keeps_replaced hp hid hplain id hrest (fun w h => ⟨h.1, .inr h.2⟩)
        fun st' hp' hsub => ?_
      refine keeps_saved ?_ fun e => ⟨_, rfl⟩
      exact round_ret fun w h => h.mono hsub (fun _ _ => trivial) (fun _ hid => hid)

theorem keeps_reinstall (hactive : p.removeOnly = false)
    (hrest : ∀ q ∈ rest, q.id ≠ p.id) (hG : ¬ G p.id) :
    KeepsRound A cfg ok (At A none st (p :: rest) F G) (reinstall cfg st p) rest G := by
  intro w hw
  have hp := hw.head
  refine Triple.attemptBind (keeps_installRules (.head _) (.inl hactive) hG) (fun r => ?_) w hw
  cases r with
  | error e => exact round_ret fun w h => h.tail.anyFile
  | ok _ =>
    refine .attemptBind (keeps_quiet (scheduleExpiry_quiet p)) fun r => ?_
    cases r with
    | ok _ => exact round_ret fun w h => h.tail.anyFile
    | error e =>
      refine .procBind ((keeps_retirePolicy hp hrest For.none e).pre fun _ h => h.tail) fun r => ?_
      cases hfind : r.1.find? fun q => q.id == p.id with
      | none => exact round_ret fun w h => h.anyFile
      | some q =>
        obtain ⟨hq, hqid⟩ := find?_id hfind
        refine .procBind (keeps_dropPolicy hq (hqid.symm ▸ hrest)) fun again => ?_
        exact round_ret fun w h => h.mono (fun _ hq => hq) (fun _ hf => hf) (fun _ hid => .inl hid)

theorem keeps_refreshPolicy (hactive : p.removeOnly = false)
    (hrest : ∀ q ∈ rest, q.id ≠ p.id) (hG : ¬ G p.id) {raw ips : List String}
    (hips : validateIPs raw = .ok ips) :
    KeepsRound A cfg ok (At A none st (p :: rest) F G) (refreshPolicy cfg st p ips) rest G := by
  intro w hw
  have hp := hw.head
  unfold refreshPolicy
  split
  · exact keeps_reinstall hactive hrest hG w hw
  · refine Triple.attemptBind ((keeps_removeRules p).pre fun _ h => h.tail) (fun r => ?_) w hw
    cases r with
    | error e => exact round_ret fun w h => h.1.anyFile
    | ok _ =>
      have hid : (p.withIPs ips).id = p.id := rfl
      have hplain : A.truthful → (p.withIPs ips).Plain := fun _ => plain_of_validateIPs hips
      refine keeps_replaced hp hid hplain id hrest (fun w h => ⟨h.1, .inr h.2⟩)
        fun st' hp' hsub => ?_
      refine keeps_saved ?_ fun e => ⟨_, rfl⟩
      refine (keeps_reinstall (p := p.withIPs ips) (F := (· = st')) hactive hrest hG).pre
        fun w h => ?_
      refine h.mono (fun q hq => ?_) (fun _ hf => hf) (fun _ hid => hid)
      rcases hq with _ | ⟨_, hq⟩
      · exact hp'
      · exact hsub q hq

theorem keeps_reconcileTarget (hactive : p.removeOnly = false)
    (hrest : ∀ q ∈ rest, q.id ≠ p.id) (hG : ¬ G p.id) (target : Target) :
    KeepsRound A cfg ok (At A none st (p :: rest) F G)
      (reconcileTarget cfg st p target) rest G := by
  intro w hw
  have hp := hw.head
  unfold reconcileTarget
  split
  · exact ((keeps_markAndDrop _ hp hrest).pre fun _ h => h.tail) w hw
  · split
    · exact ((keeps_suspendPolicy hp hrest).pre fun _ h => h.tail) w hw
    · rename_i ips hips
      split
      · exact ((keeps_suspendPolicy hp hrest).pre fun _ h => h.tail) w hw
      · exact keeps_refreshPolicy hactive hrest hG hips w hw

theorem keeps_reconcileActive (hactive : p.removeOnly = false)
    (hrest : ∀ q ∈ rest, q.id ≠ p.id) (hG : ¬ G p.id) :
    KeepsRound A cfg ok (At A none st (p :: rest) F G) (reconcileActive cfg st p) rest G := by
  intro w hw
  have hp := hw.head
  have hread : Keeps A cfg ok (At A none st (p :: rest) F G) now
      (ends (fun _ => At A none st (p :: rest) F G) (fun _ _ => False)) :=
    .perform fun w i _ hw _ _ => ⟨may_self.mpr trivial, hw⟩
  refine Triple.procBind hread (fun t => ?_) w hw
  split
  · exact (keeps_markAndDrop _ hp hrest).pre fun _ h => h.tail
  · refine .attemptBind (keeps_quiet (.perform trivial)) fun r => ?_
    cases r with
    | error e => exact round_ret fun w h => h.tail.anyFile
    | ok target => exact keeps_reconcileTarget hactive hrest hG target

theorem keeps_reconcilePolicy (hrest : ∀ q ∈ rest, q.id ≠ p.id)
    (hG : ¬ G p.id) :
    KeepsRound A cfg ok (At A none st (p :: rest) F G) (reconcilePolicy cfg st p) rest
      (fun id => G id ∨ (A.clean ∧ p.removeOnly = true ∧ id = p.id)) := by
  intro w hw
  unfold reconcilePolicy
  split
  · refine (((keeps_dropPolicy hw.head hrest).pre fun _ h => h.tail).post fun r w _ h => ?_) w hw
    cases r with
    | ok r =>
      refine h.mono (fun _ hq => hq) (fun _ hf => hf) fun id hid => ?_
      exact hid.imp_right fun hc => ⟨hc.1, hc.2.2⟩
    | error e => exact h
  · rename_i hactive
    have hactive := eq_false_of_ne_true hactive
    refine ((keeps_reconcileActive hactive hrest hG).post fun r w _ h => ?_) w hw
    cases r with
    | ok r =>
      refine h.mono (fun _ hq => hq) (fun _ hf => hf) fun id hid => ?_
      exact hid.resolve_right fun hc => by rw [hactive] at hc; cases hc.2.1
    | error e => exact h

/-! ## The loop -/

/-- All policies with the id are marked. -/
def Retired (id : String) (policies : List Policy) : Prop :=
  ∀ p ∈ policies, p.id = id → p.removeOnly = true

variable (A) in
/-- The ids that have no rules when `rest` of the loaded policies is to come. -/
def ClearedIds (loaded rest : List Policy) (id : String) : Prop :=
  A.clean ∧ Retired id loaded ∧ ∀ q ∈ rest, q.id ≠ id

theorem keeps_reconcile {loaded : List Policy}
    (hnodup : (loaded.map (·.id)).Nodup) :
    Keeps A cfg ok (At A none loaded loaded (· = loaded) (fun id => ∀ q ∈ loaded, q.id ≠ id))
      (reconcile cfg)
      (fun _ w => w.applying = none ∧
        (A.clean → A.truthful → ∀ id, Retired id loaded → Cleared id w)) := by
  refine keeps_load ?_ fun _ w h hclean => ⟨h.applying, fun hc => absurd hc hclean⟩
  have hloop : Keeps A cfg ok
      (At A none loaded loaded (· = loaded) (fun id => ∀ q ∈ loaded, q.id ≠ id))
      (Proc.fold (fun (acc : Round) p => do
        let r ← reconcilePolicy cfg acc.1 p
        pure (r.1, acc.2 ++ r.2)) (loaded, []) loaded)
      (ends (fun (acc : Round) w => At A none acc.1 [] (fun _ => True) (ClearedIds A loaded []) w ∧
          ([].map (fun q : Policy => q.id)).Nodup ∧ ∀ q ∈ [], q ∈ loaded) (fun _ _ => False)) := by
    refine (Triple.fold (J := fun (acc : Round) rest w =>
        At A none acc.1 rest (fun _ => True) (ClearedIds A loaded rest) w ∧
          (rest.map (·.id)).Nodup ∧ ∀ q ∈ rest, q ∈ loaded) fun acc p rest => ?_).pre fun w h => ?_
    · refine Triple.given fun hrest => ?_
      obtain ⟨hids, hsub⟩ := hrest
      rw [List.map_cons, List.nodup_cons] at hids
      have hne : ∀ q ∈ rest, q.id ≠ p.id := fun q hq heq =>
        hids.1 (List.mem_map.mpr ⟨q, hq, heq⟩)
      have hG : ¬ ClearedIds A loaded (p :: rest) p.id := fun h =>
        h.2.2 p (.head _) rfl
      refine .procBind (keeps_reconcilePolicy hne hG) fun r => ?_
      refine .ret fun w _ h => ⟨h.mono (fun _ hq => hq) (fun _ hf => hf) ?_,
        hids.2, fun q hq => hsub q (.tail _ hq)⟩
      rintro id ⟨hclean, hretired, hnone⟩
      by_cases hpid : p.id = id
      · exact .inr ⟨hclean, hretired p (hsub p (.head _)) hpid, hpid.symm⟩
      · refine .inl ⟨hclean, hretired, fun q hq => ?_⟩
        rcases hq with _ | ⟨_, hq⟩
        · exact hpid
        · exact hnone q hq
    · exact ⟨h.mono (fun _ hq => hq) (fun _ _ => trivial) (fun id hid => hid.2.2), hnodup,
        fun q hq => hq⟩
  refine .step hloop fun acc => ?_
  have hend : ∀ w, At A none acc.1 [] (fun _ => True) (ClearedIds A loaded []) w →
      w.applying = none ∧ (A.clean → A.truthful → ∀ id, Retired id loaded → Cleared id w) := by
    intro w h
    exact ⟨h.applying, fun hclean ht id hretired =>
      h.gone ht id ⟨hclean, hretired, nofun⟩⟩
  unfold joinErrors
  split <;> exact .ret fun w _ h => hend w h.1

end Rounds

/-! ## All calls -/

section Sound

variable {A : Assumed} {cfg : Config} {ok : Pid → Act → World → Input → Prop}
  [Meets A ok] {calls : Call → World → Prop}

/-- No call is at work. -/
def Idle (w : World) : Prop := w.applying = none

theorem keeps_serve (happlies : A.applies)
    (hcalls : A.truthful → ∀ k w, calls k w → PlainCalls k w) (k : Call) :
    Keeps A cfg ok (fun w => Idle w ∧ calls k w) (serve cfg k) (fun _ => Idle) := by
  have hend : ∀ {x : HostProc Unit}, (∀ st : List Policy, Keeps A cfg ok
      (At A none st st (· = st) (fun id => ∀ q ∈ st, q.id ≠ id)) x (fun _ w => w.applying = none)) →
      Keeps A cfg ok (fun w => Idle w ∧ calls k w) (Prog.bind x fun _ => Prog.ret ())
        (fun _ => Idle) := by
    intro x hx
    refine .bind (R := fun _ => Idle) ?_ fun _ => .ret fun _ _ h => h
    refine .withInv fun w hw => ?_
    exact hx w.filed w (hw.1.at hw.2.1 rfl)
  cases k with
  | apply p =>
    suffices h : Keeps A cfg ok (fun w => Idle w ∧ (A.truthful → p.Plain)) (serve cfg (.apply p))
        (fun _ => Idle) from h.pre fun w hw => ⟨hw.1, fun ht => hcalls ht _ w hw.2⟩
    refine .given fun hplain => ?_
    refine .bind (R := fun _ w => w.applying = some (pendingIn w.filed p)) ?_ fun _ => ?_
    · refine .perform fun w i _ hw _ _ => ?_
      exact ⟨may_self.mpr ⟨happlies, hw⟩, rfl⟩
    · refine .withInv fun w hw => ?_
      refine Triple.bind (keeps_apply hplain) (fun r => ?_) w
        ((hw.1.at hw.2 rfl).mono (fun _ hq => hq) (fun _ hf => hf) (fun _ h => h.elim))
      refine Triple.perform fun w' i _ hw' _ _ => ?_
      exact ⟨may_self.mpr fun hfailed hrec => hw'.1 ▸ hw'.2 hfailed hrec, rfl⟩
  | release id vmId instanceId => exact hend fun st => keeps_release id vmId instanceId
  | expire id => exact hend fun st => keeps_expire id
  | reconcile =>
    refine hend fun st w h => ?_
    exact ((keeps_reconcile h.good.nodup).post fun _ _ _ h => h.1) w h

theorem manager_orderly (happlies : A.applies) (hrec : ¬ A.recorded) :
    Sound (manager cfg) PlainCalls (orderly A cfg ok) Idle where
  code := keeps_serve happlies fun _ _ _ h => h
  restart w w' hw h := by
    cases h
    exact ⟨⟨hw.filed.congr rfl, hw.once, fun h => absurd h hrec⟩, rfl⟩
  others _ _ _ _ he _ := he.elim

theorem steady_orderly (happlies : A.applies)
    (hcalls : A.truthful → ∀ k w, calls k w → PlainCalls k w) :
    Sound (steady cfg) calls (orderly A cfg ok) Idle where
  code := keeps_serve happlies hcalls
  restart _ _ _ h := by cases h
  others _ _ _ _ he _ := he.elim

end Sound

end RunmanAgent.GoAgent.Limits
