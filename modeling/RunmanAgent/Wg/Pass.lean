import RunmanAgent.Concurrency.Total
import RunmanAgent.Data.Survives
import RunmanAgent.Wg.Recorded

/-!
# A call in which nothing fails

`torn` and `built` are what a teardown and a setup make of the host, and `Effect` is what a call
does for one resource: it removes a resource that is not wanted, leaves one alone, or tears down
its old slot and sets up the one that `assign` gives it.
-/

namespace RunmanAgent.Wg

open Concurrency Server

variable (cfg : Config)

/-! ## The host after a teardown and after a setup -/

/-- The default route uses the interface or the table of the slot. -/
def Touches (s : Slot) (d : Family × Nat × String) : Prop :=
  d.2.2 = iface cfg s ∨ (d.1 = familyOf s.address ∧ d.2.1 = table cfg s)

instance (s : Slot) : DecidablePred (Touches cfg s) := fun d =>
  inferInstanceAs (Decidable (d.2.2 = iface cfg s ∨ _ ∧ _))

def torn (s : Slot) (h : Host) : Host where
  links := h.links.filter (· ≠ iface cfg s)
  rules := h.rules.filter (· ≠ (s.address, table cfg s))
  defaults := h.defaults.filter (¬Touches cfg s ·)
  bridge := h.bridge.filter (· ≠ s.address)

def built (s : Slot) (h : Host) : Host where
  links := iface cfg s :: h.links.filter (· ≠ iface cfg s)
  rules := (s.address, table cfg s) :: h.rules.erase (s.address, table cfg s)
  defaults := (familyOf s.address, table cfg s, iface cfg s) :: h.defaults.filter (¬Touches cfg s ·)
  bridge := s.address :: h.bridge.filter (· ≠ s.address)

/-- What the agent sets up. -/
inductive Obj where
  | link (dev : String)
  | rule (rule : IpAddr × Nat)
  | route (route : Family × Nat × String)
  | bridge (address : IpAddr)

def Host.Has (h : Host) : Obj → Prop
  | .link dev => dev ∈ h.links
  | .rule rule => rule ∈ h.rules
  | .route route => route ∈ h.defaults
  | .bridge a => a ∈ h.bridge

def Owns (s : Slot) : Obj → Prop
  | .link dev => dev = iface cfg s
  | .rule rule => rule = (s.address, table cfg s)
  | .route route => route = (familyOf s.address, table cfg s, iface cfg s)
  | .bridge a => a = s.address

/-- Teardown and setup of the slot remove the object. -/
def Clears (s : Slot) : Obj → Prop
  | .route route => Touches cfg s route
  | .link dev => dev = iface cfg s
  | .rule rule => rule = (s.address, table cfg s)
  | .bridge a => a = s.address

/-! ## Commands -/

/-- Nothing fails. -/
def Smooth (_ : Pid) (_ : Act) (_ : World) (i : Input) : Prop := i.fail = none

abbrev Does {α : Type} (P : World → Prop) (p : HostProc α) (Q : α → World → Prop) : Prop :=
  Total machine Smooth self True P p (succeedsWith Q)

variable {cfg} {w : World} {c : Cmd} {g h : Host} {s : Slot} {b : Binding}

theorem smooth_enabled (e : Act) (w : World) :
    True → machine.enabled e self w = true ∧ ∃ i, Smooth self e w i :=
  fun _ => ⟨rfl, {}, rfl⟩

theorem does_pure {α : Type} {P : World → Prop} {Q : α → World → Prop} {a : α}
    (h : ∀ v, P v → Q a v) : Does P (pure a) Q := h

theorem does_command (hexec : c.exec w.host = some g) :
    Does (· = w) (command c) (fun _ v => v = { w with host := g }) := by
  refine .perform (fun v _ => smooth_enabled _ v) fun v i hv hi => ?_
  subst hv
  have hfail : i.fail = none := hi
  have happly : machine.apply (.cmd c) self v i = { v with host := g } := by
    simp [machine, World.apply, hfail, hexec]
  rw [happly]
  simp only [hfail, hexec]
  rfl

theorem does_command_none (hexec : c.exec w.host = none) :
    Total machine Smooth self True (· = w) (command c)
      (ends (fun _ _ => False) (fun _ v => v = w)) := by
  refine .perform (fun v _ => smooth_enabled _ v) fun v i hv hi => ?_
  subst hv
  have hfail : i.fail = none := hi
  simp only [hfail, hexec]
  simp [ends, machine, World.apply, hexec]

theorem does_ignored (hexec : (c.exec w.host).getD w.host = g) :
    Does (· = w) (ignored c) (fun _ v => v = { w with host := g }) := by
  refine .attemptBind (R := fun _ v => v = { w with host := g })
    (Total.perform (fun v _ => smooth_enabled _ v) fun v i hv hi => ?_)
    fun x => does_pure fun _ hv => hv
  subst hv
  have hfail : i.fail = none := hi
  simp [machine, World.apply, hfail, hexec]

theorem does_look : Does (· = w) look (fun v v' => v = w ∧ v' = w) :=
  .perform (fun v _ => smooth_enabled _ v) fun _ _ hv _ => ⟨hv, hv⟩

theorem does_run {e : Act} {u : World} (he : ∀ i, i.fail = none → w.apply i e = u) :
    Does (· = w) (Proc.run e) (fun _ v => v = u) := by
  refine .perform (fun v _ => smooth_enabled _ v) fun v i hv hi => ?_
  subst hv
  exact he i hi

theorem does_save : Does (· = w) save (fun _ v => v = { w with disk := some w.slots }) := by
  refine .perform (fun v _ => smooth_enabled _ v) fun v i hv hi => ?_
  subst hv
  have hfail : i.fail = none := hi
  simp only [hfail]
  simp [succeedsWith, ends, machine, World.apply, hfail]

/-! ## Teardown -/

theorem filter_erase_self {x : IpAddr × Nat} (l : List (IpAddr × Nat)) :
    (l.erase x).filter (· ≠ x) = l.filter (· ≠ x) := by
  induction l with
  | nil => rfl
  | cons y l ih =>
    by_cases hy : y = x
    · subst hy
      simp
    · rw [List.erase_cons_tail (by simpa using hy), List.filter_cons, List.filter_cons, ih]

theorem does_dropRules {a : IpAddr} {t : Nat} :
    Does (· = w) (dropRules a t) (fun _ v =>
      v = { w with host := { w.host with rules := w.host.rules.filter (· ≠ (a, t)) } }) := by
  refine .step does_look fun v => ?_
  -- the copies that are left; the other rules stay as they are
  let Left (n : Nat) (v : World) : Prop := ∃ rules,
    v = { w with host := { w.host with rules } } ∧ rules.count (a, t) = n ∧
      rules.filter (· ≠ (a, t)) = w.host.rules.filter (· ≠ (a, t))
  rintro w' ⟨rfl, rfl⟩
  refine ((Total.whileOk (P := Left) (B := Left) ?_ (fun n => ?_)
    fun n => does_pure fun _ hv => hv).post fun x u hu => ?_) w' ⟨w'.host.rules, rfl, rfl, rfl⟩
  · rintro _ ⟨rules, rfl, hcount, hrest⟩
    have hnot : (a, t) ∉ rules := List.count_eq_zero.mp hcount
    refine (does_command_none (by simp [Cmd.exec, hnot])).post (fun x u hu => ?_) _ rfl
    cases x with
    | error e => exact hu ▸ ⟨rules, rfl, hcount, hrest⟩
    | ok _ => exact hu
  · rintro _ ⟨rules, rfl, hcount, hrest⟩
    have hmem : (a, t) ∈ rules := List.count_pos_iff.mp (by omega)
    refine (does_command (g := { w'.host with rules := rules.erase (a, t) })
      (by simp [Cmd.exec, hmem])).post (fun x u hu => ?_) _ rfl
    cases x with
    | error e => exact hu
    | ok _ =>
      refine hu ▸ ⟨rules.erase (a, t), rfl, ?_, (filter_erase_self rules).trans hrest⟩
      rw [List.count_erase_self]
      omega
  · cases x with
    | error e => exact hu.elim
    | ok _ =>
      obtain ⟨rules, rfl, hcount, hrest⟩ := hu
      have hself : rules.filter (· ≠ (a, t)) = rules := by
        refine List.filter_eq_self.mpr fun y hy => ?_
        have hne : y ≠ (a, t) := fun heq => List.count_eq_zero.mp hcount (heq ▸ hy)
        simpa using hne
      rw [← hrest, hself]
      rfl

theorem filter_ne_of_notMem {α : Type} [DecidableEq α] {x : α} {l : List α} (h : x ∉ l) :
    l.filter (· ≠ x) = l := by
  refine List.filter_eq_self.mpr fun y hy => ?_
  have hne : y ≠ x := fun heq => h (heq ▸ hy)
  simpa using hne

variable {dev ep : String} {slots : Slots} {r : String} {j : Job} {desired : List Binding}

theorem does_dropLink (ha : Attached w.host) :
    Does (· = w) (dropLink dev) (fun _ v => v = { w with host := { w.host with
      links := w.host.links.filter (· ≠ dev),
      defaults := w.host.defaults.filter (·.2.2 ≠ dev) } }) := by
  refine .step does_look fun v => ?_
  rintro _ ⟨rfl, rfl⟩
  rename_i v
  by_cases hdev : dev ∈ v.host.links
  · rw [if_pos hdev]
    exact does_command (c := .linkDel dev) (if_pos hdev) v rfl
  · rw [if_neg hdev]
    refine does_pure (P := (· = v)) (fun u hu => ?_) v rfl
    have hroutes : v.host.defaults.filter (·.2.2 ≠ dev) = v.host.defaults := by
      refine List.filter_eq_self.mpr fun d hd => ?_
      have hne : d.2.2 ≠ dev := fun heq => hdev (heq ▸ ha d hd)
      simpa using hne
    rwa [filter_ne_of_notMem hdev, hroutes]

theorem filter_touches {l : List (Family × Nat × String)} :
    (l.filter fun d => ¬(d.1 = familyOf s.address ∧ d.2.1 = table cfg s)).filter
      (·.2.2 ≠ iface cfg s) = l.filter (¬Touches cfg s ·) := by
  rw [List.filter_filter]
  refine List.filter_congr fun d _ => ?_
  simp only [Touches, not_or, Bool.decide_and]

theorem does_teardown (ha : Attached w.host) :
    Does (· = w) (teardown cfg s) (fun _ v => v = { w with host := torn cfg s w.host }) := by
  let rest : Host := { w.host with
    rules := w.host.rules.filter (· ≠ (s.address, table cfg s))
    defaults := w.host.defaults.filter fun d => ¬(d.1 = familyOf s.address ∧ d.2.1 = table cfg s)
    bridge := w.host.bridge.filter (· ≠ s.address) }
  refine .step does_dropRules fun _ => ?_
  refine .step (does_ignored rfl) fun _ => ?_
  refine .step (does_ignored (g := rest) ?_) fun _ => ?_
  · by_cases hmem : s.address ∈ w.host.bridge
    · simp [rest, Cmd.exec, hmem]
    · simp only [rest, filter_ne_of_notMem hmem]
      simp [Cmd.exec, hmem]
  have hattached : Attached rest := fun d hd => ha d (List.mem_filter.mp hd).1
  refine (does_dropLink hattached).post fun x v hv => ?_
  cases x with
  | error e => exact hv
  | ok _ =>
    have hv : v = _ := hv
    rw [hv]
    show _ = _
    simp only [torn, rest, filter_touches]

theorem does_setPeer (hdev : dev ∈ w.host.links) :
    Does (· = w) (setPeer dev b ep) (fun _ v => v = w) := by
  unfold setPeer
  split <;> exact does_command (if_pos hdev)

theorem does_relaxFilter {a : IpAddr} (hdev : dev ∈ w.host.links) :
    Does (· = w) (relaxFilter dev a) (fun _ v => v = w) := by
  unfold relaxFilter
  split
  · exact does_ignored (by simp [Cmd.exec, hdev])
  · exact does_pure fun _ hv => hv

theorem does_setup (ha : Attached w.host) (hb : s.address = b.address) :
    Does (· = w) (setup cfg s b ep) (fun _ v => v = { w with host := built cfg s w.host }) := by
  let ifc := iface cfg s
  let bare : Host := { w.host with
    links := w.host.links.filter (· ≠ ifc)
    defaults := w.host.defaults.filter (·.2.2 ≠ ifc) }
  let linked : Host := { bare with links := ifc :: bare.links }
  have hlinked : ifc ∈ linked.links := .head _
  let routed : Host := { linked with
    defaults := (familyOf s.address, table cfg s, ifc) :: linked.defaults.filter fun d =>
      ¬(d.1 = familyOf s.address ∧ d.2.1 = table cfg s)
    bridge := s.address :: w.host.bridge.filter (· ≠ s.address) }
  refine .step (does_dropLink ha) fun _ => ?_
  refine .step (does_command (c := .linkAdd ifc) (g := linked) (if_neg (by simp [ifc]))) fun _ => ?_
  refine .step (does_command (c := .wgSet ifc _ _) (g := linked) (if_pos hlinked)) fun _ => ?_
  refine .step (does_setPeer hlinked) fun _ => ?_
  refine .step (does_command (c := .linkUp ifc) (g := linked) (if_pos hlinked)) fun _ => ?_
  refine .step (does_relaxFilter hlinked) fun _ => ?_
  refine .step (does_command (c := .replaceDefault _ ifc _) (if_pos hlinked)) fun _ => ?_
  refine .step (does_command (c := .replaceRoute _) rfl) fun _ => ?_
  refine .step (does_ignored (c := .ruleDel _ _) (g := { routed with
    rules := w.host.rules.erase (s.address, table cfg s) }) ?_) fun _ => ?_
  · by_cases hmem : (s.address, table cfg s) ∈ w.host.rules
    · simp [routed, linked, bare, Cmd.exec, ← hb, hmem]
    · rw [List.erase_of_not_mem hmem]
      simp [routed, linked, bare, Cmd.exec, ← hb, hmem]
  refine (does_command (c := .ruleAdd _ _) rfl).post fun x v hv => ?_
  cases x with
  | error e => exact hv
  | ok _ =>
    have hv : v = _ := hv
    rw [hv]
    show _ = _
    have hfilter : (w.host.defaults.filter (·.2.2 ≠ ifc)).filter (fun d =>
        ¬(d.1 = familyOf s.address ∧ d.2.1 = table cfg s)) =
        w.host.defaults.filter (¬Touches cfg s ·) := by
      rw [List.filter_filter, ← filter_touches, List.filter_filter]
      refine List.filter_congr fun d _ => ?_
      exact Bool.and_comm _ _
    simp only [built, routed, linked, bare, hfilter, ← hb]
    rfl

/-! ## Objects -/

section Objects

variable {o : Obj}

theorem Owns.clears (h : Owns cfg s o) : Clears cfg s o := by
  cases o with
  | route d =>
    have hd : d = (familyOf s.address, table cfg s, iface cfg s) := h
    exact .inl (by rw [hd])
  | _ => exact h

theorem has_torn : (torn cfg s h).Has o ↔ h.Has o ∧ ¬Clears cfg s o := by
  cases o <;> simp [torn, Host.Has, Clears]

theorem has_built : (built cfg s h).Has o ↔ Owns cfg s o ∨ (h.Has o ∧ ¬Clears cfg s o) := by
  cases o with
  | rule x =>
    by_cases hx : x = (s.address, table cfg s)
    · simp [built, Host.Has, Owns, Clears, hx]
    · simp [built, Host.Has, Owns, Clears, hx, List.mem_erase_of_ne hx]
  | _ => simp [built, Host.Has, Owns, Clears]

end Objects

/-! ## One resource -/

/-- A resource that is not wanted any more, or a binding. -/
inductive Job where
  | drop (resource : String)
  | bind (b : Binding)

def Job.resource : Job → String
  | .drop resource => resource
  | .bind b => b.resourceId

/-- The slot that a binding gets: it keeps its number. -/
def assign (slots : Slots) (b : Binding) : Slot :=
  ⟨((slots.get b.resourceId).map (·.n)).getD (freeN slots), b.vmId.asStr, b.address⟩

def Job.next (slots : Slots) : Job → Slots
  | .drop resource => slots.erase resource
  | .bind b => slots.insert b.resourceId (assign slots b)

variable (cfg) in
/-- The slot that is torn down. -/
def Job.old (w : World) : Job → Option Slot
  | .drop resource => w.slots.get resource
  | .bind b => if upToDate cfg w b then none else (w.slots.get b.resourceId).filter (!sameSlot b ·)

variable (cfg) in
/-- The slot that is set up. -/
def Job.new (w : World) : Job → Option Slot
  | .drop _ => none
  | .bind b => if upToDate cfg w b then none else some (assign w.slots b)

variable (cfg) in
def Job.host (w : World) (j : Job) : Host :=
  let h := (j.old cfg w).elim w.host (torn cfg · w.host)
  (j.new cfg w).elim h (built cfg · h)

variable (cfg) in
/-- The job changes the slots, or at least saves them. -/
def Job.Saves (w : World) : Job → Prop
  | .drop _ => True
  | .bind b => upToDate cfg w b = false

variable (cfg) in
structure Effect (j : Job) (w v : World) : Prop where
  slots : v.slots = j.next w.slots
  applied : ∀ r, r ≠ j.resource → v.applied.get r = w.applied.get r
  saved : j.Saves cfg w → v.filed = v.slots
  unsaved : ¬j.Saves cfg w → v.filed = w.filed
  host : v.host = j.host cfg w

theorem assign_sameSlot (hs : slots.get b.resourceId = some s) (hsame : sameSlot b s = true) :
    assign slots b = s := by
  simp only [sameSlot, Bool.and_eq_true, beq_iff_eq] at hsame
  cases s
  simp [assign, hs, hsame.1.symm, hsame.2.symm]

theorem upToDate_slot (h : upToDate cfg w b = true) :
    ∃ s, w.slots.get b.resourceId = some s ∧ sameSlot b s = true ∧ iface cfg s ∈ w.host.links := by
  unfold upToDate at h
  split at h
  · rename_i fp ep slot _ hslot
    simp only [Bool.and_eq_true, decide_eq_true_eq] at h
    exact ⟨slot, hslot, h.1.2, h.2⟩
  · cases h

theorem old_bind (hs : w.slots.get b.resourceId = some s) :
    (Job.bind b).old cfg w = if upToDate cfg w b ∨ sameSlot b s then none else some s := by
  by_cases hup : upToDate cfg w b = true <;> by_cases hsame : sameSlot b s = true <;>
    simp [Job.old, hs, Option.filter, hup, hsame]

theorem does_removeStale (ha : Attached w.host) (hs : w.slots.get r = some s) :
    Does (· = w) (removeStale cfg r) (fun _ => Effect cfg (.drop r) w) := by
  refine .step does_look fun v => ?_
  rintro _ ⟨rfl, rfl⟩
  rename_i v
  rw [hs]
  refine Total.attemptBind (does_teardown ha) (fun x => ?_) v rfl
  cases x with
  | error e => exact fun _ h => h.elim
  | ok _ =>
    refine .step (P := (· = { v with host := torn cfg s v.host }))
      (does_run (e := .remove r) fun _ _ => rfl) fun _ => does_save.post fun x u hu => ?_
    cases x with
    | error e => exact hu
    | ok _ =>
      have hu : u = _ := hu
      subst hu
      refine ⟨rfl, fun r' hr => SortedMap.get_erase_ne hr, fun _ => rfl,
        fun hn => absurd trivial hn, ?_⟩
      simp [Job.host, Job.old, Job.new, hs]

theorem does_refreshEndpoint (hup : upToDate cfg w b = true) :
    Does (· = w) (refreshEndpoint cfg w b ep) (fun _ => Effect cfg (.bind b) w) := by
  obtain ⟨s, hs, hsame, hlink⟩ := upToDate_slot hup
  have heffect : ∀ applied : SortedMap String (Nat × String),
      (∀ r, r ≠ b.resourceId → applied.get r = w.applied.get r) →
      Effect cfg (.bind b) w { w with applied } := by
    refine fun applied happ => ⟨?_, happ, fun h => ?_, fun _ => rfl, ?_⟩
    · exact (SortedMap.insert_of_get (assign_sameSlot hs hsame ▸ hs)).symm
    · exact absurd (hup.symm.trans h) (by decide)
    · simp [Job.host, Job.old, Job.new, hup]
  unfold refreshEndpoint
  split
  · rename_i fp ep' slot _ hslot
    cases hslot.symm.trans hs
    split
    · refine .attemptBind (does_command (c := .wgSet _ _ _) (if_pos hlink)) fun x => ?_
      cases x with
      | error e => exact fun _ h => h.elim
      | ok _ =>
        refine (does_run (e := .setApplied _ _ _) fun _ _ => rfl).post fun x v hv => ?_
        cases x with
        | error e => exact hv
        | ok _ =>
          have hv : v = _ := hv
          exact hv ▸ heffect _ fun r hr => SortedMap.get_insert_ne hr
    · exact does_pure fun v hv => hv ▸ heffect _ fun _ _ => rfl
  · exact does_pure fun v hv => hv ▸ heffect _ fun _ _ => rfl

theorem does_nextSlot (ha : Attached w.host) (hup : upToDate cfg w b = false) :
    Does (· = w) (nextSlot cfg w b) (fun slot v => slot = some (assign w.slots b) ∧
      v = { w with host := ((Job.bind b).old cfg w).elim w.host (torn cfg · w.host) }) := by
  unfold nextSlot
  cases hs : w.slots.get b.resourceId with
  | none => exact does_pure fun v hv => ⟨by simp [assign, hs], by simp [Job.old, hup, hs, hv]⟩
  | some s =>
    dsimp only
    split
    · rename_i hsame
      refine does_pure fun v hv => ⟨?_, ?_⟩
      · rw [assign_sameSlot hs hsame]
      · rwa [old_bind hs, if_pos (.inr hsame)]
    · rename_i hsame
      refine .attemptBind (does_teardown ha) fun x => ?_
      cases x with
      | error e => exact fun _ h => h.elim
      | ok _ =>
        refine does_pure fun v hv => ⟨?_, ?_⟩
        · simp [assign, hs]
        · rwa [old_bind hs, if_neg (by simp [hup, hsame])]

theorem torn_attached (ha : Attached h) : Attached (torn cfg s h) := by
  intro d hd
  obtain ⟨hd, hnot⟩ := List.mem_filter.mp hd
  have hne : d.2.2 ≠ iface cfg s := fun heq => (of_decide_eq_true hnot) (.inl heq)
  exact List.mem_filter.mpr ⟨ha d hd, by simpa using hne⟩

theorem does_install (ha : Attached w.host) (hup : upToDate cfg w b = false) :
    Does (· = { w with host := ((Job.bind b).old cfg w).elim w.host (torn cfg · w.host) })
      (install cfg (assign w.slots b) b ep) (fun _ => Effect cfg (.bind b) w) := by
  have hattached : Attached (((Job.bind b).old cfg w).elim w.host (torn cfg · w.host)) := by
    cases (Job.bind b).old cfg w with
    | none => exact ha
    | some s => exact torn_attached ha
  refine .step (does_run (e := .insertSlot _ _) fun _ _ => rfl) fun _ => ?_
  refine .step does_save fun _ => ?_
  refine .attemptBind (does_setup (s := assign w.slots b) hattached rfl) fun x => ?_
  cases x with
  | error e => exact fun _ h => h.elim
  | ok _ =>
    refine (does_run (e := .setApplied _ _ _) fun _ _ => rfl).post fun x v hv => ?_
    cases x with
    | error e => exact hv
    | ok _ =>
      have hv : v = _ := hv
      subst hv
      refine ⟨rfl, fun r hr => SortedMap.get_insert_ne hr, fun _ => rfl, fun h => absurd hup h, ?_⟩
      simp [Job.host, Job.new, hup]

theorem does_reconcileBinding (ha : Attached w.host) :
    Does (· = w) (reconcileBinding cfg b) (fun _ => Effect cfg (.bind b) w) := by
  refine .attemptBind (R := fun x v => v = w ∧ ∃ ep, x = .ok ep)
    (Total.perform (fun v _ => smooth_enabled _ v) fun v i hv hi => ?_) fun x => ?_
  · have hfail : i.fail = none := hi
    exact ⟨hv, i.addr, by simp only [hfail]⟩
  rintro _ ⟨rfl, ep, rfl⟩
  rename_i w
  refine Total.step does_look (fun v => ?_) w rfl
  rintro _ ⟨rfl, rfl⟩
  rename_i w
  cases hup : upToDate cfg w b with
  | true => exact does_refreshEndpoint hup w rfl
  | false =>
    refine Total.step (does_nextSlot ha hup) (fun slot => ?_) w rfl
    rintro _ ⟨rfl, rfl⟩
    exact does_install ha hup _ rfl

/-! ## All resources -/

def jobs (slots : Slots) (desired : List Binding) : List Job :=
  (stale slots desired).map .drop ++ desired.map .bind

/-- The slots after the jobs. -/
def plan (slots : Slots) (js : List Job) : Slots := js.foldl Job.next slots

theorem get_next_of_ne (hr : r ≠ j.resource) : (j.next slots).get r = slots.get r := by
  cases j with
  | drop resource => exact SortedMap.get_erase_ne hr
  | bind b => exact SortedMap.get_insert_ne hr

theorem get_plan_of_notMem {js : List Job} (hr : r ∉ js.map Job.resource) :
    (plan slots js).get r = slots.get r := by
  induction js generalizing slots with
  | nil => rfl
  | cons j js ih =>
    rw [List.map_cons, List.mem_cons, not_or] at hr
    exact (ih hr.2).trans (get_next_of_ne hr.1)

theorem assign_number (hd : DistinctNumbers slots) (hs : slots.get r = some s)
    (hn : s.n = (assign slots b).n) : r = b.resourceId := by
  cases hget : slots.get b.resourceId with
  | none =>
    refine absurd hn.symm ?_
    simpa [assign, hget] using freeN_ne hs
  | some old => exact hd _ _ _ _ hs hget (by simpa [assign, hget] using hn)

theorem DistinctNumbers.next (hd : DistinctNumbers slots) (j : Job) :
    DistinctNumbers (j.next slots) := by
  cases j with
  | drop resource => exact hd.erase
  | bind b => exact hd.insert fun r s hs hn => assign_number hd hs hn

theorem DistinctNumbers.plan (hd : DistinctNumbers slots) (js : List Job) :
    DistinctNumbers (plan slots js) := by
  induction js generalizing slots with
  | nil => exact hd
  | cons j js ih => exact ih (hd.next j)

variable (cfg) in
/-- The slot that is set up, in terms of the slots at the end. -/
def Job.made (w : World) (final : Slots) : Job → Option Slot
  | .drop _ => none
  | .bind b => if upToDate cfg w b then none else final.get b.resourceId

variable (cfg) in
def Job.Creates (w : World) (final : Slots) (o : Obj) (j : Job) : Prop :=
  ∃ s, j.made cfg w final = some s ∧ Owns cfg s o

variable (cfg) in
def Job.Deletes (w : World) (final : Slots) (o : Obj) (j : Job) : Prop :=
  ∃ s, (j.old cfg w = some s ∨ j.made cfg w final = some s) ∧ Clears cfg s o

variable (cfg) in
/-- The jobs `js` are still to be done, and lead where all jobs lead from `w₀`. -/
structure Ahead (w₀ : World) (final : Slots) (all js : List Job) (w : World) : Prop where
  distinct : DistinctNumbers w.slots
  attached : Attached w.host
  nodup : (js.map Job.resource).Nodup
  stored : ∀ r, .drop r ∈ js → ∃ s, w.slots.get r = some s
  slots : plan w.slots js = final
  kept : ∀ j ∈ js, w.slots.get j.resource = w₀.slots.get j.resource ∧
    w.applied.get j.resource = w₀.applied.get j.resource
  linked : ∀ j ∈ js, ∀ s, w.slots.get j.resource = some s →
    (iface cfg s ∈ w.host.links ↔ iface cfg s ∈ w₀.host.links)
  host : ∀ o, Survives (Job.Creates cfg w₀ final o) (Job.Deletes cfg w₀ final o) js (w.host.Has o) ↔
    Survives (Job.Creates cfg w₀ final o) (Job.Deletes cfg w₀ final o) all (w₀.host.Has o)
  filed : ((∃ j ∈ js, j.Saves cfg w₀) ∨ w.filed = w.slots) ↔
    ((∃ j ∈ all, j.Saves cfg w₀) ∨ w₀.filed = w₀.slots)

theorem upToDate_congr {w' : World} (hs : w.slots.get b.resourceId = w'.slots.get b.resourceId)
    (happ : w.applied.get b.resourceId = w'.applied.get b.resourceId)
    (hlink : ∀ s, w.slots.get b.resourceId = some s →
      (iface cfg s ∈ w.host.links ↔ iface cfg s ∈ w'.host.links)) :
    upToDate cfg w b = upToDate cfg w' b := by
  unfold upToDate
  rw [hs, happ]
  split
  · rename_i fp ep slot _ hslot
    have hiff := hlink slot (hs.trans hslot)
    simp only [hiff]
  · rfl

theorem has_host {o : Obj} : (j.host cfg w).Has o ↔
    (∃ s, j.new cfg w = some s ∧ Owns cfg s o) ∨ (w.host.Has o ∧
      ¬∃ s, (j.old cfg w = some s ∨ j.new cfg w = some s) ∧ Clears cfg s o) := by
  unfold Job.host
  cases j.old cfg w <;> cases j.new cfg w <;> simp [has_torn, has_built, and_assoc]

theorem built_attached (ha : Attached h) : Attached (built cfg s h) := by
  intro d hd
  rcases hd with _ | ⟨_, hd⟩
  · exact .head _
  · exact .tail _ (torn_attached ha d hd)

theorem host_attached (ha : Attached w.host) : Attached (j.host cfg w) := by
  unfold Job.host
  cases j.old cfg w <;> cases j.new cfg w <;>
    simp only [Option.elim_none, Option.elim_some, ha, torn_attached, built_attached]

section Step

variable {w₀ v : World} {final : Slots} {all js : List Job} {j : Job}

theorem next_of_not_saves (h : ¬j.Saves cfg w) : j.next w.slots = w.slots := by
  cases j with
  | drop r => exact absurd trivial h
  | bind b =>
    obtain ⟨s, hs, hsame, -⟩ := upToDate_slot (Bool.not_eq_false _ ▸ h)
    exact SortedMap.insert_of_get (assign_sameSlot hs hsame ▸ hs)

theorem resource_of_number (hd : DistinctNumbers w.slots) {r : String}
    (hs : w.slots.get r = some s) {s' : Slot}
    (hs' : j.old cfg w = some s' ∨ j.new cfg w = some s') (hn : s.n = s'.n) : r = j.resource := by
  cases j with
  | drop r' =>
    rcases hs' with hold | hnew
    · exact hd _ _ _ _ hs hold hn
    · cases hnew
  | bind b =>
    rcases hs' with hold | hnew
    · obtain ⟨-, hold⟩ := Option.ite_none_left_eq_some.mp hold
      exact hd _ _ _ _ hs (Option.filter_eq_some_iff.mp hold).1 hn
    · obtain ⟨-, hnew⟩ := Option.ite_none_left_eq_some.mp hnew
      cases hnew
      exact assign_number hd hs hn

theorem Effect.linked (he : Effect cfg j w v) (hd : DistinctNumbers w.slots) {r : String}
    (hr : r ≠ j.resource) (hs : w.slots.get r = some s) :
    iface cfg s ∈ v.host.links ↔ iface cfg s ∈ w.host.links := by
  have hnone : ∀ s', (j.old cfg w = some s' ∨ j.new cfg w = some s') → iface cfg s ≠ iface cfg s' :=
    fun s' hs' heq => hr (resource_of_number hd hs hs' (iface_inj heq))
  have hhas : (j.host cfg w).Has (.link (iface cfg s)) ↔ _ := has_host
  rw [← he.host] at hhas
  refine hhas.trans ⟨?_, fun h => .inr ⟨h, ?_⟩⟩
  · rintro (⟨s', hs', hown⟩ | ⟨h, -⟩)
    · exact absurd hown (hnone s' (.inr hs'))
    · exact h
  · rintro ⟨s', hs', hclears⟩
    exact hnone s' hs' hclears

theorem Ahead.upToDate (h : Ahead cfg w₀ final all (.bind b :: js) w) :
    upToDate cfg w b = Wg.upToDate cfg w₀ b := by
  have hmem : Job.bind b ∈ Job.bind b :: js := .head _
  exact upToDate_congr (h.kept _ hmem).1 (h.kept _ hmem).2 (h.linked _ hmem)

theorem Ahead.old (h : Ahead cfg w₀ final all (j :: js) w) : j.old cfg w = j.old cfg w₀ := by
  have hslots := (h.kept j (.head _)).1
  cases j with
  | drop r => exact hslots
  | bind b =>
    have hslots : w.slots.get b.resourceId = w₀.slots.get b.resourceId := hslots
    simp only [Job.old, h.upToDate, hslots]

theorem Ahead.new (h : Ahead cfg w₀ final all (j :: js) w) : j.new cfg w = j.made cfg w₀ final := by
  cases j with
  | drop r => rfl
  | bind b =>
    have hnot : b.resourceId ∉ js.map Job.resource := (List.nodup_cons.mp h.nodup).1
    have hfinal : final.get b.resourceId = some (assign w.slots b) := by
      rw [← h.slots]
      exact (get_plan_of_notMem hnot).trans SortedMap.get_insert_self
    simp only [Job.new, Job.made, h.upToDate, hfinal]

theorem Ahead.saves (h : Ahead cfg w₀ final all (j :: js) w) : j.Saves cfg w ↔ j.Saves cfg w₀ := by
  cases j with
  | drop r => rfl
  | bind b => simp only [Job.Saves, h.upToDate]

theorem Ahead.step (h : Ahead cfg w₀ final all (j :: js) w) (he : Effect cfg j w v) :
    Ahead cfg w₀ final all js v := by
  obtain ⟨hnot, hnodup⟩ := List.nodup_cons.mp h.nodup
  have hne : ∀ j' ∈ js, j'.resource ≠ j.resource := fun j' hj' heq =>
    hnot (heq ▸ List.mem_map_of_mem hj')
  have hget : ∀ j' ∈ js, v.slots.get j'.resource = w.slots.get j'.resource := fun j' hj' => by
    rw [he.slots, get_next_of_ne (hne j' hj')]
  refine ⟨he.slots ▸ h.distinct.next j, he.host ▸ host_attached h.attached, hnodup,
    fun r hr => ?_, ?_, fun j' hj' => ?_, fun j' hj' s hs => ?_, fun o => ?_, ?_⟩
  · obtain ⟨s, hs⟩ := h.stored r (.tail _ hr)
    exact ⟨s, (hget _ hr).trans hs⟩
  · rw [he.slots]
    exact h.slots
  · obtain ⟨hslots, happ⟩ := h.kept j' (.tail _ hj')
    exact ⟨(hget j' hj').trans hslots, (he.applied _ (hne j' hj')).trans happ⟩
  · rw [hget j' hj'] at hs
    rw [← h.linked j' (.tail _ hj') s hs]
    exact he.linked h.distinct (hne j' hj') hs
  · rw [← h.host o]
    have hhas : v.host.Has o ↔ Job.Creates cfg w₀ final o j ∨
        (w.host.Has o ∧ ¬Job.Deletes cfg w₀ final o j) := by
      rw [he.host, has_host, h.old, h.new]
      rfl
    rw [Survives, propext hhas]
  · rw [← h.filed, List.exists_mem_cons_iff]
    by_cases hsaves : j.Saves cfg w₀
    · have hfiled := he.saved (h.saves.mpr hsaves)
      simp only [hfiled, hsaves, true_or, or_true]
    · have hfiled := he.unsaved (mt h.saves.mp hsaves)
      have hslots : v.slots = w.slots := he.slots.trans (next_of_not_saves (mt h.saves.mp hsaves))
      simp only [hfiled, hslots, hsaves, false_or]

end Step

theorem jobs_nodup (hids : (desired.map (·.resourceId)).Nodup) :
    ((jobs slots desired).map Job.resource).Nodup := by
  have hkeys : slots.keys.Nodup :=
    List.pairwise_map.mpr (slots.sorted.imp fun hlt => hlt.ne)
  have hmap : (jobs slots desired).map Job.resource =
      stale slots desired ++ desired.map (·.resourceId) := by
    simp [jobs, Function.comp_def, Job.resource]
  rw [hmap, List.nodup_append]
  refine ⟨hkeys.filter _, hids, fun r hr r' hr' heq => ?_⟩
  have hnot := (List.mem_filter.mp hr).2
  exact absurd (heq ▸ hr') (by simpa using hnot)

theorem mem_stale :
    r ∈ stale slots desired ↔ (∃ s, slots.get r = some s) ∧ ∀ b ∈ desired, b.resourceId ≠ r := by
  simp [stale, List.mem_filter, SortedMap.mem_keys]

variable (cfg) in
/-- What a call leaves, in terms of the state before it. -/
structure Passes (desired : List Binding) (w v : World) : Prop where
  slots : v.slots = plan w.slots (jobs w.slots desired)
  host : ∀ o, v.host.Has o ↔ Survives (Job.Creates cfg w v.slots o) (Job.Deletes cfg w v.slots o)
    (jobs w.slots desired) (w.host.Has o)
  filed : v.filed = v.slots ↔ ((∃ j ∈ jobs w.slots desired, j.Saves cfg w) ∨ w.filed = w.slots)

theorem does_reconcile (hd : DistinctNumbers w.slots) (ha : Attached w.host)
    (hids : (desired.map (·.resourceId)).Nodup) :
    Does (· = w) (reconcile cfg desired) (fun _ => Passes cfg desired w) := by
  let all := jobs w.slots desired
  let final := plan w.slots all
  refine .step does_look fun v => ?_
  rintro _ ⟨rfl, rfl⟩
  rename_i w
  have hstart : Ahead cfg w final all all w := by
    refine ⟨hd, ha, jobs_nodup hids, fun r hr => ?_, rfl, fun _ _ => ⟨rfl, rfl⟩,
      fun _ _ _ _ => Iff.rfl, fun _ => Iff.rfl, Iff.rfl⟩
    have hr : r ∈ stale w.slots desired := by simpa [all, jobs] using hr
    exact (mem_stale.mp hr).1
  have hdrops : Does (Ahead cfg w final all all)
      (Proc.forEach (removeStale cfg) (stale w.slots desired))
      (fun _ => Ahead cfg w final all (desired.map .bind)) := by
    refine .forEach (P := fun rs => Ahead cfg w final all (rs.map .drop ++ desired.map .bind))
      fun r rs => ?_
    intro u hu
    obtain ⟨s, hs⟩ := hu.stored r (by simp)
    refine (does_removeStale hu.attached hs).post (fun x v hv => ?_) u rfl
    cases x with
    | error e => exact hv
    | ok _ => exact hu.step hv
  have hbinds : Does (Ahead cfg w final all (desired.map .bind))
      (Proc.forEach (reconcileBinding cfg) desired) (fun _ => Ahead cfg w final all []) := by
    refine .forEach (P := fun bs => Ahead cfg w final all (bs.map .bind)) fun b bs => ?_
    intro u hu
    refine (does_reconcileBinding hu.attached).post (fun x v hv => ?_) u rfl
    cases x with
    | error e => exact hv
    | ok _ => exact hu.step hv
  refine Total.step hdrops (fun _ => hbinds.post fun x v hv => ?_) w hstart
  cases x with
  | error e => exact hv
  | ok _ =>
    have hv : Ahead cfg w final all [] v := hv
    have hslots : v.slots = final := hv.slots
    refine ⟨hslots, fun o => ?_, ?_⟩
    · rw [hslots]
      exact hv.host o
    · simpa using hv.filed

end RunmanAgent.Wg
