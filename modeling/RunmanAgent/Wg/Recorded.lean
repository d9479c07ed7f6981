import RunmanAgent.Wg.Steps

/-!
# What the maps know about the host

The slots are written ahead of the commands, so after a crash `wg.json` knows everything that has
been set up. What may be lost is what a teardown leaves behind: it ignores the failure of
`ip rule del` and `ip route del`, and the slot is forgotten. `Recorded` holds in every state of a
call: if the deletions are truthful, what is set up belongs to a slot, in memory and in the file.
`Tidy` holds between calls: if the deletions are careful and every resource keeps its instance and
its address, the applied bindings are set up.
-/

namespace RunmanAgent.Wg

open Concurrency Server

/-- The slots of `wg.json`. -/
def World.filed (w : World) : Slots := w.disk.getD {}

/-- No two slots have the same number. -/
def DistinctNumbers (slots : Slots) : Prop :=
  ∀ r r' s s', slots.get r = some s → slots.get r' = some s' → s.n = s'.n → r = r'

variable (cfg : Config)

/-- What is set up on the host belongs to a slot. -/
structure Owned (slots : Slots) (h : Host) : Prop where
  link : ∀ dev ∈ h.links, ∃ r s, slots.get r = some s ∧ dev = iface cfg s
  rule : ∀ a t, (a, t) ∈ h.rules → ∃ r s, slots.get r = some s ∧ a = s.address ∧ t = table cfg s
  route : ∀ d ∈ h.defaults, ∃ r s, slots.get r = some s ∧
    d = (familyOf s.address, table cfg s, iface cfg s)
  bridge : ∀ a ∈ h.bridge, ∃ r s, slots.get r = some s ∧ a = s.address

/-- What the command adds belongs to a slot. -/
def Cmd.Within (slots : Slots) : Cmd → Prop
  | .linkAdd dev => ∃ r s, slots.get r = some s ∧ dev = iface cfg s
  | .ruleAdd a t => ∃ r s, slots.get r = some s ∧ a = s.address ∧ t = table cfg s
  | .replaceDefault family dev t => ∃ r s, slots.get r = some s ∧
    (family, t, dev) = (familyOf s.address, table cfg s, iface cfg s)
  | .replaceRoute a => ∃ r s, slots.get r = some s ∧ a = s.address
  | _ => True

/-- Every default route uses the table and the interface of one number. -/
def Paired (h : Host) : Prop :=
  ∀ d ∈ h.defaults, ∃ s : Slot, d.2.1 = table cfg s ∧ d.2.2 = iface cfg s

/-- Nothing of the slot is set up. -/
structure Clean (s : Slot) (h : Host) : Prop where
  link : iface cfg s ∉ h.links
  rule : (s.address, table cfg s) ∉ h.rules
  bridge : s.address ∉ h.bridge

/-- Everything is there for the slot. -/
structure Installed (s : Slot) (h : Host) : Prop where
  link : iface cfg s ∈ h.links
  rule : (s.address, table cfg s) ∈ h.rules
  route : (familyOf s.address, table cfg s, iface cfg s) ∈ h.defaults
  bridge : s.address ∈ h.bridge

instance (s : Slot) (h : Host) : Decidable (Installed cfg s h) :=
  decidable_of_iff (iface cfg s ∈ h.links ∧ (s.address, table cfg s) ∈ h.rules ∧
    (familyOf s.address, table cfg s, iface cfg s) ∈ h.defaults ∧ s.address ∈ h.bridge)
    ⟨fun hi => ⟨hi.1, hi.2.1, hi.2.2.1, hi.2.2.2⟩, fun hi => ⟨hi.1, hi.2, hi.3, hi.4⟩⟩

/-- The applied bindings are set up, apart from those of the resource `r`. -/
def GoodBut (r : String) (w : World) : Prop :=
  ∀ r' v, r' ≠ r → w.applied.get r' = some v → ∃ s, w.slots.get r' = some s ∧ Installed cfg s w.host

def Good (w : World) : Prop :=
  ∀ r v, w.applied.get r = some v → ∃ s, w.slots.get r = some s ∧ Installed cfg s w.host

variable {cfg} {slots : Slots} {h : Host} {c : Cmd} {fails : Bool} {r : String} {s : Slot}
  {w : World} {i : Input}

theorem Owned.after (ho : Owned cfg slots h) (hc : c.Within cfg slots) :
    Owned cfg slots (c.after fails h) := by
  refine ⟨fun dev hm => ?_, fun a t hm => ?_, fun d hm => ?_, fun a hm => ?_⟩
  · rcases mem_links_after hm with hm | rfl
    · exact ho.link dev hm
    · exact hc
  · rcases mem_rules_after hm with hm | rfl
    · exact ho.rule a t hm
    · exact hc
  · rcases mem_defaults_after hm with hm | rfl
    · exact ho.route d hm
    · exact hc
  · rcases mem_bridge_after hm with hm | rfl
    · exact ho.bridge a hm
    · exact hc

theorem Paired.after (hp : Paired cfg h) (hc : c.Within cfg slots) :
    Paired cfg (c.after fails h) := by
  intro d hd
  rcases mem_defaults_after hd with hd | rfl
  · exact hp d hd
  · obtain ⟨r, s, -, heq⟩ := hc
    exact ⟨s, congrArg (·.2.1) heq, congrArg (·.2.2) heq⟩

theorem Owned.of_clean {slots' : Slots} (ho : Owned cfg slots h) (hh : Attached h)
    (hclean : ∀ r s, slots.get r = some s → slots'.get r = some s ∨ Clean cfg s h) :
    Owned cfg slots' h := by
  refine ⟨fun dev hm => ?_, fun a t hm => ?_, fun d hm => ?_, fun a hm => ?_⟩
  · obtain ⟨r, s, hs, rfl⟩ := ho.link dev hm
    exact ⟨r, s, (hclean r s hs).resolve_right fun hcl => hcl.link hm, rfl⟩
  · obtain ⟨r, s, hs, rfl, rfl⟩ := ho.rule a t hm
    exact ⟨r, s, (hclean r s hs).resolve_right fun hcl => hcl.rule hm, rfl, rfl⟩
  · obtain ⟨r, s, hs, rfl⟩ := ho.route d hm
    exact ⟨r, s, (hclean r s hs).resolve_right fun hcl => hcl.link (hh _ hm), rfl⟩
  · obtain ⟨r, s, hs, rfl⟩ := ho.bridge a hm
    exact ⟨r, s, (hclean r s hs).resolve_right fun hcl => hcl.bridge hm, rfl⟩

theorem DistinctNumbers.insert (hd : DistinctNumbers slots)
    (hs : ∀ r' s', slots.get r' = some s' → s'.n = s.n → r' = r) :
    DistinctNumbers (slots.insert r s) := by
  intro r₁ r₂ s₁ s₂ h₁ h₂ hn
  rw [SortedMap.get_insert] at h₁ h₂
  split at h₁ <;> split at h₂
  · rename_i h₁' h₂'
    rw [h₁', h₂']
  · rename_i hr _
    cases h₁
    rw [hr]
    exact (hs r₂ s₂ h₂ hn.symm).symm
  · rename_i hr
    cases h₂
    rw [hr]
    exact hs r₁ s₁ h₁ hn
  · exact hd r₁ r₂ s₁ s₂ h₁ h₂ hn

theorem DistinctNumbers.erase (hd : DistinctNumbers slots) : DistinctNumbers (slots.erase r) := by
  intro r₁ r₂ s₁ s₂ h₁ h₂ hn
  rw [SortedMap.get_erase] at h₁ h₂
  split at h₁
  · cases h₁
  · split at h₂
    · cases h₂
    · exact hd r₁ r₂ s₁ s₂ h₁ h₂ hn

/-! ## Assumptions -/

/-- `ip rule del` and `ip route del` fail only when there is nothing to delete. -/
def TruthfulDeletes (_ : Pid) (e : Act) (w : World) (i : Input) : Prop :=
  match e with
  | .cmd (.ruleDel a t) => (a, t) ∈ w.host.rules → i.fail = none
  | .cmd (.routeDel a) => a ∈ w.host.bridge → i.fail = none
  | _ => True

instance (p : Pid) (e : Act) (w : World) (i : Input) : Decidable (TruthfulDeletes p e w i) :=
  match e with
  | .cmd (.ruleDel a t) => inferInstanceAs (Decidable ((a, t) ∈ w.host.rules → i.fail = none))
  | .cmd (.routeDel a) => inferInstanceAs (Decidable (a ∈ w.host.bridge → i.fail = none))
  | .cmd (.linkAdd _) | .cmd (.linkDel _) | .cmd (.wgSet ..) | .cmd (.linkUp _)
  | .cmd (.rpFilter _) | .cmd (.replaceDefault ..) | .cmd (.replaceRoute _) | .cmd (.ruleAdd ..)
  | .cmd (.flush ..) | .resolve _ | .save | .insertSlot .. | .remove _ | .setApplied ..
  | .dropApplied _ | .look => .isTrue trivial

variable (cfg) in
/-- `ip link del` fails only for an interface whose binding is not applied or still set up, and
`ip route del` succeeds only if no other slot has the address of an applied binding. -/
def CarefulDeletes (_ : Pid) (e : Act) (w : World) (i : Input) : Prop :=
  match e with
  | .cmd (.linkDel dev) => i.fail ≠ none → ∀ x ∈ w.slots.entries, iface cfg x.2 = dev →
      (w.applied.get x.1).isSome = true → Installed cfg x.2 w.host
  | .cmd (.routeDel a) => i.fail = none → ∀ x ∈ w.slots.entries, ∀ y ∈ w.slots.entries,
      (w.applied.get x.1).isSome = true → x.2.address = a → y.2.address = a → x.1 = y.1
  | _ => True

variable (cfg) in
instance (p : Pid) (e : Act) (w : World) (i : Input) : Decidable (CarefulDeletes cfg p e w i) :=
  match e with
  | .cmd (.linkDel dev) => inferInstanceAs (Decidable (i.fail ≠ none → ∀ x ∈ w.slots.entries,
      iface cfg x.2 = dev → (w.applied.get x.1).isSome = true → Installed cfg x.2 w.host))
  | .cmd (.routeDel a) => inferInstanceAs (Decidable (i.fail = none →
      ∀ x ∈ w.slots.entries, ∀ y ∈ w.slots.entries, (w.applied.get x.1).isSome = true →
        x.2.address = a → y.2.address = a → x.1 = y.1))
  | .cmd (.ruleDel ..) | .cmd (.linkAdd _) | .cmd (.wgSet ..) | .cmd (.linkUp _)
  | .cmd (.rpFilter _) | .cmd (.replaceDefault ..) | .cmd (.replaceRoute _) | .cmd (.ruleAdd ..)
  | .cmd (.flush ..) | .resolve _ | .save | .insertSlot .. | .remove _ | .setApplied ..
  | .dropApplied _ | .look => .isTrue trivial

/-- The address and the instance of the resource. -/
def AtHome (home : String → VmId × IpAddr) (slots : Slots) : Prop :=
  ∀ r s, slots.get r = some s → s.vmId = (home r).1.asStr ∧ s.address = (home r).2

/-- Every binding names the address and the instance that its resource has for ever. -/
def Faithful (home : String → VmId × IpAddr) (desired : List Binding) (_ : World) : Prop :=
  ∀ b ∈ desired, (b.vmId, b.address) = home b.resourceId

instance (home : String → VmId × IpAddr) (desired : List Binding) (w : World) :
    Decidable (Faithful home desired w) :=
  inferInstanceAs (Decidable (∀ b ∈ desired, (b.vmId, b.address) = home b.resourceId))

/-- What may be assumed about the histories. -/
structure Assumed where
  /-- The deletions are truthful. -/
  truthful : Prop := False
  /-- They are careful, and the bindings are faithful to `home`. -/
  careful : Prop := False
  home : String → VmId × IpAddr := fun _ => (first.vmId, first.address)

variable (cfg) in
class Meets (A : Assumed) (ok : Pid → Act → World → Input → Prop) : Prop where
  truthful {e : Act} {w : World} {i : Input} :
    A.truthful → ok self e w i → TruthfulDeletes self e w i
  careful {e : Act} {w : World} {i : Input} :
    A.careful → ok self e w i → CarefulDeletes cfg self e w i

variable (cfg) in
/-- The numbers of the slots are distinct, and memory and file know what is set up. -/
structure Recorded (A : Assumed) (w : World) : Prop where
  distinct : DistinctNumbers w.slots
  filedDistinct : DistinctNumbers w.filed
  attached : Attached w.host
  paired : Paired cfg w.host
  owned : A.truthful → Owned cfg w.slots w.host
  filed : A.truthful → Owned cfg w.filed w.host
  atHome : A.careful → AtHome A.home w.slots
  filedAtHome : A.careful → AtHome A.home w.filed

variable (cfg) in
/-- Between calls the applied bindings are set up. -/
def Tidy (A : Assumed) (w : World) : Prop := A.careful → Good cfg w

variable {A : Assumed} {ok : Pid → Act → World → Input → Prop}

variable (cfg A ok) in
abbrev Keeps {α : Type} (P : World → Prop) (p : Prog World Input Act α) (Q : α → World → Prop) :
    Prop :=
  Hoare machine ok self (Recorded cfg A) P p Q

/-! ## Commands -/

theorem Recorded.cmd (hw : Recorded cfg A w) (hm : c.Within cfg w.slots)
    (hf : c.Within cfg w.filed) : Recorded cfg A (w.apply i (.cmd c)) :=
  ⟨hw.distinct, hw.filedDistinct, hw.attached.after, hw.paired.after hm,
    fun ht => (hw.owned ht).after hm, fun ht => (hw.filed ht).after hf, hw.atHome, hw.filedAtHome⟩

/-- What the command removes or replaces is of the slot. -/
def Cmd.Concerns (cfg : Config) (s : Slot) : Cmd → Prop
  | .linkDel dev => dev = iface cfg s
  | .flush _ t | .replaceDefault _ _ t | .ruleDel _ t => t = table cfg s
  | .routeDel a => a = s.address
  | _ => True

theorem GoodBut.cmd (hd : DistinctNumbers w.slots) (hs : w.slots.get r = some s)
    (hc : c.Concerns cfg s) (hi : CarefulDeletes cfg self (.cmd c) w i) (hg : GoodBut cfg r w) :
    GoodBut cfg r (w.apply i (.cmd c)) := by
  intro r' v hr hv
  obtain ⟨s', hs', hinst⟩ := hg r' v hr hv
  have hn : s'.n ≠ s.n := fun heq => hr (hd r' r s' s hs' hs heq)
  refine ⟨s', hs', ⟨?_, ?_, ?_, ?_⟩⟩
  · rcases links_after_keep c i.fail.isSome hinst.link with h | ⟨rfl, -⟩
    · exact h
    · exact absurd (iface_inj hc) hn
  · rcases rules_after_keep c i.fail.isSome hinst.rule with h | rfl
    · exact h
    · exact absurd (table_inj hc) hn
  · rcases defaults_after_keep c i.fail.isSome hinst.route with h | rfl | rfl | ⟨dev, rfl⟩
    · exact h
    · exact absurd (iface_inj hc) hn
    · exact absurd (table_inj hc) hn
    · exact absurd (table_inj hc) hn
  · rcases bridge_after_keep c i.fail.isSome hinst.bridge with h | ⟨rfl, hfail⟩
    · exact h
    · have hc : s'.address = s.address := hc
      have hone := hi (by simpa using hfail) (r', s') (SortedMap.get_eq_some.mp hs') (r, s)
        (SortedMap.get_eq_some.mp hs) (Option.isSome_iff_exists.mpr ⟨v, hv⟩) rfl hc.symm
      exact absurd hone hr

theorem Good.but (h : Good cfg w) : GoodBut cfg r w := fun r' v _ hv => h r' v hv

theorem GoodBut.good (h : GoodBut cfg r w) (hs : w.slots.get r = some s)
    (hr : ∀ v, w.applied.get r = some v → Installed cfg s w.host) : Good cfg w := by
  intro r' v hv
  by_cases heq : r' = r
  · subst heq
    exact ⟨s, hs, hr v hv⟩
  · exact h r' v heq hv

/-! ## The maps -/

variable {home : String → VmId × IpAddr}

theorem AtHome.insert (h : AtHome home slots)
    (hs : s.vmId = (home r).1.asStr ∧ s.address = (home r).2) :
    AtHome home (slots.insert r s) := by
  intro r' s' hget
  rw [SortedMap.get_insert] at hget
  split at hget
  · rename_i hr
    cases hget
    rwa [hr]
  · exact h r' s' hget

theorem AtHome.erase (h : AtHome home slots) : AtHome home (slots.erase r) := by
  intro r' s' hget
  rw [SortedMap.get_erase] at hget
  split at hget
  · cases hget
  · exact h r' s' hget

theorem Recorded.save (hw : Recorded cfg A w) : Recorded cfg A (w.apply i .save) := by
  cases hfail : i.fail with
  | some e => simpa [World.apply, hfail] using hw
  | none =>
    have hfiled : (w.apply i .save).filed = w.slots := by simp [World.apply, World.filed, hfail]
    exact ⟨hw.distinct, hfiled ▸ hw.distinct, hw.attached, hw.paired, hw.owned, hfiled ▸ hw.owned,
      hw.atHome, hfiled ▸ hw.atHome⟩

theorem Recorded.applied {applied : SortedMap String (Nat × String)} (hw : Recorded cfg A w) :
    Recorded cfg A { w with applied } :=
  ⟨hw.1, hw.2, hw.3, hw.4, hw.5, hw.6, hw.7, hw.8⟩

variable (cfg A) in
/-- The slot may be stored for the resource. -/
structure Insertable (r : String) (s : Slot) (w : World) : Prop where
  number : ∀ r' s', w.slots.get r' = some s' → s'.n = s.n → r' = r
  clean : A.truthful → ∀ old, w.slots.get r = some old → old = s ∨ Clean cfg old w.host
  same : A.careful → ∀ old, w.slots.get r = some old → old = s
  atHome : A.careful → s.vmId = (A.home r).1.asStr ∧ s.address = (A.home r).2

theorem Recorded.insert (hw : Recorded cfg A w) (hs : Insertable cfg A r s w) :
    Recorded cfg A { w with slots := w.slots.insert r s } := by
  refine ⟨hw.distinct.insert hs.number, hw.filedDistinct, hw.attached, hw.paired,
    fun ht => (hw.owned ht).of_clean hw.attached fun r' s' hget => ?_, hw.filed,
    fun hc => (hw.atHome hc).insert (hs.atHome hc), hw.filedAtHome⟩
  by_cases hr : r' = r
  · subst hr
    rcases hs.clean ht s' hget with rfl | hclean
    · exact .inl SortedMap.get_insert_self
    · exact .inr hclean
  · exact .inl ((SortedMap.get_insert_ne hr).trans hget)

theorem Recorded.remove (hw : Recorded cfg A w)
    (hclean : A.truthful → ∀ s, w.slots.get r = some s → Clean cfg s w.host) :
    Recorded cfg A { w with slots := w.slots.erase r, applied := w.applied.erase r } := by
  refine ⟨hw.distinct.erase, hw.filedDistinct, hw.attached, hw.paired,
    fun ht => (hw.owned ht).of_clean hw.attached fun r' s' hget => ?_, hw.filed,
    fun hc => (hw.atHome hc).erase, hw.filedAtHome⟩
  by_cases hr : r' = r
  · subst hr
    exact .inr (hclean ht s' hget)
  · exact .inl ((SortedMap.get_erase_ne hr).trans hget)

/-! ## Commands of a call -/

/-- The resource has the slot; `K` is known of the file, and `G` if the deletions are careful. -/
structure Holds (A : Assumed) (G : World → Prop) (r : String) (s : Slot)
    (K : Option Slots → Prop) (w : World) : Prop where
  slot : w.slots.get r = some s
  file : K w.disk
  good : A.careful → G w

variable (cfg A) in
/-- The resource is being worked on. -/
abbrev Working (r : String) (s : Slot) (K : Option Slots → Prop) : World → Prop :=
  Holds A (GoodBut cfg r) r s K

variable (cfg A) in
abbrev Resting (r : String) (s : Slot) (K : Option Slots → Prop) : World → Prop :=
  Holds A (Good cfg) r s K

variable {K : Option Slots → Prop}

theorem Holds.working (hw : Resting cfg A r s K w) : Working cfg A r s K w :=
  ⟨hw.slot, hw.file, fun hc => (hw.good hc).but⟩

section Walk

variable [Meets cfg A ok]

theorem keeps_command {E : World → Prop} (J J' : Host → Prop) (hc : c.Concerns cfg s)
    (hm : ∀ slots : Slots, slots.get r = some s → c.Within cfg slots)
    (hf : ∀ d : Option Slots, K d → c.Within cfg (d.getD {}))
    (hok : ∀ h h', J h → c.exec h = some h' → J' h')
    (herr : ∀ w i, Working cfg A r s K w → J w.host → ok self (.cmd c) w i →
      i.fail ≠ none ∨ c.exec w.host = none → E w) :
    Keeps cfg A ok (fun w => Working cfg A r s K w ∧ J w.host) (command c)
      (ends (fun _ w => Working cfg A r s K w ∧ J' w.host) (fun _ => E)) := by
  refine hoare_command (fun _ _ hinv hw _ => hinv.cmd (hm _ hw.1.slot) (hf _ hw.1.file))
    (fun w i h' hinv hw hi hfail hexec => ?_) fun w i _ hw hi hno => herr w i hw.1 hw.2 hi hno
  refine ⟨⟨hw.1.slot, hw.1.file, fun hcar => ?_⟩, hok w.host h' hw.2 hexec⟩
  have hgood := (hw.1.good hcar).cmd hinv.distinct hw.1.slot hc (Meets.careful hcar hi)
  rwa [apply_cmd, hfail, Option.isSome_none, after_of_exec hexec] at hgood

/-- A command after whose failure the work goes on. -/
theorem keeps_goOn (J J' : Host → Prop) (hc : c.Concerns cfg s)
    (hm : ∀ slots : Slots, slots.get r = some s → c.Within cfg slots)
    (hf : ∀ d : Option Slots, K d → c.Within cfg (d.getD {}))
    (hok : ∀ h h', J h → c.exec h = some h' → J' h') :
    Keeps cfg A ok (fun w => Working cfg A r s K w ∧ J w.host) (command c)
      (ends (fun _ w => Working cfg A r s K w ∧ J' w.host)
        (fun _ w => Working cfg A r s K w ∧ J w.host)) :=
  keeps_command J J' hc hm hf hok fun _ _ hw hj _ _ => ⟨hw, hj⟩

/-! ## Teardown -/

variable {a : IpAddr} {t n : Nat}

theorem keeps_ruleDel (ht : t = table cfg s) :
    Keeps cfg A ok (fun w => Working cfg A r s K w ∧ w.host.rules.count (a, t) ≤ n)
      (command (.ruleDel a t))
      (ends (fun _ w => Working cfg A r s K w ∧ w.host.rules.count (a, t) + 1 ≤ n)
        (fun _ w => Working cfg A r s K w ∧ (A.truthful → (a, t) ∉ w.host.rules))) := by
  refine keeps_command (fun h => h.rules.count (a, t) ≤ n) (fun h => h.rules.count (a, t) + 1 ≤ n)
    ht (fun _ _ => trivial) (fun _ _ => trivial) (fun h h' hle hexec => ?_)
    fun w i hw _ hi hno => ⟨hw, fun ht hmem => ?_⟩
  · have hmem : (a, t) ∈ h.rules := by
      by_contra hnot
      simp [Cmd.exec, hnot] at hexec
    have hpos := List.count_pos_iff.mpr hmem
    rw [rules_exec hexec, Cmd.rules, List.count_erase_self]
    omega
  · rcases hno with hfail | hnone
    · exact hfail (Meets.truthful cfg ht hi hmem)
    · simp [Cmd.exec, hmem] at hnone

theorem keeps_dropRules (ht : t = table cfg s) :
    Keeps cfg A ok (Working cfg A r s K) (dropRules a t)
      (ends (fun _ w => Working cfg A r s K w ∧ (A.truthful → (a, t) ∉ w.host.rules))
        (fun _ _ => False)) := by
  refine .chain (R := fun v w => Working cfg A r s K w ∧ w.host.rules.count (a, t) ≤
    v.host.rules.count (a, t)) (hoare_look fun w _ hw => ⟨hw, le_refl _⟩) (fun _ _ _ h => h)
    fun v => ?_
  -- a round deletes one copy
  exact .whileOk (P := fun n w => Working cfg A r s K w ∧ w.host.rules.count (a, t) ≤ n)
    (B := fun n w => Working cfg A r s K w ∧ w.host.rules.count (a, t) + 1 ≤ n)
    (fun n => keeps_ruleDel ht) (fun n => .ret fun w _ hw => ⟨hw.1, by omega⟩)
    fun w _ hw => absurd hw.2 (by omega)

/-- If the interface cannot be deleted, the binding is still set up or does not count as
applied. -/
theorem keeps_dropLink (J : Host → Prop)
    (hJ : ∀ h h', J h → (Cmd.linkDel (iface cfg s)).exec h = some h' → J h') :
    Keeps cfg A ok (fun w => Working cfg A r s K w ∧ J w.host) (dropLink (iface cfg s))
      (ends (fun _ w => Working cfg A r s K w ∧ J w.host ∧ iface cfg s ∉ w.host.links)
        (fun _ => Resting cfg A r s K)) := by
  refine .step (R := fun v w => (Working cfg A r s K w ∧ J w.host) ∧ v = w)
    (hoare_look fun w _ hw => ⟨hw, rfl⟩) fun v => ?_
  by_cases hdev : iface cfg s ∈ v.host.links
  · rw [if_pos hdev]
    refine (keeps_command (c := .linkDel _) (fun h => J h ∧ iface cfg s ∈ h.links)
      (fun h => J h ∧ iface cfg s ∉ h.links) rfl (fun _ _ => trivial) (fun _ _ => trivial)
      (fun h h' hh hexec => ⟨hJ h h' hh.1 hexec, ?_⟩) fun w i hw hj hi hno => ?_).pre
      fun w _ hw => ⟨hw.1.1, hw.1.2, hw.2 ▸ hdev⟩
    · simp [links_exec hexec, Cmd.links]
    · rcases hno with hfail | hnone
      · refine ⟨hw.slot, hw.file, fun hcar => (hw.good hcar).good hw.slot fun v' hv' => ?_⟩
        exact Meets.careful hcar hi hfail (r, s) (SortedMap.get_eq_some.mp hw.slot) rfl
          (by simp [hv'])
      · simp [Cmd.exec, hj.2] at hnone
  · rw [if_neg hdev]
    exact .ret fun w _ hw => ⟨hw.1.1, hw.1.2, hw.2 ▸ hdev⟩

theorem keeps_teardown :
    Keeps cfg A ok (Resting cfg A r s K) (teardown cfg s)
      (ends (fun _ w => Working cfg A r s K w ∧ (A.truthful → Clean cfg s w.host))
        (fun _ => Resting cfg A r s K)) := by
  let NoRule : Host → Prop := fun h => A.truthful → (s.address, table cfg s) ∉ h.rules
  let NoRoute : Host → Prop := fun h => NoRule h ∧ (A.truthful → s.address ∉ h.bridge)
  refine .step ((keeps_dropRules rfl).pre fun w _ hw => hw.working) fun _ => ?_
  refine .step (hoare_ignored (keeps_goOn NoRule NoRule rfl (fun _ _ => trivial)
    (fun _ _ => trivial) fun h h' hh hexec ht hm => ?_)) fun _ => ?_
  · exact hh ht (by rwa [rules_exec hexec] at hm)
  refine .step (hoare_ignored (keeps_command NoRule NoRoute rfl (fun _ _ => trivial)
      (fun _ _ => trivial) (fun h h' hh hexec => ⟨fun ht hm => ?_, fun _ => ?_⟩)
      fun w i hw hj hi hno => ⟨hw, hj, fun ht hmem => ?_⟩)) fun _ => ?_
  · exact hh ht (by rwa [rules_exec hexec] at hm)
  · simp [bridge_exec hexec, Cmd.bridge]
  · rcases hno with hfail | hnone
    · exact hfail (Meets.truthful cfg ht hi hmem)
    · simp [Cmd.exec, hmem] at hnone
  refine (keeps_dropLink NoRoute fun h h' hh hexec => ⟨?_, ?_⟩).post fun x w _ hw => ?_
  · exact fun ht hm => hh.1 ht (by rwa [rules_exec hexec] at hm)
  · exact fun ht hm => hh.2 ht (by rwa [bridge_exec hexec] at hm)
  · cases x with
    | ok _ => exact ⟨hw.1, fun ht => ⟨hw.2.2, hw.2.1.1 ht, hw.2.1.2 ht⟩⟩
    | error _ => exact hw

/-! ## Setup -/

/-- The slot is in the file. -/
def Filed (r : String) (s : Slot) (d : Option Slots) : Prop := (d.getD {}).get r = some s

variable {b : Binding} {ep : String}

/-- A command of the setup. -/
theorem keeps_setupCmd (J J' : Host → Prop) (hc : c.Concerns cfg s)
    (hm : ∀ slots : Slots, slots.get r = some s → c.Within cfg slots)
    (hok : ∀ h h', J h → c.exec h = some h' → J' h') :
    Keeps cfg A ok (fun w => Working cfg A r s (Filed r s) w ∧ J w.host) (command c)
      (ends (fun _ w => Working cfg A r s (Filed r s) w ∧ J' w.host)
        (fun _ w => Working cfg A r s (Filed r s) w ∧ J w.host)) :=
  keeps_goOn J J' hc hm (fun _ => hm _) hok

/-- One that changes nothing that is modelled. -/
theorem keeps_still (J : Host → Prop) (hc : c.Concerns cfg s) (hm : ∀ slots, c.Within cfg slots)
    (hsame : ∀ h h', c.exec h = some h' → h' = h) :
    Keeps cfg A ok (fun w => Working cfg A r s (Filed r s) w ∧ J w.host) (command c)
      (ends (fun _ w => Working cfg A r s (Filed r s) w ∧ J w.host)
        (fun _ w => Working cfg A r s (Filed r s) w ∧ J w.host)) :=
  keeps_setupCmd J J hc (fun _ _ => hm _) fun h h' hh hexec => by rwa [hsame h h' hexec]

theorem keeps_setup (hb : s.address = b.address) :
    Keeps cfg A ok (Working cfg A r s (Filed r s)) (setup cfg s b ep)
      (ends (fun _ w => Working cfg A r s (Filed r s) w ∧ Installed cfg s w.host)
        (fun _ => Working cfg A r s (Filed r s))) := by
  let Link : Host → Prop := fun h => iface cfg s ∈ h.links
  let Routed : Host → Prop := fun h =>
    Link h ∧ (familyOf s.address, table cfg s, iface cfg s) ∈ h.defaults
  let Bridged : Host → Prop := fun h => Routed h ∧ s.address ∈ h.bridge
  refine .chain ((keeps_dropLink (fun _ => True) fun _ _ _ _ => trivial).pre
    fun w _ hw => ⟨hw, trivial⟩) (fun _ _ _ hw => hw.working) fun _ => ?_
  refine .chain (Hoare.pre (keeps_setupCmd (fun _ => True) Link trivial
    (fun _ hs => ⟨r, s, hs, rfl⟩) fun h h' _ hexec => ?_) fun w _ hw => ⟨hw.1, trivial⟩)
    (fun _ _ _ hw => hw.1) fun _ => ?_
  · simp [Link, links_exec hexec, Cmd.links]
  refine .chain (keeps_still Link trivial (fun _ => trivial) fun _ _ => exec_eq)
    (fun _ _ _ hw => hw.1) fun _ => ?_
  refine .chain (R := fun _ w => Working cfg A r s (Filed r s) w ∧ Link w.host)
    (E := fun _ w => Working cfg A r s (Filed r s) w ∧ Link w.host) ?_
    (fun _ _ _ hw => hw.1) fun _ => ?_
  · unfold setPeer
    split <;> exact keeps_still Link trivial (fun _ => trivial) fun _ _ => exec_eq
  refine .chain (keeps_still Link trivial (fun _ => trivial) fun _ _ => exec_eq)
    (fun _ _ _ hw => hw.1) fun _ => ?_
  refine .step (R := fun _ w => Working cfg A r s (Filed r s) w ∧ Link w.host) ?_ fun _ => ?_
  · unfold relaxFilter
    split
    · exact hoare_ignored (keeps_still Link trivial (fun _ => trivial) fun _ _ => exec_eq)
    · exact .ret fun _ _ hw => hw
  refine .chain (keeps_setupCmd Link Routed rfl (fun _ hs => ⟨r, s, hs, by rw [hb]⟩)
    fun h h' hh hexec => ⟨?_, ?_⟩) (fun _ _ _ hw => hw.1) fun _ => ?_
  · simpa [Link, links_exec hexec, Cmd.links] using hh
  · simp [defaults_exec hexec, Cmd.defaults, hb]
  refine .chain (keeps_setupCmd Routed Bridged trivial (fun _ hs => ⟨r, s, hs, hb.symm⟩)
    fun h h' hh hexec => ?_) (fun _ _ _ hw => hw.1) fun _ => ?_
  · cases hexec
    exact ⟨hh, by simp [hb]⟩
  refine .step (hoare_ignored (keeps_setupCmd Bridged Bridged rfl (fun _ _ => trivial)
    fun h h' hh hexec => ?_)) fun _ => ?_
  · rwa [exec_eq hexec]
  refine (keeps_setupCmd (c := .ruleAdd _ _) Bridged (Installed cfg s) trivial
    (fun _ hs => ⟨r, s, hs, hb.symm, rfl⟩) fun h h' hh hexec => ?_).post fun x w _ hw => ?_
  · cases hexec
    exact ⟨hh.1.1, by simp [hb], hh.1.2, hh.2⟩
  · cases x with
    | ok _ => exact hw
    | error _ => exact hw.1

/-! ## Calls -/

omit [Meets cfg A ok] in
theorem keeps_insertSlot :
    Keeps cfg A ok (fun w => Tidy cfg A w ∧ Insertable cfg A r s w)
      (Proc.run (.insertSlot r s) : HostProc Unit)
      (ends (fun _ => Resting cfg A r s fun _ => True) (fun _ _ => False)) := by
  refine .perform fun w i hinv hw _ => ⟨hinv.insert hw.2, SortedMap.get_insert_self,
    trivial, fun hcar r' v hv => ?_⟩
  obtain ⟨s', hs', hinst⟩ := hw.1 hcar r' v hv
  by_cases hr : r' = r
  · subst hr
    exact ⟨s, SortedMap.get_insert_self, hw.2.same hcar s' hs' ▸ hinst⟩
  · exact ⟨s', (SortedMap.get_insert_ne hr).trans hs', hinst⟩

omit [Meets cfg A ok] in
theorem keeps_save :
    Keeps cfg A ok (Resting cfg A r s fun _ => True) save
      (ends (fun _ => Resting cfg A r s (Filed r s)) (fun _ => Tidy cfg A)) := by
  refine .perform fun w i hinv hw _ => ⟨hinv.save, ?_⟩
  cases hfail : i.fail with
  | some e => exact hw.good
  | none => exact ⟨hw.slot, by simpa [World.apply, Filed, machine, hfail] using hw.slot, hw.good⟩

theorem keeps_install (hb : s.address = b.address) :
    Keeps cfg A ok (fun w => Tidy cfg A w ∧ Insertable cfg A b.resourceId s w)
      (install cfg s b ep) (fun _ => Tidy cfg A) := by
  refine .step keeps_insertSlot fun _ => ?_
  refine .chain keeps_save (fun _ _ _ h => h) fun _ => ?_
  refine .attemptBind ((keeps_setup hb).pre fun w _ hw => hw.working) fun x => ?_
  cases x with
  | ok _ =>
    refine Hoare.perform fun w i hinv hw _ => ⟨hinv.applied, fun hcar => ?_⟩
    refine GoodBut.good (r := b.resourceId) (fun r' v hr hv => ?_) hw.1.slot fun _ _ => hw.2
    exact hw.1.good hcar r' v hr ((SortedMap.get_insert_ne hr).symm.trans hv)
  | error _ =>
    refine Hoare.perform fun w i hinv hw _ => ⟨hinv.applied, fun hcar => ?_⟩
    refine GoodBut.good (r := b.resourceId) (fun r' v hr hv => ?_) hw.slot fun v hv => ?_
    · exact hw.good hcar r' v hr ((SortedMap.get_erase_ne hr).symm.trans hv)
    · cases SortedMap.get_erase_self.symm.trans hv

theorem keeps_nextSlot {v : World} (hb : A.careful → (b.vmId, b.address) = A.home b.resourceId) :
    Keeps cfg A ok (fun w => Tidy cfg A w ∧ v = w) (nextSlot cfg v b)
      (ends (fun o w => Tidy cfg A w ∧ ∀ slot, o = some slot →
        Insertable cfg A b.resourceId slot w ∧ slot.address = b.address) (fun _ _ => False)) := by
  have hhome : A.careful → b.vmId.asStr = (A.home b.resourceId).1.asStr ∧
      b.address = (A.home b.resourceId).2 := fun hcar => by
    rw [← hb hcar]
    exact ⟨rfl, rfl⟩
  unfold nextSlot
  cases hget : v.slots.get b.resourceId with
  | none =>
    refine .ret fun w _ hw => ⟨hw.1, fun slot hslot => ?_⟩
    cases hslot
    obtain ⟨-, rfl⟩ := hw
    refine ⟨⟨fun r' s' hs' hn => absurd hn.symm (freeN_ne hs'), fun _ old hold => ?_,
      fun _ old hold => ?_, hhome⟩, rfl⟩
    · cases hget.symm.trans hold
    · cases hget.symm.trans hold
  | some old =>
    have hnumber : ∀ {w : World} {s : Slot}, Recorded cfg A w →
        w.slots.get b.resourceId = some old → s.n = old.n → ∀ r' s', w.slots.get r' = some s' →
          s'.n = s.n → r' = b.resourceId :=
      fun hinv hold hs r' s' hs' hn => hinv.distinct _ _ _ _ hs' hold (hn.trans hs)
    dsimp only
    split
    · rename_i hsame
      simp only [sameSlot, Bool.and_eq_true, beq_iff_eq] at hsame
      refine .ret fun w hinv hw => ⟨hw.1, fun slot hslot => ?_⟩
      cases hslot
      obtain ⟨-, rfl⟩ := hw
      have heq : ∀ old', v.slots.get b.resourceId = some old' → old' = old :=
        fun old' hold => Option.some.inj (hold.symm.trans hget)
      exact ⟨⟨hnumber hinv hget rfl, fun _ old' hold => .inl (heq old' hold), fun _ => heq,
        fun hcar => hinv.atHome hcar _ _ hget⟩, hsame.2⟩
    · rename_i hnot
      -- a resource that keeps its instance and its address keeps its slot
      have hcareless : ∀ {w : World}, Recorded cfg A w → w.slots.get b.resourceId = some old →
          ¬A.careful := by
        intro w hinv hold hcar
        have hat := hinv.atHome hcar _ _ hold
        refine hnot ?_
        simp only [sameSlot, Bool.and_eq_true, beq_iff_eq]
        exact ⟨hat.1.trans (hhome hcar).1.symm, hat.2.trans (hhome hcar).2.symm⟩
      refine .attemptBind ((keeps_teardown (K := fun _ => True)).pre
        fun w _ hw => ⟨hw.2 ▸ hget, trivial, hw.1⟩) fun x => ?_
      cases x with
      | error e => exact .ret fun _ _ hw => ⟨hw.good, nofun⟩
      | ok _ =>
        refine .ret fun w hinv hw => ?_
        have hnc := hcareless hinv hw.1.slot
        refine ⟨fun hcar => absurd hcar hnc, fun slot hslot => ?_⟩
        cases hslot
        refine ⟨⟨hnumber hinv hw.1.slot rfl, fun ht old' hold => .inr ?_,
          fun hcar => absurd hcar hnc, hhome⟩, rfl⟩
        exact Option.some.inj (hw.1.slot.symm.trans hold) ▸ hw.2 ht

omit [Meets cfg A ok] in
theorem keeps_refreshEndpoint {v : World} :
    Keeps cfg A ok (fun w => Tidy cfg A w ∧ v = w) (refreshEndpoint cfg v b ep)
      (fun _ => Tidy cfg A) := by
  unfold refreshEndpoint
  split
  · rename_i fp ep' slot happ hslot
    split
    · refine .attemptBind (R := fun _ w => Tidy cfg A w ∧ v.applied = w.applied)
        (Hoare.perform fun w i hinv hw _ => ⟨hinv.cmd trivial trivial, ?_⟩) fun x => ?_
      · have hsame : machine.apply (.cmd (.wgSet (iface cfg slot)
            ["peer", b.peerPublicKey, "endpoint", ep] none)) self w i = w := by
          simp only [machine, apply_cmd, after_wgSet]
        rw [hsame, hw.2]
        exact ⟨hw.1, rfl⟩
      · cases x with
        | error e => exact .ret fun _ _ hw => hw.1
        | ok _ =>
          refine Hoare.perform fun w i hinv hw _ => ⟨hinv.applied, fun hcar r' v' hv' => ?_⟩
          by_cases hr : r' = b.resourceId
          · subst hr
            exact hw.1 hcar _ _ (hw.2 ▸ happ)
          · exact hw.1 hcar r' v' ((SortedMap.get_insert_ne hr).symm.trans hv')
    · exact .ret fun _ _ hw => hw.1
  · exact .ret fun _ _ hw => hw.1

theorem keeps_reconcileBinding
    (hb : A.careful → (b.vmId, b.address) = A.home b.resourceId) :
    Keeps cfg A ok (Tidy cfg A) (reconcileBinding cfg b) (fun _ => Tidy cfg A) := by
  refine .attemptBind (R := fun _ => Tidy cfg A)
    (Hoare.perform fun w i hinv hw _ => ⟨hinv, hw⟩) fun x => ?_
  cases x with
  | error e => exact .ret fun _ _ hw => hw
  | ok ep =>
    refine .step (hoare_look (Q := fun v w => Tidy cfg A w ∧ v = w)
      fun w _ hw => ⟨hw, rfl⟩) fun v => ?_
    split
    · exact keeps_refreshEndpoint
    · refine .step (keeps_nextSlot hb) fun o => ?_
      cases o with
      | none => exact .ret fun _ _ hw => hw.1
      | some slot => exact fun w hw => keeps_install (hw.2 slot rfl).2 w ⟨hw.1, (hw.2 slot rfl).1⟩

theorem keeps_removeStale :
    Keeps cfg A ok (Tidy cfg A) (removeStale cfg r) (fun _ => Tidy cfg A) := by
  refine .step (hoare_look (Q := fun v w => Tidy cfg A w ∧ v = w)
    fun w _ hw => ⟨hw, rfl⟩) fun v => ?_
  cases hget : v.slots.get r with
  | none => exact .ret fun _ _ hw => hw.1
  | some slot =>
    refine .attemptBind ((keeps_teardown (K := fun _ => True)).pre
      fun w _ hw => ⟨hw.2 ▸ hget, trivial, hw.1⟩) fun x => ?_
    cases x with
    | error e => exact .ret fun _ _ hw => hw.good
    | ok _ =>
      refine .step (R := fun _ => Tidy cfg A) (Hoare.perform fun w i hinv hw _ =>
        ⟨hinv.remove fun ht s hs => ?_, fun hcar r' v' hv' => ?_⟩) fun _ =>
          Hoare.perform fun w i hinv hw _ => ⟨hinv.save, hw⟩
      · exact Option.some.inj (hw.1.slot.symm.trans hs) ▸ hw.2 ht
      · by_cases hr : r' = r
        · subst hr
          cases SortedMap.get_erase_self.symm.trans hv'
        · obtain ⟨s', hs', hinst⟩ :=
            hw.1.good hcar r' v' hr ((SortedMap.get_erase_ne hr).symm.trans hv')
          exact ⟨s', (SortedMap.get_erase_ne hr).trans hs', hinst⟩

theorem keeps_reconcile {desired : List Binding} (hd : A.careful → Faithful A.home desired w) :
    Keeps cfg A ok (Tidy cfg A) (reconcile cfg desired) (fun _ => Tidy cfg A) := by
  have hpost : ∀ {x : HostProc Unit}, Keeps cfg A ok (Tidy cfg A) x (fun _ => Tidy cfg A) →
      Keeps cfg A ok (Tidy cfg A) x (ends (fun _ => Tidy cfg A) (fun _ => Tidy cfg A)) :=
    fun hx => hx.post fun x w _ hw => by cases x <;> exact hw
  refine .step (hoare_look (Q := fun _ => Tidy cfg A) fun _ _ hw => hw) fun v => ?_
  refine .chain (Triple.forEach fun r _ => hpost keeps_removeStale) (fun _ _ _ hw => hw) fun _ => ?_
  refine (Triple.forEach fun b hb => hpost (keeps_reconcileBinding fun hcar => hd hcar b hb)).post
    fun x w _ hw => ?_
  cases x <;> exact hw

omit [Meets cfg A ok] in
theorem recorded_start : Recorded cfg A {} := by
  have howned : Owned cfg {} {} := ⟨nofun, nofun, nofun, nofun⟩
  exact ⟨nofun, nofun, nofun,
    nofun, fun _ => howned, fun _ => howned, nofun,
    nofun⟩

theorem recorded_of_run {calls : List Binding → World → Prop} {conf : Conf World Input Act}
    (hcalls : ∀ desired w, A.careful → calls desired w → Faithful A.home desired w)
    (h : Run (tunnels cfg) calls ok ⟨{}, none⟩ conf) :
    conf.Safe (Discipline.keeping machine ok self (Recorded cfg A)) (Tidy cfg A) := by
  refine run_alone (S := tunnels cfg) (f := reconcile cfg) (fun _ => rfl) (fun _ he => he)
    (fun desired w hw => keeps_reconcile (fun hcar => hcalls desired w hcar hw.2) w hw.1)
    (fun w w' hw hr => ?_) recorded_start nofun h
  cases hr
  exact ⟨⟨hw.filedDistinct, hw.filedDistinct, hw.attached, hw.paired, hw.filed, hw.filed,
    hw.filedAtHome, hw.filedAtHome⟩, nofun⟩

end Walk

end RunmanAgent.Wg
