import RunmanAgent.Concurrency.Along
import RunmanAgent.Wg.Tunnels

/-!
# What the commands do to the host

`links_exec`, `rules_exec`, `defaults_exec` and `bridge_exec` say what an accepted command does
to each list of the host. From them: what has put a new member into a list, and what may have
taken an old one away. The invariants of the tunnels only use these.
-/

namespace RunmanAgent.Wg

open Concurrency Server

variable {c : Cmd} {h h' : Host} {fails : Bool}

/-! ## Accepted commands -/

def Cmd.links (h : Host) : Cmd → List String
  | .linkAdd dev => dev :: h.links
  | .linkDel dev => h.links.filter (· ≠ dev)
  | _ => h.links

def Cmd.rules (h : Host) : Cmd → List (IpAddr × Nat)
  | .ruleAdd a t => (a, t) :: h.rules
  | .ruleDel a t => h.rules.erase (a, t)
  | _ => h.rules

def Cmd.defaults (h : Host) : Cmd → List (Family × Nat × String)
  | .linkDel dev => h.defaults.filter (·.2.2 ≠ dev)
  | .replaceDefault family dev t =>
    (family, t, dev) :: h.defaults.filter fun d => ¬(d.1 = family ∧ d.2.1 = t)
  | .flush family t => h.defaults.filter fun d => ¬(d.1 = family ∧ d.2.1 = t)
  | _ => h.defaults

def Cmd.bridge (h : Host) : Cmd → List IpAddr
  | .replaceRoute a => a :: h.bridge.filter (· ≠ a)
  | .routeDel a => h.bridge.filter (· ≠ a)
  | _ => h.bridge

theorem exec_eq (hexec : c.exec h = some h') :
    h' = ⟨c.links h, c.rules h, c.defaults h, c.bridge h⟩ := by
  cases c <;> simp only [Cmd.exec] at hexec <;> (try split at hexec) <;> cases hexec <;> rfl

theorem links_exec (hexec : c.exec h = some h') : h'.links = c.links h := by rw [exec_eq hexec]

theorem rules_exec (hexec : c.exec h = some h') : h'.rules = c.rules h := by rw [exec_eq hexec]

theorem defaults_exec (hexec : c.exec h = some h') : h'.defaults = c.defaults h := by
  rw [exec_eq hexec]

theorem bridge_exec (hexec : c.exec h = some h') : h'.bridge = c.bridge h := by rw [exec_eq hexec]

theorem links_of_exec {family : Family} {dev : String} {t : Nat}
    (hexec : (Cmd.replaceDefault family dev t).exec h = some h') : dev ∈ h.links := by
  simp only [Cmd.exec] at hexec
  split at hexec
  · assumption
  · cases hexec

/-! ## Commands that may fail -/

/-- The host after a command that may fail without effect. -/
def Cmd.after (fails : Bool) (h : Host) (c : Cmd) : Host :=
  if fails then h else (c.exec h).getD h

theorem apply_cmd (w : World) (i : Input) (c : Cmd) :
    w.apply i (.cmd c) = { w with host := c.after i.fail.isSome w.host } := rfl

theorem after_of_exec (hexec : c.exec h = some h') : c.after false h = h' := by
  simp [Cmd.after, hexec]

theorem after_cases (fails : Bool) (h : Host) (c : Cmd) :
    (fails = false ∧ c.exec h = some (c.after fails h)) ∨ c.after fails h = h := by
  unfold Cmd.after
  cases fails with
  | true => exact .inr rfl
  | false =>
    cases hexec : c.exec h with
    | none => exact .inr rfl
    | some h' => exact .inl ⟨rfl, rfl⟩

@[simp]
theorem after_wgSet {dev : String} {args : List String} {stdin : Option String} :
    (Cmd.wgSet dev args stdin).after fails h = h := by
  rcases after_cases fails h (.wgSet dev args stdin) with ⟨-, hexec⟩ | hsame
  · exact exec_eq hexec
  · exact hsame

section

variable {dev : String} {a : IpAddr} {t : Nat} {d : Family × Nat × String}

theorem mem_links_after (hm : dev ∈ (c.after fails h).links) :
    dev ∈ h.links ∨ c = .linkAdd dev := by
  rcases after_cases fails h c with ⟨-, hexec⟩ | hsame
  · rw [links_exec hexec] at hm
    unfold Cmd.links at hm
    split at hm
    · rcases hm with _ | ⟨_, hm⟩
      · exact .inr rfl
      · exact .inl hm
    · exact .inl (List.mem_filter.mp hm).1
    · exact .inl hm
  · exact .inl (hsame ▸ hm)

theorem links_after_keep (c : Cmd) (fails : Bool) (hm : dev ∈ h.links) :
    dev ∈ (c.after fails h).links ∨ (c = .linkDel dev ∧ fails = false) := by
  rcases after_cases fails h c with ⟨hf, hexec⟩ | hsame
  · rw [links_exec hexec]
    unfold Cmd.links
    split
    · exact .inl (.tail _ hm)
    · rename_i dev'
      by_cases hdev : dev = dev'
      · exact .inr ⟨hdev ▸ rfl, hf⟩
      · exact .inl (List.mem_filter.mpr ⟨hm, by simpa using hdev⟩)
    · exact .inl hm
  · exact .inl (hsame.symm ▸ hm)

theorem mem_rules_after (hm : (a, t) ∈ (c.after fails h).rules) :
    (a, t) ∈ h.rules ∨ c = .ruleAdd a t := by
  rcases after_cases fails h c with ⟨-, hexec⟩ | hsame
  · rw [rules_exec hexec] at hm
    unfold Cmd.rules at hm
    split at hm
    · rcases List.mem_cons.mp hm with heq | hm
      · cases heq
        exact .inr rfl
      · exact .inl hm
    · exact .inl (List.mem_of_mem_erase hm)
    · exact .inl hm
  · exact .inl (hsame ▸ hm)

theorem rules_after_keep (c : Cmd) (fails : Bool) (hm : (a, t) ∈ h.rules) :
    (a, t) ∈ (c.after fails h).rules ∨ c = .ruleDel a t := by
  rcases after_cases fails h c with ⟨-, hexec⟩ | hsame
  · rw [rules_exec hexec]
    unfold Cmd.rules
    split
    · exact .inl (.tail _ hm)
    · rename_i a' t'
      by_cases heq : (a, t) = (a', t')
      · cases heq
        exact .inr rfl
      · exact .inl ((List.mem_erase_of_ne heq).mpr hm)
    · exact .inl hm
  · exact .inl (hsame.symm ▸ hm)

theorem mem_defaults_after (hm : d ∈ (c.after fails h).defaults) :
    d ∈ h.defaults ∨ c = .replaceDefault d.1 d.2.2 d.2.1 := by
  rcases after_cases fails h c with ⟨-, hexec⟩ | hsame
  · rw [defaults_exec hexec] at hm
    unfold Cmd.defaults at hm
    split at hm
    · exact .inl (List.mem_filter.mp hm).1
    · rcases hm with _ | ⟨_, hm⟩
      · exact .inr rfl
      · exact .inl (List.mem_filter.mp hm).1
    · exact .inl (List.mem_filter.mp hm).1
    · exact .inl hm
  · exact .inl (hsame ▸ hm)

theorem defaults_after_keep (c : Cmd) (fails : Bool) (hm : d ∈ h.defaults) :
    d ∈ (c.after fails h).defaults ∨ c = .linkDel d.2.2 ∨ c = .flush d.1 d.2.1 ∨
      ∃ dev, c = .replaceDefault d.1 dev d.2.1 := by
  rcases after_cases fails h c with ⟨-, hexec⟩ | hsame
  · rw [defaults_exec hexec]
    unfold Cmd.defaults
    split
    · rename_i dev
      by_cases hdev : d.2.2 = dev
      · exact .inr (.inl (hdev ▸ rfl))
      · exact .inl (List.mem_filter.mpr ⟨hm, by simpa using hdev⟩)
    · rename_i family dev t
      by_cases heq : d.1 = family ∧ d.2.1 = t
      · exact .inr (.inr (.inr ⟨dev, by rw [heq.1, heq.2]⟩))
      · exact .inl (.tail _ (List.mem_filter.mpr ⟨hm, decide_eq_true heq⟩))
    · rename_i family t
      by_cases heq : d.1 = family ∧ d.2.1 = t
      · exact .inr (.inr (.inl (by rw [heq.1, heq.2])))
      · exact .inl (List.mem_filter.mpr ⟨hm, decide_eq_true heq⟩)
    · exact .inl hm
  · exact .inl (hsame.symm ▸ hm)

theorem mem_bridge_after (hm : a ∈ (c.after fails h).bridge) :
    a ∈ h.bridge ∨ c = .replaceRoute a := by
  rcases after_cases fails h c with ⟨-, hexec⟩ | hsame
  · rw [bridge_exec hexec] at hm
    unfold Cmd.bridge at hm
    split at hm
    · rcases hm with _ | ⟨_, hm⟩
      · exact .inr rfl
      · exact .inl (List.mem_filter.mp hm).1
    · exact .inl (List.mem_filter.mp hm).1
    · exact .inl hm
  · exact .inl (hsame ▸ hm)

theorem bridge_after_keep (c : Cmd) (fails : Bool) (hm : a ∈ h.bridge) :
    a ∈ (c.after fails h).bridge ∨ (c = .routeDel a ∧ fails = false) := by
  rcases after_cases fails h c with ⟨hf, hexec⟩ | hsame
  · rw [bridge_exec hexec]
    unfold Cmd.bridge
    split
    · rename_i a'
      by_cases heq : a = a'
      · exact .inl (heq ▸ (.head _))
      · exact .inl (.tail _ (List.mem_filter.mpr ⟨hm, by simpa using heq⟩))
    · rename_i a'
      by_cases heq : a = a'
      · exact .inr ⟨heq ▸ rfl, hf⟩
      · exact .inl (List.mem_filter.mpr ⟨hm, by simpa using heq⟩)
    · exact .inl hm
  · exact .inl (hsame.symm ▸ hm)

/-- Routes are gone when their interface is gone. -/
def Attached (h : Host) : Prop := ∀ d ∈ h.defaults, d.2.2 ∈ h.links

theorem Attached.after (hh : Attached h) : Attached (c.after fails h) := by
  rcases after_cases fails h c with ⟨-, hexec⟩ | hsame
  · intro d hd
    have hmem := mem_defaults_after hd
    rw [defaults_exec hexec] at hd
    rw [links_exec hexec]
    cases c with
    | linkDel dev =>
      obtain ⟨hold, hne⟩ := List.mem_filter.mp hd
      exact List.mem_filter.mpr ⟨hh d hold, hne⟩
    | linkAdd dev => exact .tail _ (hh d hd)
    | replaceDefault family dev t =>
      rcases hmem with hold | heq
      · exact hh d hold
      · cases heq
        exact links_of_exec hexec
    | flush family t => exact hh d (List.mem_filter.mp hd).1
    | _ => exact hh d hd
  · rwa [hsame]

end

/-! ## Rules of the programs -/

section Programs

variable {ok : Pid → Act → World → Input → Prop} {I P : World → Prop}

theorem hoare_command {Q E : World → Prop}
    (hI : ∀ w i, I w → P w → ok self (.cmd c) w i → I (w.apply i (.cmd c)))
    (hok : ∀ w i h', I w → P w → ok self (.cmd c) w i → i.fail = none → c.exec w.host = some h' →
      Q { w with host := h' })
    (herr : ∀ w i, I w → P w → ok self (.cmd c) w i → i.fail ≠ none ∨ c.exec w.host = none → E w) :
    Hoare machine ok self I P (command c) (ends (fun _ => Q) (fun _ => E)) := by
  refine .perform fun w i hinv hw hi => ⟨hI w i hinv hw hi, ?_⟩
  have happly : machine.apply (.cmd c) self w i = { w with host := c.after i.fail.isSome w.host } :=
    apply_cmd w i c
  rw [happly]
  cases hfail : i.fail with
  | some e =>
    have hE : E w := herr w i hinv hw hi (.inl (by simp [hfail]))
    simpa [Cmd.after] using hE
  | none =>
    cases hexec : c.exec w.host with
    | none =>
      have hE : E w := herr w i hinv hw hi (.inr hexec)
      simpa [Cmd.after, hexec] using hE
    | some h' =>
      have hQ := hok w i h' hinv hw hi hfail hexec
      simpa [Cmd.after, hexec] using hQ

theorem hoare_ignored {Q : World → Prop}
    (h : Hoare machine ok self I P (command c) (ends (fun _ => Q) (fun _ => Q))) :
    Hoare machine ok self I P (ignored c) (ends (fun _ => Q) (fun _ _ => False)) :=
  .attemptBind h fun r => .ret fun w _ hw => by cases r <;> exact hw

theorem hoare_look {Q : World → World → Prop} (h : ∀ w, I w → P w → Q w w) :
    Hoare machine ok self I P look (ends Q (fun _ _ => False)) :=
  .perform fun w _ hinv hw _ => ⟨hinv, h w hinv hw⟩

end Programs

end RunmanAgent.Wg
