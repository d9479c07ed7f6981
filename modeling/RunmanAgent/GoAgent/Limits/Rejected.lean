import RunmanAgent.GoAgent.Limits.Owned

/-!
# Connection limits whose activation failed

When `Apply` fails for a new policy that it has put into the file, it marks the policy there,
and the passes of `Reconcile` remove the rules of a marked policy. A deletion that fails leaves a
rule for the next pass. If the mark itself cannot be saved, the file has the policy unmarked, and
the next pass installs it (`failed_activation_installed`). `failed_activation_stays_out` says what
holds if the mark can be saved.
-/

namespace RunmanAgent.GoAgent.Limits

open Concurrency Server Iptables
open ConnLimit (rejectedAfter)

/-- While the file has the policy of a new id unmarked, no save of that `apply` fails. -/
def SavesMark (_ : Pid) (e : Act) (w : World) (i : Input) : Prop :=
  i.fail = true → e.saves = true → Marks w.applying w.filed

instance (p : Pid) (e : Act) (w : World) (i : Input) : Decidable (SavesMark p e w i) :=
  inferInstanceAs (Decidable (_ → _ → _))

/-- Besides, checks tell the truth. -/
def RecordsMark (p : Pid) (e : Act) (w : World) (i : Input) : Prop :=
  TruthfulChecks p e w i ∧ SavesMark p e w i

instance (p : Pid) (e : Act) (w : World) (i : Input) : Decidable (RecordsMark p e w i) :=
  inferInstanceAs (Decidable (_ ∧ _))

/-- Besides, the file can be locked and loaded, and no deletion of a rule fails. -/
def CleanPass (p : Pid) (e : Act) (w : World) (i : Input) : Prop :=
  RecordsMark p e w i ∧ (i.fail = true → e.cleans = false)

instance (p : Pid) (e : Act) (w : World) (i : Input) : Decidable (CleanPass p e w i) :=
  inferInstanceAs (Decidable (_ ∧ (_ → _)))

/-- The assumptions for histories, and for a pass of `reconcile`. -/
def recording (truthful clean applies : Prop) : Assumed where
  truthful := truthful
  recorded := True
  clean := clean
  applies := applies

instance meets_saves {applies : Prop} : Meets (recording False False applies) SavesMark where
  may hok hf := ⟨False.elim, fun _ => hok hf, False.elim⟩

instance meets_recording {applies : Prop} : Meets (recording True False applies) RecordsMark where
  may hok hf := ⟨fun _ => hok.1 hf, fun _ => hok.2 hf, False.elim⟩

instance meets_clean {applies : Prop} : Meets (recording True True applies) CleanPass where
  may hok hf := ⟨fun _ => hok.1.1 hf, fun _ => hok.1.2 hf, fun _ => hok.2 hf⟩

variable {cfg : Config} {w : World} {truthful clean : Prop}

theorem Inv.pass {e : Act} {i : Input} {id : String} {rule : Rule}
    (h : Inv (recording truthful clean False) w) (tool : Tool) (ha : w.applying = none)
    (hid : id ∈ w.rejected) (hrule : RuleOf id rule)
    (hduty : Duty (recording truthful clean False) e w) :
    (w.apply i e).applying = none ∧ id ∈ (w.apply i e).rejected ∧
      copies ((w.apply i e).fw tool) rule ≤ copies (w.fw tool) rule := by
  cases e with
  | start => exact hduty.1.elim
  | answer ok =>
    refine ⟨rfl, ?_, le_rfl⟩
    show id ∈ rejectedAfter w.applying w.rejected ok
    rwa [ha]
  | fw tool' cmd =>
    refine ⟨ha, hid, copies_update_le fun _ => ⟨?_, ?_⟩⟩
    · rintro rfl
      exact hduty
    · rintro rfl
      obtain ⟨-, p, hp, -, hof, hactive⟩ := hduty
      have hpid : p.id = id := hof.unique hrule
      have hmarked := h.refused trivial id hid (by rw [ha]; exact nofun) p hp hpid
      rcases hactive with hactive | ⟨known, hactive⟩
      · rw [hmarked] at hactive
        cases hactive
      · rw [ha] at hactive
        cases hactive
  | _ => exact ⟨ha, hid, le_rfl⟩

theorem Inv.runs {ok : Pid → Act → World → Input → Prop} {id : String} {rule : Rule}
    {r : Except String Unit} {w' : World} (h : Inv (recording truthful clean False) w)
    (tool : Tool) (_hok : Meets (recording truthful clean False) ok) (hidle : Idle w)
    (hid : id ∈ w.rejected) (hrule : RuleOf id rule)
    (hrun : Prog.Runs host ok self (reconcile cfg) w r w') :
    (clean → truthful → Cleared id w') ∧ copies (w'.fw tool) rule ≤ copies (w.fw tool) rule := by
  have hsafe : Safe (orderly (recording truthful clean False) cfg ok)
      (orderly (recording truthful clean False) cfg ok).may self
      (fun _ w' => w'.applying = none ∧
        (clean → truthful → ∀ id, Retired id w.filed → Cleared id w'))
      (reconcile cfg) w :=
    keeps_reconcile h.filed.nodup w (h.at hidle rfl)
  obtain ⟨⟨-, hcleared⟩, -, hrel⟩ := hsafe.runs (T := fun (w w' : World) =>
      w.applying = none ∧ id ∈ w.rejected → (w'.applying = none ∧ id ∈ w'.rejected) ∧
        copies (w'.fw tool) rule ≤ copies (w.fw tool) rule)
    (fun _ h => ⟨h, le_rfl⟩)
    (fun s t u hst htu hs => ⟨(htu (hst hs).1).1, Nat.le_trans (htu (hst hs).1).2 (hst hs).2⟩)
    (fun e s i hinv hmay _ hs => by
      obtain ⟨ha, hid', hle⟩ := Inv.pass (i := i) hinv tool hs.1 hs.2 hrule (may_self.mp hmay)
      exact ⟨⟨ha, hid'⟩, hle⟩) h hrun
  refine ⟨fun hclean ht => hcleared hclean ht id ?_, (hrel ⟨hidle, hid⟩).2⟩
  -- the policies of a rejected id are marked
  exact h.refused trivial id hid (by rw [hidle]; exact nofun)

theorem Inv.recording {applies : Prop} {clean' applies' : Prop}
    (h : Inv (recording truthful clean applies) w) : Inv (recording truthful clean' applies') w :=
  ⟨h.filed, h.once, h.refused⟩

/-- In every history without crashes in which the mark of a failed `apply` can be saved: if
`apply` has failed for an id that was not stored and has not succeeded for it since, then a pass of
`reconcile` adds no copy of any rule of the id. If besides checks tell the truth and policies are
plain, a pass that can lock and load the file and in which no deletion fails leaves none. -/
theorem failed_activation_stays_out {c : Conf World Input Act} (hw : w.Fresh)
    (hidle : c.run = none) {id : String} (hid : id ∈ c.mem.rejected) {rule : Rule}
    (hrule : RuleOf id rule) (tool : Tool) :
    (Run (steady cfg) (fun _ _ => True) SavesMark ⟨w, none⟩ c →
      ∀ r w', Prog.Runs host SavesMark self (reconcile cfg) c.mem r w' →
        copies (w'.fw tool) rule ≤ copies (c.mem.fw tool) rule) ∧
    (Run (steady cfg) PlainCalls RecordsMark ⟨w, none⟩ c →
      ∀ r w', Prog.Runs host CleanPass self (reconcile cfg) c.mem r w' →
        copies (w'.fw tool) rule = 0) := by
  constructor
  · intro h r w' hrun
    have hsound : Sound (steady cfg) (fun _ _ => True)
        (orderly (recording False False True) cfg SavesMark) Idle :=
      steady_orderly trivial False.elim
    have hsafe := hsound.run_safe (.start hw.inv hw.applying) h
    exact (hsafe.inv.recording.runs tool meets_saves (hsafe.idle hidle) hid hrule hrun).2
  · intro h r w' hrun
    have hsound : Sound (steady cfg) PlainCalls
        (orderly (recording True False True) cfg RecordsMark) Idle :=
      steady_orderly trivial fun _ _ _ h => h
    have hsafe := hsound.run_safe (.start hw.inv hw.applying) h
    have hpass := hsafe.inv.recording.runs tool meets_clean (hsafe.idle hidle) hid hrule hrun
    exact hpass.1 trivial trivial tool rule hrule

/-- The second rule of `cap` cannot be appended, and the first one cannot be deleted. -/
def halfInstalled : List (Server.Move Input Act Call) :=
  [.call (.apply cap), .act {}, .act { now := 1000 }] ++ List.replicate 9 (.act {}) ++
    [.act { fail := true }, .act {}, .act {}, .act { fail := true }, .act {}, .act {}, .done]

theorem half_installed_removed : ∃ c,
    Run (steady installed) PlainCalls RecordsMark ⟨{}, none⟩ c ∧ c.run = none ∧
    cap.id ∈ c.mem.rejected ∧ copies (c.mem.fw .iptables) capRule = 1 ∧
    ∃ r w', Prog.Runs host CleanPass self (reconcile installed) c.mem r w' ∧
      copies (w'.fw .iptables) capRule = 0 ∧
      copies (w'.fw .iptables) capRule ≤ copies (c.mem.fw .iptables) capRule := by
  refine exists_run_imp (p := fun c => c.run = none ∧ cap.id ∈ c.mem.rejected ∧
    copies (c.mem.fw .iptables) capRule = 1 ∧ (Prog.alone host CleanPass self (reconcile installed)
      c.mem (List.replicate 7 {})).isSome) halfInstalled (by decide +kernel)
    fun c hrun ⟨hidle, hid, hcopies, halone⟩ => ?_
  obtain ⟨⟨r, w'⟩, halone⟩ := Option.isSome_iff_exists.mp halone
  have hpass := Prog.runs_of_alone _ halone
  obtain ⟨hadds, hleaves⟩ := @failed_activation_stays_out installed {} c
    ⟨rfl, fun _ _ => rfl, rfl⟩ hidle _ hid _ ⟨cap, ⟨.v4 0x0a000005, []⟩, true, rfl, rfl⟩ .iptables
  exact ⟨hidle, hid, hcopies, r, w', hpass, hleaves hrun r w' hpass,
    hadds (hrun.mono (fun _ _ _ => trivial) fun _ _ _ _ h => h.2) r w'
      (hpass.mono fun _ _ _ _ h => h.1.2)⟩

/-- The second rule of `cap` cannot be appended, and the mark cannot be saved. -/
def unmarked : List (Server.Move Input Act Call) :=
  [.call (.apply cap), .act {}, .act { now := 1000 }] ++ List.replicate 9 (.act {}) ++
    [.act { fail := true }, .act { fail := true }, .act {}, .done]

def webUp : Target where
  managed := true
  running := true
  instanceId := cap.instanceId
  ips := ["10.0.0.5"]

/-- The outgoing rule for the address. -/
def capOut : Rule := ruleArgs cap ⟨.v4 0x0a000005, []⟩ false

/-- After a failed activation, a pass in which the deletion of the installed rule fails leaves it.
If the mark could not be saved, a pass in which nothing fails installs the other rule as well. -/
theorem failed_activation_installed :
    (∃ c, Run (steady installed) PlainCalls TruthfulChecks ⟨{}, none⟩ c ∧ c.run = none ∧
      cap.id ∈ c.mem.rejected ∧
      ∃ r w', Prog.Runs host TruthfulChecks self (reconcile installed) c.mem r w' ∧
        copies (w'.fw .iptables) capRule = 1) ∧
    ∃ c, Run (steady installed) PlainCalls TruthfulChecks ⟨{}, none⟩ c ∧ c.run = none ∧
      cap.id ∈ c.mem.rejected ∧ copies (c.mem.fw .iptables) capOut = 0 ∧
      ∃ w', Prog.Runs host CleanPass self (reconcile installed) c.mem (.ok ()) w' ∧
        copies (w'.fw .iptables) capOut = 1 := by
  constructor
  · refine exists_run_imp (p := fun c => c.run = none ∧ cap.id ∈ c.mem.rejected ∧
      (Prog.alone host TruthfulChecks self (reconcile installed) c.mem
        [{}, {}, {}, { fail := true }, {}]).any fun x => copies (x.2.fw .iptables) capRule = 1)
      halfInstalled (by decide +kernel) fun c _ ⟨hidle, hid, halone⟩ => ?_
    obtain ⟨r, w', hpass, hcopies⟩ := Prog.runs_of_any halone
    exact ⟨hidle, hid, r, w', hpass, of_decide_eq_true hcopies⟩
  · refine exists_run_imp (p := fun c => c.run = none ∧ cap.id ∈ c.mem.rejected ∧
      copies (c.mem.fw .iptables) capOut = 0 ∧
      (Prog.alone host CleanPass self (reconcile installed) c.mem
        [{}, {}, { now := 1001 }, { target := .ok webUp }, {}, {}, {}, {}, {}, {},
          { fail := true }, { now := 1001 }, {}]).any fun x =>
        x.1.isOk ∧ copies (x.2.fw .iptables) capOut = 1)
      unmarked (by decide +kernel) fun c _ ⟨hidle, hid, hbefore, halone⟩ => ?_
    obtain ⟨r, w', hpass, hends⟩ := Prog.runs_of_any halone
    obtain ⟨hok, hcopies⟩ := of_decide_eq_true hends
    refine ⟨hidle, hid, hbefore, w', ?_, hcopies⟩
    cases r with
    | ok _ => exact hpass
    | error e => cases hok

end RunmanAgent.GoAgent.Limits
