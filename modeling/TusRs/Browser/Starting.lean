import TusRs.Browser.Worker

/-!
# The status after a call of start

`TusUploadHandle::start` stamps the status itself, so that nobody sees what an earlier upload
left there. The engine that is still busy with an upload writes the same status when it comes to
its end or to the new command, and stamps nothing before the server has answered.

Results:

* `active_of_idle`: started on an idle worker without another start before it, an upload shows
  as active until it is over.
* `exists_inactive`: on every other worker something else can be seen before the upload has run.
* `start_status_iff`: the promise is kept exactly on a worker without another upload.
-/

namespace TusRs

namespace Browser

variable {config : TusConfig} {f : Upload} {storage storage' : Storage} {w w' : Worker}

/-! ## What follows a call -/

/-- The upload has yet to be taken up or is being executed. -/
def Worker.Concerns (w : Worker) (f : Upload) : Prop :=
  .start f ∈ w.channel ∨ ∃ url, w.engine.run? = some ⟨f, url⟩

/-- Everything that can follow a call of `start` without an abort: pauses and resumes, calls for
other uploads, and what the engine does. -/
inductive After (config : TusConfig) (f : Upload) (storage : Storage) (w : Worker) :
    Storage → Worker → Prop
  | call : After config f storage w storage (w.start f)
  | send {storage' : Storage} {w' : Worker} {cmd : UploadCommand} :
      After config f storage w storage' w' → cmd.isToggle = true →
      After config f storage w storage' (w'.send cmd)
  | start {storage' : Storage} {w' : Worker} {u : Upload} :
      After config f storage w storage' w' → u ≠ f → After config f storage w storage' (w'.start u)
  | move {storage' storage'' : Storage} {w' w'' : Worker} {m : Worker.Move} {r : Option Report} :
      After config f storage w storage' w' →
      Worker.step config w' storage' m = some (storage'', w'', r) →
      After config f storage w storage'' w''

/-- Until the upload has completed, has failed or has been left for another, it shows as
uploading or paused. -/
def ShowsActive (config : TusConfig) (f : Upload) (storage : Storage) (w : Worker) : Prop :=
  ∀ storage' w', After config f storage w storage' w' → w'.Concerns f →
    w'.state.status.isActive = true

/-- No earlier upload is under way or waits for its turn. -/
def Worker.Unoccupied (w : Worker) : Prop :=
  w.engine = .idle ∧ ∀ u, UploadCommand.start u ∉ w.channel

/-! ## On an unoccupied worker -/

/-- An upload that was started on an unoccupied worker: it comes first among the starts, is being
executed, or is over. -/
inductive Turn (f : Upload) (w : Worker) : Prop
  | pending {toggles rest : List UploadCommand} : w.engine = .idle →
      w.channel = toggles ++ .start f :: rest → (∀ cmd ∈ toggles, cmd.isToggle = true) →
      UploadCommand.start f ∉ rest → w.state.status.isActive = true → Turn f w
  | running {url : Option String} : w.engine.run? = some ⟨f, url⟩ →
      UploadCommand.start f ∉ w.channel → w.state.status.isActive = true → Turn f w
  | past : ¬w.Concerns f → Turn f w

theorem Turn.active (h : Turn f w) (hf : w.Concerns f) : w.state.status.isActive = true := by
  cases h with
  | pending _ _ _ _ hactive => exact hactive
  | running _ _ hactive => exact hactive
  | past hpast => exact absurd hf hpast

theorem not_mem_send {cmd cmd' : UploadCommand} (h : cmd ∉ w.channel) (hne : cmd ≠ cmd') :
    cmd ∉ (w.send cmd').channel := by
  intro hm
  cases List.mem_append.1 hm with
  | inl hm => exact h hm
  | inr hm => exact hne (List.mem_singleton.1 hm)

theorem not_mem_start {u : Upload} (h : UploadCommand.abort ∉ w.channel) :
    UploadCommand.abort ∉ (w.start u).channel := by
  intro hm
  cases List.mem_append.1 hm with
  | inl hm => exact h hm
  | inr hm => cases List.mem_singleton.1 hm

/-- Another command is sent; the status stays active. -/
theorem Turn.sent {cmd : UploadCommand} (h : Turn f w) (hne : UploadCommand.start f ≠ cmd)
    (state : TusUploadState)
    (hstate : w.state.status.isActive = true → state.status.isActive = true) :
    Turn f ({ w with state := state }.send cmd) := by
  cases h with
  | @pending toggles rest hidle hchan htog hrest hactive =>
    have hchan' : w.channel ++ [cmd] = toggles ++ .start f :: (rest ++ [cmd]) := by
      rw [hchan, List.append_assoc, List.cons_append]
    refine .pending hidle hchan' htog (fun hm => ?_) (hstate hactive)
    cases List.mem_append.1 hm with
    | inl hm => exact hrest hm
    | inr hm => exact hne (List.mem_singleton.1 hm)
  | running hrun hchan hactive =>
    exact .running hrun (not_mem_send (w := { w with state := state }) hchan hne) (hstate hactive)
  | past hpast =>
    refine .past fun hf => hpast ?_
    cases hf with
    | inl hm =>
      exact .inl ((List.mem_append.1 hm).resolve_right fun h => hne (List.mem_singleton.1 h))
    | inr hrun => exact .inr hrun

/-- A move of the engine; no abort is waiting. -/
theorem Turn.move {m : Worker.Move} {r : Option Report} (h : Turn f w)
    (habort : UploadCommand.abort ∉ w.channel)
    (ht : w.Transition config storage m (storage', w', r)) : Turn f w' := by
  cases h with
  | past hpast =>
    refine .past fun hf => hpast ?_
    cases hf with
    | inl hm => exact .inl (Worker.mem_channel_of_step ht hm)
    | inr hrun =>
      obtain ⟨url, hrun⟩ := hrun
      cases ht with
      | command _ _ _ hidle _ _ => exact absurd hrun (Worker.run_ne_of_idle hidle)
      | @begins u _ _ hchan heng _ =>
        rw [heng] at hrun
        obtain ⟨rfl, -⟩ := Run.mk.inj (Option.some.inj hrun)
        exact .inl (hchan ▸ List.mem_cons_self)
      | @continues ρ _ _ _ _ hold _ _ hnew _ _ _ _ =>
        obtain ⟨hup, -⟩ := Run.mk.inj (Option.some.inj (hnew.symm.trans hrun))
        exact .inr ⟨ρ.url, by rw [hold, ← hup]⟩
      | aborts _ _ _ hidle _ _ _ => exact absurd hrun (Worker.run_ne_of_idle hidle)
      | @restarts _ u _ _ _ _ hchan _ heng _ _ _ =>
        rw [heng] at hrun
        obtain ⟨rfl, -⟩ := Run.mk.inj (Option.some.inj hrun)
        exact .inl (hchan ▸ List.mem_append_right _ List.mem_cons_self)
      | completes _ _ _ hidle _ _ _ _ => exact absurd hrun (Worker.run_ne_of_idle hidle)
      | fails _ _ hidle _ _ _ => exact absurd hrun (Worker.run_ne_of_idle hidle)
  | @pending toggles rest hidle hchan htog hrest hactive =>
    cases ht with
    | @command cmd _ _ hchan' hcmd hidle' _ hother =>
      rw [hchan] at hchan'
      cases toggles with
      | nil => exact absurd (List.cons.inj hchan').1.symm (hcmd f)
      | cons c toggles =>
        obtain ⟨rfl, htail⟩ := List.cons.inj hchan'
        have hne : c ≠ .abort := by
          intro he
          have hc := htog c List.mem_cons_self
          rw [he] at hc
          cases hc
        refine .pending hidle' htail.symm (fun cmd hm => htog cmd (List.mem_cons_of_mem _ hm))
          hrest ?_
        cases (hother hne).2 with
        | inl he => rwa [he]
        | inr hboth => exact hboth.2
    | @begins u _ _ hchan' heng hstate =>
      rw [hchan] at hchan'
      cases toggles with
      | nil =>
        obtain ⟨hu, htail⟩ := List.cons.inj hchan'
        obtain rfl := UploadCommand.start.inj hu
        exact .running (by rw [heng]; rfl) (htail ▸ hrest) (by rwa [hstate])
      | cons c toggles =>
        have hc := htog c List.mem_cons_self
        rw [(List.cons.inj hchan').1] at hc
        cases hc
    | continues hrun _ _ _ _ _ _ _ => exact absurd hrun (Worker.run_ne_of_idle hidle)
    | aborts hrun _ _ _ _ _ _ => exact absurd hrun (Worker.run_ne_of_idle hidle)
    | restarts hrun _ _ _ _ _ _ => exact absurd hrun (Worker.run_ne_of_idle hidle)
    | completes hrun _ _ _ _ _ _ _ => exact absurd hrun (Worker.run_ne_of_idle hidle)
    | fails hrun _ _ _ _ _ => exact absurd hrun (Worker.run_ne_of_idle hidle)
  | @running url hrun hchan hactive =>
    have hgone : UploadCommand.start f ∉ w'.channel := fun hm =>
      hchan (Worker.mem_channel_of_step ht hm)
    have hpast : w'.engine = .idle → Turn f w' := fun hidle =>
      .past fun hf => hf.elim hgone fun ⟨_, hrun'⟩ => Worker.run_ne_of_idle hidle hrun'
    cases ht with
    | command hidle _ _ _ _ _ => exact absurd hrun (Worker.run_ne_of_idle hidle)
    | begins hidle _ _ _ => exact absurd hrun (Worker.run_ne_of_idle hidle)
    | continues hold _ _ hnew _ hstatus _ _ =>
      obtain rfl := Option.some.inj (hrun.symm.trans hold)
      refine .running hnew hgone ?_
      cases hstatus with
      | inl he => rwa [he]
      | inr he => exact he
    | aborts _ hchan' _ _ _ _ _ =>
      exact absurd (hchan' ▸ List.mem_append_right _ List.mem_cons_self) habort
    | @restarts _ u _ _ _ _ hchan' _ heng _ _ _ =>
      refine .past fun hf => hf.elim hgone fun ⟨url', hrun'⟩ => ?_
      rw [heng] at hrun'
      obtain ⟨rfl, -⟩ := Run.mk.inj (Option.some.inj hrun')
      exact hchan (hchan' ▸ List.mem_append_right _ List.mem_cons_self)
    | completes _ _ _ hidle _ _ _ _ => exact hpast hidle
    | fails _ _ hidle _ _ _ => exact hpast hidle

/-- Without an abort at the call none comes later. -/
theorem After.no_abort (h : After config f storage w storage' w')
    (habort : UploadCommand.abort ∉ w.channel) : UploadCommand.abort ∉ w'.channel := by
  induction h with
  | call => exact not_mem_start habort
  | send _ htoggle ih =>
    refine not_mem_send ih fun he => ?_
    rw [← he] at htoggle
    cases htoggle
  | start _ _ ih => exact not_mem_start ih
  | move _ hstep ih => exact fun hm => ih (Worker.mem_channel_of_step (Worker.step_cases hstep) hm)

/-- On an unoccupied worker the upload keeps its turn. -/
theorem After.turn (h : After config f storage w storage' w')
    (habort : UploadCommand.abort ∉ w.channel) (hfree : w.Unoccupied) : Turn f w' := by
  induction h with
  | call =>
    refine .pending hfree.1 rfl (fun cmd hm => ?_) List.not_mem_nil rfl
    cases cmd with
    | start u => exact absurd hm (hfree.2 u)
    | abort => exact absurd hm habort
    | pause => rfl
    | resume => rfl
  | @send _ w' cmd _ htoggle ih =>
    refine ih.sent (fun he => ?_) w'.state fun h => h
    rw [← he] at htoggle
    cases htoggle
  | start _ hne ih => exact ih.sent (fun he => hne (UploadCommand.start.inj he).symm) _ fun _ => rfl
  | move hafter hstep ih => exact ih.move (hafter.no_abort habort) (Worker.step_cases hstep)

/-- Started on an unoccupied worker, an upload shows as active until it is over. -/
theorem active_of_idle (habort : UploadCommand.abort ∉ w.channel) (hfree : w.Unoccupied)
    (storage : Storage) : ShowsActive config f storage w :=
  fun _ _ hafter hf => (hafter.turn habort hfree).active hf

/-! ## On an occupied worker -/

/-- The upload has yet to end, and the status says otherwise. -/
def SeenInactive (config : TusConfig) (f : Upload) (storage : Storage) (w : Worker) : Prop :=
  ∃ storage' w', After config f storage w storage' w' ∧ w'.Concerns f ∧
    w'.state.status.isActive = false

theorem not_active_of_seen (h : SeenInactive config f storage w) :
    ¬ShowsActive config f storage w := by
  obtain ⟨storage', w', hafter, hf, hinactive⟩ := h
  intro hshows
  rw [hshows storage' w' hafter hf] at hinactive
  cases hinactive

/-- The upload before it fails. -/
theorem seen_of_failed {m : Worker.Move} {storage'' : Storage} {u : Upload} {e : TusError}
    (h : After config f storage w storage' w') (hf : UploadCommand.start f ∈ w'.channel)
    (hstep : Worker.step config w' storage' m = some (w'.failed u e storage'')) :
    SeenInactive config f storage w :=
  ⟨_, _, h.move hstep, .inl hf, rfl⟩

theorem chunkTop_channel (w : Worker) (t : Transfer) (paused : Bool) (storage : Storage) :
    (Worker.chunkTop config w t paused storage).2.1.channel.length ≤ w.channel.length := by
  unfold Worker.chunkTop
  split
  · exact Nat.le_refl _
  · split
    · exact Nat.le_refl _
    all_goals
      next hchan =>
      rw [hchan]
      exact Nat.le_succ _

/-- A paused engine takes the next command. -/
theorem take_of_parked (config : TusConfig) (storage : Storage) {t : Transfer} (heng : w.engine = .parked t) (hchan : w.channel ≠ []) :
    ∃ e, Worker.step config w storage .take = some e ∧
      e.2.1.channel.length < w.channel.length := by
  obtain ⟨cmd, rest, hchan⟩ := List.exists_cons_of_ne_nil hchan
  simp only [Worker.step, Worker.take, hchan, heng, Option.some.injEq, exists_eq_left',
    List.length_cons]
  refine Nat.lt_succ_of_le ?_
  cases cmd with
  | start u => exact Nat.le_refl _
  | abort => exact Nat.le_refl _
  | pause => exact chunkTop_channel { w with channel := rest, engine := .parked t } t true storage
  | resume =>
    exact chunkTop_channel ({ w with channel := rest, engine := .parked t }.setStatus .uploading) t
      false storage

/-- While another upload is being executed it can end, or be left for the new one, before
anything is stamped. -/
theorem seen_of_running {ρ : Run} (habort : UploadCommand.abort ∉ w.channel)
    (h : After config f storage w storage' w') (hf : UploadCommand.start f ∈ w'.channel)
    (hrun : w'.engine.run? = some ρ) : SeenInactive config f storage w := by
  induction hlen : w'.channel.length using Nat.strong_induction_on generalizing storage' w' ρ with
  | h n ih =>
  cases heng : w'.engine with
  | idle => exact absurd hrun (Worker.run_ne_of_idle heng)
  | creating u paused =>
    have hfail : Worker.step config w' storage' (.createFailed .cors false) =
        some (w'.failed u .cors storage') := by
      simp only [Worker.step, heng, Bool.false_eq_true, false_and, if_false]
    exact seen_of_failed h hf hfail
  | patching t attempt =>
    have hfail : Worker.step config w' storage' (.failed .cors) =
        some (w'.failed t.upload .cors storage') := by
      simp only [Worker.step, heng]
    exact seen_of_failed h hf hfail
  | recovering t attempt =>
    have hfail : Worker.step config w' storage' (.failed .cors) =
        some (w'.failed t.upload .cors storage') := by
      simp only [Worker.step, heng]
    exact seen_of_failed h hf hfail
  | backingOff t attempt head =>
    have helapsed : Worker.step config w' storage' .elapsed =
        some (storage', w'.afterBackoff t attempt head, none) := by
      simp only [Worker.step, heng]
    have hfail : Worker.step config (w'.afterBackoff t attempt head) storage' (.failed .cors) =
        some ((w'.afterBackoff t attempt head).failed t.upload .cors storage') := by
      cases head with
      | false => rfl
      | true => rfl
    exact seen_of_failed (h.move helapsed) hf hfail
  | parked t =>
    obtain ⟨⟨storage'', w'', r⟩, htake, hshort⟩ :=
      take_of_parked config storage' heng (List.ne_nil_of_mem hf)
    have hafter := h.move htake
    cases Worker.step_cases htake with
    | command hidle _ _ _ _ _ => exact absurd hrun (Worker.run_ne_of_idle hidle)
    | begins hidle _ _ _ => exact absurd hrun (Worker.run_ne_of_idle hidle)
    | continues _ hchan htog hrun' _ _ _ _ =>
      refine ih _ (hlen ▸ hshort) hafter ?_ hrun' rfl
      rw [hchan] at hf
      cases List.mem_append.1 hf with
      | inl hm => cases htog _ hm
      | inr hm => exact hm
    | aborts _ hchan _ _ _ _ _ =>
      exact absurd (hchan ▸ List.mem_append_right _ List.mem_cons_self) (h.no_abort habort)
    | restarts _ hchan htog heng' hstatus _ _ =>
      refine ⟨_, _, hafter, ?_, by rw [hstatus]; rfl⟩
      rw [hchan] at hf
      cases List.mem_append.1 hf with
      | inl hm => cases htog _ hm
      | inr hm =>
        cases List.mem_cons.1 hm with
        | inl he =>
          obtain rfl := UploadCommand.start.inj he
          exact .inr ⟨_, by rw [heng']; rfl⟩
        | inr hm => exact .inl hm
    | completes _ hchan htog _ hstatus _ _ _ =>
      refine ⟨_, _, hafter, .inl ?_, by rw [hstatus]; rfl⟩
      rw [hchan] at hf
      cases List.mem_append.1 hf with
      | inl hm => cases htog _ hm
      | inr hm => exact hm
    | fails _ hchan _ hstatus _ _ =>
      exact ⟨_, _, hafter, .inl (hchan ▸ hf), by rw [hstatus]; rfl⟩

/-- Between two uploads the engine comes to an earlier `start` first. -/
theorem seen_of_pending {u : Upload} (habort : UploadCommand.abort ∉ w.channel)
    {earlier later : List UploadCommand} (h : After config f storage w storage' w')
    (hidle : w'.engine = .idle) (hchan : w'.channel = earlier ++ later)
    (hu : UploadCommand.start u ∈ earlier) (hf : UploadCommand.start f ∈ later) :
    SeenInactive config f storage w := by
  induction earlier generalizing storage' w' with
  | nil => cases hu
  | cons cmd earlier ih =>
    have htake : Worker.step config w' storage' .take =
        some (Worker.takeIdle { w' with channel := earlier ++ later } storage' cmd) := by
      simp only [Worker.step, Worker.take, hchan, hidle, List.cons_append]
    cases cmd with
    | start v =>
      exact seen_of_running habort (h.move htake) (List.mem_append_right _ hf) rfl
    | abort =>
      exact absurd (hchan ▸ List.mem_cons_self) (h.no_abort habort)
    | pause =>
      have hu' := (List.mem_cons.1 hu).resolve_left fun he => by cases he
      unfold Worker.takeIdle at htake
      refine ih (h.move htake) ?_ ?_ hu'
      · split
        · exact hidle
        · exact hidle
      · split
        · rfl
        · rfl
    | resume =>
      have hu' := (List.mem_cons.1 hu).resolve_left fun he => by cases he
      unfold Worker.takeIdle at htake
      refine ih (h.move htake) ?_ ?_ hu'
      · split
        · exact hidle
        · exact hidle
      · split
        · rfl
        · rfl

/-- Behind another upload the new one is seen as idle, complete or failed before it has run. -/
theorem exists_inactive (habort : UploadCommand.abort ∉ w.channel) (hbusy : ¬w.Unoccupied) :
    SeenInactive config f storage w := by
  have hf : UploadCommand.start f ∈ (w.start f).channel := List.mem_append_right _ List.mem_cons_self
  cases hrun : w.engine.run? with
  | some ρ => exact seen_of_running habort .call hf hrun
  | none =>
    have hidle : w.engine = .idle := by
      cases heng : w.engine with
      | idle => rfl
      | creating _ _ | patching _ _ | recovering _ _ | backingOff _ _ _ | parked _ =>
        rw [heng] at hrun
        cases hrun
    have hpending : ∃ u, UploadCommand.start u ∈ w.channel := by
      by_contra hno
      exact hbusy ⟨hidle, fun u hu => hno ⟨u, hu⟩⟩
    obtain ⟨u, hu⟩ := hpending
    exact seen_of_pending habort .call hidle rfl hu List.mem_cons_self

/-- A call of `start` keeps its promise exactly on a worker without another upload. -/
theorem start_status_iff (config : TusConfig) (storage : Storage) {f : Upload} {w : Worker}
    (habort : UploadCommand.abort ∉ w.channel) :
    ShowsActive config f storage w ↔ w.Unoccupied := by
  constructor
  · intro hshows
    by_contra hbusy
    exact not_active_of_seen (exists_inactive habort hbusy) hshows
  · intro hfree
    exact active_of_idle habort hfree storage

/-- A worker that has just come up. -/
theorem start_status_sample :
    UploadCommand.abort ∉ Worker.new.channel ∧
      ShowsActive ⟨"/files", 3⟩ ⟨0, ⟨"a.bin", 5, 0⟩, ⟨none⟩⟩ ∅ Worker.new :=
  ⟨List.not_mem_nil, (start_status_iff ⟨"/files", 3⟩ ∅ List.not_mem_nil).2
    ⟨rfl, fun _ => List.not_mem_nil⟩⟩

/-- The first upload awaits its resource when the second is started; the engine then clears the
state for the second. -/
theorem stale_idle_of_restart :
    let config : TusConfig := ⟨"/files", 3⟩
    let first : Upload := ⟨0, ⟨"a.bin", 5, 0⟩, ⟨none⟩⟩
    let second : Upload := ⟨1, ⟨"b.bin", 7, 0⟩, ⟨none⟩⟩
    let busy : Worker := ⟨⟨.uploading, 0, none, none, none⟩, [], .creating first false⟩
    Worker.step config (Worker.new.start first) ∅ .take = some (∅, busy, none) ∧
      ¬ShowsActive config second ∅ busy := by
  refine ⟨rfl, fun hshows => ?_⟩
  have hcall : After ⟨"/files", 3⟩ ⟨1, ⟨"b.bin", 7, 0⟩, ⟨none⟩⟩ ∅
      ⟨⟨.uploading, 0, none, none, none⟩, [], .creating ⟨0, ⟨"a.bin", 5, 0⟩, ⟨none⟩⟩ false⟩ _ _ := .call
  have htaken := hcall.move (m := .take) rfl
  cases hshows _ _ htaken (.inr ⟨_, rfl⟩)

end Browser

end TusRs
