import TusRs.Browser.Session

/-!
# Whose abort, whose end

An item is shown as aborted, complete or failed from the status that the worker of its slot
shows when the scheduler next looks. The status is that of the item's own upload as long as
nothing that was meant for an earlier item of the slot is still in the worker's channel when
the item is handed to it.

Results:

* `ended_by_own_upload`: in runs without a stale abort an item is aborted only by a call for
  it, and completes or fails only with its own upload.
* `stale_abort_ends_next_item`: an abort that comes after the end of an upload is taken for
  one of the item that the slot is given next.
-/

namespace TusRs

namespace Browser

/-! ## Marks -/

/-- What the marks of an item must say for it to have a status. -/
structure Accounted (marks : Marks) (status : QueueItemStatus) : Prop where
  aborted : status = .aborted → marks.abort = true
  complete : status = .complete → marks.completed = true
  error : status = .error → marks.failed = true

/-- Everything that is marked stays marked. -/
structure Marks.Grows (marks marks' : Marks) : Prop where
  abort : marks.abort = true → marks'.abort = true
  completed : marks.completed = true → marks'.completed = true
  failed : marks.failed = true → marks'.failed = true

/-- What the marks of an item must say when its slot's worker is in this state. -/
structure Answers (marks : Marks) (w : Worker) : Prop where
  pending : UploadCommand.abort ∈ w.channel → marks.abort = true
  idle : w.state.status = .idle → marks.abort = true
  complete : w.state.status = .complete → marks.completed = true
  error : w.state.status = .error → marks.failed = true

variable {marks marks' : Marks} {w w' : Worker}

theorem Marks.Grows.refl (marks : Marks) : marks.Grows marks := ⟨fun h => h, fun h => h, fun h => h⟩

theorem Accounted.mono {status : QueueItemStatus} (h : Accounted marks status)
    (hg : marks.Grows marks') : Accounted marks' status :=
  ⟨fun hs => hg.abort (h.aborted hs), fun hs => hg.completed (h.complete hs),
    fun hs => hg.failed (h.error hs)⟩

theorem Accounted.of_not_terminal {status : QueueItemStatus} (h : status.isTerminal = false) :
    Accounted marks status := by
  refine ⟨?_, ?_, ?_⟩
  · rintro rfl
    cases h
  · rintro rfl
    cases h
  · rintro rfl
    cases h

theorem Answers.mono (h : Answers marks w) (hg : marks.Grows marks') : Answers marks' w :=
  ⟨fun hs => hg.abort (h.pending hs), fun hs => hg.abort (h.idle hs),
    fun hs => hg.completed (h.complete hs), fun hs => hg.failed (h.error hs)⟩

theorem Answers.send {cmd : UploadCommand} (h : Answers marks w)
    (hc : cmd = .abort → marks.abort = true) : Answers marks (w.send cmd) where
  pending hm := by
    rcases List.mem_append.mp hm with hm | hm
    · exact h.pending hm
    · exact hc (List.mem_singleton.mp hm).symm
  idle := h.idle
  complete := h.complete
  error := h.error

/-- The item of a slot after a look at its worker. -/
theorem Answers.reconcile {item : TusQueueItem} (h : Answers marks w)
    (hi : Accounted marks item.status) (now : Int) :
    Accounted marks (reconcileItem w.state now item).status := by
  unfold reconcileItem
  dsimp only
  cases hs : w.state.status with
  | uploading => exact .of_not_terminal rfl
  | paused => exact .of_not_terminal rfl
  | complete => exact ⟨nofun, fun _ => h.complete hs, nofun⟩
  | error => exact ⟨nofun, nofun, fun _ => h.error hs⟩
  | idle =>
    dsimp only
    split
    · exact hi
    · exact ⟨fun _ => h.idle hs, nofun, nofun⟩

theorem reported_grows (marks : Nat → Marks) (r : Option Report) (id : Nat) :
    (marks id).Grows (Session.reported marks r id) := by
  have hupdate : ∀ id' mk, (marks id').Grows mk → (marks id).Grows (Function.update marks id' mk id) := by
    intro id' mk hg
    by_cases he : id = id'
    · subst he
      rw [Function.update_self]
      exact hg
    · rw [Function.update_of_ne he]
      exact .refl _
  cases r with
  | none => exact .refl _
  | some r =>
    cases r with
    | completed id' => exact hupdate id' _ ⟨fun h => h, fun _ => rfl, fun h => h⟩
    | failed id' => exact hupdate id' _ ⟨fun h => h, fun h => h, fun _ => rfl⟩

/-! ## A slot and its worker -/

/-- How far the worker of a slot is with what it was given: a slot that is free has a worker
without work, one that is not has a worker that has yet to take up the item's upload, is
executing it, or has ended it. -/
inductive Stage : Option Nat → Worker → Prop
  | free {w : Worker} : w.engine = .idle → (∀ u, UploadCommand.start u ∉ w.channel) →
      Stage none w
  | pending {w : Worker} {u : Upload} {toggles rest : List UploadCommand} : w.engine = .idle →
      w.channel = toggles ++ .start u :: rest → (∀ cmd ∈ toggles, cmd.isToggle = true) →
      (∀ v, UploadCommand.start v ∉ rest) → w.state.status.isActive = true →
      Stage (some u.itemId) w
  | running {w : Worker} {ρ : Run} : w.engine.run? = some ρ →
      (∀ u, UploadCommand.start u ∉ w.channel) → w.state.status.isActive = true →
      Stage (some ρ.upload.itemId) w
  | ended {w : Worker} {id : Nat} : w.engine = .idle → (∀ u, UploadCommand.start u ∉ w.channel) →
      w.state.status.isFinished = true → Stage (some id) w

variable {slot : Option Nat}

theorem UploadStatus.not_finished {status : UploadStatus} (h : status.isActive = true) :
    status.isFinished = false := by
  revert h
  cases status <;> decide

/-- A slot is freed when its worker has no work left. -/
theorem Stage.freed (h : Stage slot w) : Stage (freed slot w.state) w := by
  unfold Browser.freed
  cases hf : w.state.status.isFinished with
  | false => exact h
  | true =>
    rw [if_pos rfl]
    cases h with
    | free hidle hno => exact .free hidle hno
    | ended hidle hno _ => exact .free hidle hno
    | pending _ _ _ _ hactive => rw [UploadStatus.not_finished hactive] at hf; cases hf
    | running _ _ hactive => rw [UploadStatus.not_finished hactive] at hf; cases hf

theorem not_start_append {channel : List UploadCommand} {cmd : UploadCommand}
    (h : ∀ u, UploadCommand.start u ∉ channel) (hc : ∀ u, cmd ≠ .start u) :
    ∀ u, UploadCommand.start u ∉ channel ++ [cmd] := by
  intro u hm
  rcases List.mem_append.mp hm with hm | hm
  · exact h u hm
  · exact hc u (List.mem_singleton.mp hm).symm

theorem Stage.send {cmd : UploadCommand} (h : Stage slot w) (hc : ∀ u, cmd ≠ .start u) :
    Stage slot (w.send cmd) := by
  cases h with
  | free hidle hno => exact .free hidle (not_start_append hno hc)
  | running hrun hno hactive => exact .running hrun (not_start_append hno hc) hactive
  | ended hidle hno hfin => exact .ended hidle (not_start_append hno hc) hfin
  | @pending _ u toggles rest hidle hchan htog hno hactive =>
    refine .pending hidle ?_ htog (not_start_append hno hc) hactive
    show w.channel ++ [cmd] = _
    rw [hchan, List.append_assoc, List.cons_append]

/-- A free worker is started with nothing in its channel that ends an upload. -/
theorem Stage.start (h : Stage none w) (hno : UploadCommand.abort ∉ w.channel) (u : Upload) :
    Stage (some u.itemId) (w.start u) := by
  cases h with
  | free hidle hstart =>
    have htog : ∀ cmd ∈ w.channel, cmd.isToggle = true := by
      intro cmd hm
      cases cmd with
      | start v => exact absurd hm (hstart v)
      | abort => exact absurd hm hno
      | pause => rfl
      | resume => rfl
    exact .pending hidle rfl htog (fun v hm => nomatch hm) rfl

/-! ## Steps of a worker -/

section Work

variable {config : TusConfig} {storage storage' : Storage} {m : Worker.Move} {r : Option Report}

/-- A worker that has no upload and no start takes no more than a command. -/
theorem idle_step (hidle : w.engine = .idle) (hno : ∀ u, UploadCommand.start u ∉ w.channel)
    (ht : w.Transition config storage m (storage', w', r)) :
    w'.engine = .idle ∧ ∃ cmd, w.channel = cmd :: w'.channel ∧
      (cmd = .abort → w'.state.status = .idle) ∧
      (cmd ≠ .abort → w'.state.status = w.state.status ∨
        w.state.status.isActive = true ∧ w'.state.status.isActive = true) := by
  cases ht with
  | @command cmd _ _ hchan _ hidle' habort hother =>
    exact ⟨hidle', cmd, hchan, fun h => (habort h).1, fun h => (hother h).2⟩
  | begins _ hchan _ _ => exact absurd (hchan ▸ List.mem_cons_self) (hno _)
  | continues hrun _ _ _ _ _ _ _ => exact absurd hrun (Worker.run_ne_of_idle hidle)
  | aborts hrun _ _ _ _ _ _ => exact absurd hrun (Worker.run_ne_of_idle hidle)
  | restarts hrun _ _ _ _ _ _ => exact absurd hrun (Worker.run_ne_of_idle hidle)
  | completes hrun _ _ _ _ _ _ _ => exact absurd hrun (Worker.run_ne_of_idle hidle)
  | fails hrun _ _ _ _ _ => exact absurd hrun (Worker.run_ne_of_idle hidle)

theorem Stage.step (h : Stage slot w) (ht : w.Transition config storage m (storage', w', r)) :
    Stage slot w' := by
  have hless : (∀ u, UploadCommand.start u ∉ w.channel) → ∀ u, UploadCommand.start u ∉ w'.channel :=
    fun hno u hm => hno u (Worker.mem_channel_of_step ht hm)
  cases h with
  | free hidle hno => exact .free (idle_step hidle hno ht).1 (hless hno)
  | ended hidle hno hfin =>
    obtain ⟨hidle', cmd, -, habort, hother⟩ := idle_step hidle hno ht
    refine .ended hidle' (hless hno) ?_
    by_cases hc : cmd = .abort
    · rw [habort hc]
      rfl
    · rcases hother hc with he | ⟨hactive, -⟩
      · rw [he]
        exact hfin
      · rw [UploadStatus.not_finished hactive] at hfin
        cases hfin
  | @pending _ u toggles rest hidle hchan htog hno hactive =>
    cases ht with
    | @command cmd _ _ hchan' hcmd hidle' _ hother =>
      rw [hchan] at hchan'
      cases toggles with
      | nil => exact absurd (List.cons.inj hchan').1.symm (hcmd u)
      | cons c toggles =>
        obtain ⟨rfl, hrest⟩ := List.cons.inj hchan'
        have hne : c ≠ .abort := by
          intro he
          have := htog c List.mem_cons_self
          rw [he] at this
          cases this
        refine .pending hidle' hrest.symm (fun cmd hm => htog cmd (List.mem_cons_of_mem _ hm)) hno ?_
        rcases (hother hne).2 with he | ⟨-, hactive'⟩
        · rw [he]
          exact hactive
        · exact hactive'
    | @begins u' _ _ hchan' heng hstate =>
      rw [hchan] at hchan'
      cases toggles with
      | nil =>
        obtain ⟨hu, hrest⟩ := List.cons.inj hchan'
        obtain rfl := UploadCommand.start.inj hu
        have hrun : w'.engine.run? = some ⟨u, u.options.existingUrl⟩ := by rw [heng]; rfl
        exact .running hrun (hrest ▸ hno) (by rw [hstate]; exact hactive)
      | cons c toggles =>
        have := htog c List.mem_cons_self
        rw [(List.cons.inj hchan').1] at this
        cases this
    | continues hrun _ _ _ _ _ _ _ => exact absurd hrun (Worker.run_ne_of_idle hidle)
    | aborts hrun _ _ _ _ _ _ => exact absurd hrun (Worker.run_ne_of_idle hidle)
    | restarts hrun _ _ _ _ _ _ => exact absurd hrun (Worker.run_ne_of_idle hidle)
    | completes hrun _ _ _ _ _ _ _ => exact absurd hrun (Worker.run_ne_of_idle hidle)
    | fails hrun _ _ _ _ _ => exact absurd hrun (Worker.run_ne_of_idle hidle)
  | @running _ ρ hrun hno hactive =>
    cases ht with
    | command hidle _ _ _ _ _ => exact absurd hrun (Worker.run_ne_of_idle hidle)
    | begins hidle _ _ _ => exact absurd hrun (Worker.run_ne_of_idle hidle)
    | @continues ρ' url _ _ _ hrun' _ _ hnext _ hstatus _ _ =>
      obtain rfl := Option.some.inj (hrun.symm.trans hrun')
      have hactive' : w'.state.status.isActive = true := by
        rcases hstatus with he | he
        · rw [he]
          exact hactive
        · exact he
      have hnext' : Stage (some (Run.mk ρ.upload url).upload.itemId) w' :=
        .running hnext (hless hno) hactive'
      exact hnext'
    | aborts _ _ _ hidle' hstatus _ _ => exact .ended hidle' (hless hno) (by rw [hstatus]; rfl)
    | restarts _ hchan _ _ _ _ _ =>
      exact absurd (hchan ▸ List.mem_append_right _ List.mem_cons_self) (hno _)
    | completes _ _ _ hidle' hstatus _ _ _ => exact .ended hidle' (hless hno) (by rw [hstatus]; rfl)
    | fails _ _ hidle' hstatus _ _ => exact .ended hidle' (hless hno) (by rw [hstatus]; rfl)

/-- The status that a worker comes to show is that of the upload it was given. -/
theorem Answers.step {marks : Nat → Marks} {id : Nat} (h : Answers (marks id) w)
    (hs : Stage (some id) w) (ht : w.Transition config storage m (storage', w', r)) :
    Answers (Session.reported marks r id) w' := by
  have hg := reported_grows marks r id
  -- a worker that shows what it showed before, or that its upload goes on
  have hkeep : (w'.state.status = w.state.status ∨ w'.state.status.isActive = true) →
      Answers (Session.reported marks r id) w' := by
    intro hstatus
    have hsame : ∀ {st : UploadStatus}, st.isActive = false → w'.state.status = st →
        w.state.status = st := by
      intro st hst he
      rcases hstatus with hstatus | hstatus
      · exact hstatus.symm.trans he
      · rw [he, hst] at hstatus
        cases hstatus
    exact ⟨fun hm => hg.abort (h.pending (Worker.mem_channel_of_step ht hm)),
      fun he => hg.abort (h.idle (hsame rfl he)), fun he => hg.completed (h.complete (hsame rfl he)),
      fun he => hg.failed (h.error (hsame rfl he))⟩
  -- a worker that has come to an abort
  have habort : w'.state.status = .idle → UploadCommand.abort ∈ w.channel →
      Answers (Session.reported marks r id) w' := by
    intro he hm
    refine ⟨fun _ => hg.abort (h.pending hm), fun _ => hg.abort (h.pending hm), ?_, ?_⟩
    · rw [he]
      exact nofun
    · rw [he]
      exact nofun
  have hpending : UploadCommand.abort ∈ w'.channel → (Session.reported marks r id).abort = true :=
    fun hm => hg.abort (h.pending (Worker.mem_channel_of_step ht hm))
  -- an upload that ends is that of the slot's item
  have hown : ∀ {ρ}, w.engine.run? = some ρ → ρ.upload.itemId = id := by
    intro ρ hrun
    cases hs with
    | pending hidle _ _ _ _ => exact absurd hrun (Worker.run_ne_of_idle hidle)
    | ended hidle _ _ => exact absurd hrun (Worker.run_ne_of_idle hidle)
    | running hrun' _ _ => rw [Option.some.inj (hrun.symm.trans hrun')]
  cases ht with
  | @command cmd _ _ hchan _ _ hab hother =>
    by_cases hc : cmd = .abort
    · exact habort (hab hc).1 (hchan ▸ hc ▸ List.mem_cons_self)
    · exact hkeep ((hother hc).2.imp_right And.right)
  | begins _ _ _ hstate => exact hkeep (.inl (congrArg _ hstate))
  | continues _ _ _ _ _ hstatus _ _ => exact hkeep hstatus
  | aborts _ hchan _ _ hstatus _ _ =>
    exact habort hstatus (hchan ▸ List.mem_append_right _ List.mem_cons_self)
  | restarts hrun hchan _ _ _ _ _ =>
    cases hs with
    | pending hidle _ _ _ _ => exact absurd hrun (Worker.run_ne_of_idle hidle)
    | ended hidle _ _ => exact absurd hrun (Worker.run_ne_of_idle hidle)
    | running _ hno _ => exact absurd (hchan ▸ List.mem_append_right _ List.mem_cons_self) (hno _)
  | completes hrun _ _ _ hstatus _ _ _ =>
    rw [hown hrun] at hpending ⊢
    refine ⟨hpending, ?_, fun _ => ?_, ?_⟩
    · rw [hstatus]
      exact nofun
    · show (Function.update marks id _ id).completed = true
      rw [Function.update_self]
    · rw [hstatus]
      exact nofun
  | fails hrun _ _ hstatus _ _ =>
    rw [hown hrun] at hpending ⊢
    refine ⟨hpending, ?_, ?_, fun _ => ?_⟩
    · rw [hstatus]
      exact nofun
    · rw [hstatus]
      exact nofun
    · show (Function.update marks id _ id).failed = true
      rw [Function.update_self]

end Work

/-! ## Steps of a session -/

/-- Every item that has ended was ended by a call or an upload of its own, and the worker of
every slot is with the item of the slot. -/
structure Attributed (s : Session) : Prop where
  valid : s.Valid
  items : ∀ item ∈ s.queue.items, Accounted (s.marks item.id) item.status
  stages : ∀ (k : Nat) slot w, s.queue.slots[k]? = some slot → s.workers[k]? = some w →
    Stage slot w
  answers : ∀ (k : Nat) id w, s.queue.slots[k]? = some (some id) → s.workers[k]? = some w →
    s.onQueue id = true → Answers (s.marks id) w

section Step

variable {config : TusConfig} {s s' : Session} {m : Session.Move} {now : Int}

theorem mounted_attributed (workerCount : Nat) (storage : Storage) (issued : List String) :
    Attributed (Session.mounted workerCount storage issued) where
  valid := Session.mounted_valid workerCount storage issued
  items item hi := absurd hi List.not_mem_nil
  stages k slot w hs hw := by
    obtain rfl : slot = none := List.eq_of_mem_replicate (List.mem_of_getElem? hs)
    obtain rfl : w = Worker.new := List.eq_of_mem_replicate (List.mem_of_getElem? hw)
    exact .free rfl fun u => List.not_mem_nil
  answers k id w hs _ _ := nomatch (List.eq_of_mem_replicate (List.mem_of_getElem? hs))

/-- A call: it may drop and change items and send commands to workers. -/
theorem Attributed.call (h : Attributed s) (hv : s'.Valid) (hslots : s'.queue.slots = s.queue.slots)
    (hitems : ∀ b ∈ s'.queue.items, Accounted (s'.marks b.id) b.status)
    (hids : ∀ id, some id ∈ s.queue.slots → s'.onQueue id = true →
      s.onQueue id = true ∧ (s.marks id).Grows (s'.marks id))
    (hworkers : ∀ (k : Nat) w', s'.workers[k]? = some w' → ∃ w, s.workers[k]? = some w ∧ (w' = w ∨
      ∃ cmd, w' = w.send cmd ∧ (∀ u, cmd ≠ .start u) ∧ (cmd = .abort → ∀ id,
        s.queue.slots[k]? = some (some id) → s'.onQueue id = true → (s'.marks id).abort = true))) :
    Attributed s' where
  valid := hv
  items := hitems
  stages k slot w' hs hw := by
    rw [hslots] at hs
    obtain ⟨w, hworker, rfl | ⟨cmd, rfl, hcmd, -⟩⟩ := hworkers k w' hw
    · exact h.stages k slot _ hs hworker
    · exact (h.stages k slot w hs hworker).send hcmd
  answers k id w' hs hw hon := by
    rw [hslots] at hs
    obtain ⟨hon', hg⟩ := hids id (List.mem_of_getElem? hs) hon
    obtain ⟨w, hworker, rfl | ⟨cmd, rfl, -, hcmd⟩⟩ := hworkers k w' hw
    · exact (h.answers k id _ hs hworker hon').mono hg
    · exact ((h.answers k id w hs hworker hon').mono hg).send fun hc => hcmd hc id hs hon

theorem markAborted_grows (p : Nat → Bool) (id : Nat) :
    (s.marks id).Grows ((s.markAborted p).marks id) := by
  unfold Session.markAborted
  dsimp only
  split
  · exact ⟨fun _ => rfl, fun h => h, fun h => h⟩
  · exact .refl _

theorem markAborted_abort {p : Nat → Bool} {id : Nat} (hp : p id = true)
    (hon : s.onQueue id = true) : ((s.markAborted p).marks id).abort = true := by
  unfold Session.markAborted
  dsimp only
  rw [hp, hon, Bool.and_self, if_pos rfl]

/-- A queued item that is aborted by a call. -/
theorem accounted_abortQueued {item : TusQueueItem} (h : Accounted marks item.status)
    (ha : marks.abort = true) : Accounted marks (Queue.abortQueued item).status := by
  unfold Queue.abortQueued
  split
  · exact ⟨fun _ => ha, nofun, nofun⟩
  · exact h

/-- Toggles are sent to some workers. -/
theorem Attributed.toggle (h : Attributed s) {cmd : UploadCommand} (hv : s'.Valid)
    (hcmd : cmd.isToggle = true) (hq : s'.queue = s.queue) (hm : s'.marks = s.marks)
    (hw : ∀ (k : Nat) w', s'.workers[k]? = some w' →
      ∃ w, s.workers[k]? = some w ∧ (w' = w ∨ w' = w.send cmd)) : Attributed s' := by
  refine h.call hv (congrArg _ hq) ?_ ?_ ?_
  · rw [hq, hm]
    exact h.items
  · intro id _ hon
    rw [Session.onQueue, hq] at hon
    rw [hm]
    exact ⟨hon, .refl _⟩
  · intro k w' hw'
    obtain ⟨w, hworker, hcase⟩ := hw k w' hw'
    refine ⟨w, hworker, hcase.imp_right fun he => ⟨cmd, he, ?_, ?_⟩⟩
    · rintro u rfl
      cases hcmd
    · rintro rfl
      cases hcmd

/-- Items are dropped, and nothing else that matters here changes. -/
theorem Attributed.drop (h : Attributed s) (hv : s'.Valid) (hslots : s'.queue.slots = s.queue.slots)
    (hitems : ∀ b ∈ s'.queue.items, b ∈ s.queue.items) (hm : s'.marks = s.marks)
    (hw : s'.workers = s.workers) : Attributed s' := by
  refine h.call hv hslots ?_ ?_ ?_
  · intro b hb
    rw [hm]
    exact h.items b (hitems b hb)
  · intro id _ hon
    obtain ⟨i, hi, he⟩ := onQueue_iff.mp hon
    rw [hm]
    exact ⟨onQueue_iff.mpr ⟨i, hitems i hi, he⟩, .refl _⟩
  · intro k w' hw'
    rw [hw] at hw'
    exact ⟨w', hw', .inl rfl⟩

theorem Attributed.enqueue (h : Attributed s) (hlt : s.queue.nextId + 1 < 2 ^ 64) (file : File)
    (options : TusStartOptions) : Attributed (s.enqueue file options) := by
  have hother : ∀ {id}, id < s.queue.nextId →
      Function.update s.marks s.queue.nextId .none id = s.marks id :=
    fun hid => Function.update_of_ne (Nat.ne_of_lt hid) _ _
  refine h.call (h.valid.enqueue hlt file options) rfl ?_ ?_ ?_
  · intro b hb
    rcases List.mem_append.mp hb with hb | hb
    · show Accounted (Function.update s.marks s.queue.nextId .none b.id) b.status
      rw [hother (h.valid.queue.items b hb)]
      exact h.items b hb
    · rw [List.mem_singleton.mp hb]
      exact .of_not_terminal rfl
  · intro id hid hon
    -- a slot holds no id that has not been given out
    have hlt := (h.valid.queue.slots id hid).1
    obtain ⟨i, hi, he⟩ := onQueue_iff.mp hon
    rcases List.mem_append.mp hi with hi | hi
    · refine ⟨onQueue_iff.mpr ⟨i, hi, he⟩, ?_⟩
      show (s.marks id).Grows (Function.update s.marks s.queue.nextId .none id)
      rw [hother hlt]
      exact .refl _
    · rw [List.mem_singleton.mp hi] at he
      exact absurd he (Nat.ne_of_gt hlt)
  · exact fun k w' hw' => ⟨w', hw', .inl rfl⟩

theorem Attributed.mark (h : Attributed s) (p : Nat → Bool) : Attributed (s.markAborted p) :=
  h.call ⟨h.valid.queue, h.valid.workers⟩ rfl
    (fun b hb => (h.items b hb).mono (markAborted_grows p b.id))
    (fun id _ hon => ⟨hon, markAborted_grows p id⟩) fun _ w' hw' => ⟨w', hw', .inl rfl⟩

/-- An abort is sent to workers whose items are marked. -/
theorem Attributed.sendAbort (h : Attributed s) (hv : s'.Valid) (hq : s'.queue = s.queue)
    (hm : s'.marks = s.marks) (hw : ∀ (k : Nat) w', s'.workers[k]? = some w' →
      ∃ w, s.workers[k]? = some w ∧ (w' = w ∨ w' = w.send .abort ∧ ∀ id,
        s.queue.slots[k]? = some (some id) → s.onQueue id = true → (s.marks id).abort = true)) :
    Attributed s' := by
  have hon : ∀ {id}, s'.onQueue id = true → s.onQueue id = true := by
    intro id hon
    rwa [Session.onQueue, hq] at hon
  refine h.call hv (congrArg _ hq) ?_ ?_ ?_
  · rw [hq, hm]
    exact h.items
  · intro id _ hid
    rw [hm]
    exact ⟨hon hid, .refl _⟩
  · intro k w' hw'
    obtain ⟨w, hworker, hcase⟩ := hw k w' hw'
    refine ⟨w, hworker, hcase.imp_right fun ⟨he, hmark⟩ => ⟨.abort, he, nofun, ?_⟩⟩
    intro _ id hs hid
    rw [hm]
    exact hmark id hs (hon hid)

/-- Items that are queued and marked are aborted. -/
theorem Attributed.abortQueued (h : Attributed s) (hv : s'.Valid)
    (hslots : s'.queue.slots = s.queue.slots)
    (hitems : ∀ b ∈ s'.queue.items, b ∈ s.queue.items ∨ ∃ i ∈ s.queue.items,
      b = Queue.abortQueued i ∧ (s.marks i.id).abort = true)
    (hm : s'.marks = s.marks) (hw : s'.workers = s.workers) : Attributed s' := by
  refine h.call hv hslots ?_ ?_ ?_
  · intro b hb
    rw [hm]
    rcases hitems b hb with hb | ⟨i, hi, rfl, ha⟩
    · exact h.items b hb
    · rw [abortQueued_id]
      exact accounted_abortQueued (h.items i hi) ha
  · intro id _ hon
    rw [hm]
    refine ⟨?_, .refl _⟩
    obtain ⟨b, hb, rfl⟩ := onQueue_iff.mp hon
    rcases hitems b hb with hb | ⟨i, hi, rfl, -⟩
    · exact onQueue_iff.mpr ⟨b, hb, rfl⟩
    · rw [abortQueued_id]
      exact onQueue_iff.mpr ⟨i, hi, rfl⟩
  · intro k w' hw'
    rw [hw] at hw'
    exact ⟨w', hw', .inl rfl⟩

theorem Attributed.abortAll (h : Attributed s) (hv : (s.abortAll config).Valid) :
    Attributed (s.abortAll config) := by
  have hmarked := h.mark fun _ => true
  have hsent : Attributed ((s.markAborted fun _ => true).sendAll .abort) := by
    refine hmarked.sendAbort ⟨hmarked.valid.queue, ?_⟩ rfl rfl ?_
    · exact (List.length_map _).trans hmarked.valid.workers
    · intro k w' hw'
      obtain ⟨w, hw, rfl⟩ := Session.sendAll_workers hw'
      exact ⟨w, hw, .inr ⟨rfl, fun id _ hon => markAborted_abort rfl hon⟩⟩
  refine hsent.abortQueued hv rfl ?_ rfl rfl
  intro b hb
  obtain ⟨i, hi, rfl⟩ := List.mem_map.mp hb
  have hmark : ((s.markAborted fun _ => true).marks i.id).abort = true :=
    markAborted_abort rfl (onQueue_iff.mpr ⟨i, hi, rfl⟩)
  exact .inr ⟨i, hi, rfl, hmark⟩

/-- The first two things that `abort_item` and `remove_item` do. -/
theorem Attributed.abortSlot (h : Attributed s) (id : Nat) :
    Attributed ((s.markAborted fun id' => id' = id).sendItem id .abort) := by
  have hmarked := h.mark fun id' => id' = id
  refine hmarked.sendAbort (hmarked.valid.sendItem id .abort) (Session.queue_sendItem _ _ _)
    (Session.marks_sendItem _ _ _) ?_
  intro k w' hw'
  obtain ⟨w, hw, hcase⟩ := Session.sendItem_workers hw'
  refine ⟨w, hw, hcase.imp_right fun ⟨he, hslot⟩ => ⟨he, fun id' hslot' hon => ?_⟩⟩
  have hid : id' = id := Option.some.inj (Option.some.inj (hslot'.symm.trans hslot))
  exact markAborted_abort (decide_eq_true hid) hon

theorem Attributed.abortItem (h : Attributed s) {id : Nat} (hv : (s.abortItem config id).Valid) :
    Attributed (s.abortItem config id) := by
  unfold Session.abortItem at hv ⊢
  dsimp only at hv ⊢
  split
  · exact h.abortSlot id
  · next hslot =>
    rw [hslot] at hv
    refine (h.mark fun id' => id' = id).abortQueued hv (Session.slots_abortItem _ id).1 ?_ rfl rfl
    intro b hb
    rw [show Queue.abortItem (s.markAborted fun id' => id' = id).queue id =
      { s.queue with items := updateItem id Queue.abortQueued s.queue.items } by
        unfold Queue.abortItem; rw [hslot]; rfl] at hb
    rcases mem_updateFirst hb with hb | ⟨i, hi, hid, rfl⟩
    · exact .inl hb
    · exact .inr ⟨i, hi, rfl, markAborted_abort hid (onQueue_iff.mpr ⟨i, hi, rfl⟩)⟩

theorem Attributed.removeItem (h : Attributed s) {id : Nat} (hv : (s.removeItem config id).Valid) :
    Attributed (s.removeItem config id) :=
  (h.abortSlot id).drop hv rfl (fun _ hb => List.mem_of_mem_filter hb) rfl rfl

/-- An item after a retry: one that was reset is queued, without marks. -/
theorem retryItem_items {id : Nat} (hd : (s.queue.items.map TusQueueItem.id).Nodup)
    {b : TusQueueItem} (hb : b ∈ (s.retryItem id).queue.items) :
    b.status.isTerminal = false ∧ (∃ i ∈ s.queue.items, b.id = i.id) ∨
      b ∈ s.queue.items ∧ (s.retryItem id).marks b.id = s.marks b.id := by
  unfold Session.retryItem Queue.applyRetryItem at hb
  unfold Session.retryItem
  dsimp only at hb ⊢
  split at hb
  · next hin => exact .inr ⟨hb, by rw [hin]; rfl⟩
  · next hin =>
    have hin : s.queue.slots.contains (some id) = false := Bool.eq_false_iff.mpr hin
    rw [hin]
    cases hfind : s.queue.items.find? fun i => i.id = id with
    | none =>
      rw [updateItem, updateFirst_none hfind] at hb
      exact .inr ⟨hb, rfl⟩
    | some a =>
      obtain ⟨ha, rfl⟩ := find_id hfind
      rw [updateItem, updateFirst_eq_map hd hfind] at hb
      obtain ⟨i, hi, rfl⟩ := List.mem_map.mp hb
      by_cases he : i.id = a.id
      · obtain rfl := eq_of_id hd hi ha he
        rw [if_pos rfl]
        cases ht : i.status.isTerminal with
        | true =>
          refine .inl ⟨?_, i, hi, retryFinished_id i⟩
          unfold Queue.retryFinished
          rw [if_pos ht]
          rfl
        | false =>
          unfold Queue.retryFinished
          rw [if_neg (by rw [ht]; exact Bool.false_ne_true)]
          exact .inl ⟨ht, i, hi, rfl⟩
      · rw [if_neg he]
        refine .inr ⟨hi, ?_⟩
        split
        · exact Function.update_of_ne he _ _
        · rfl

theorem Attributed.retryItem (h : Attributed s) {id : Nat} (hv : (s.retryItem id).Valid) :
    Attributed (s.retryItem id) := by
  have hd := h.valid.queue.slotted.distinct
  refine h.call hv (Session.slots_retryItem _ id).1 ?_ ?_ fun _ w' hw' => ⟨w', hw', .inl rfl⟩
  · intro b hb
    rcases retryItem_items hd hb with ⟨ht, -⟩ | ⟨hb, hm⟩
    · exact .of_not_terminal ht
    · rw [hm]
      exact h.items b hb
  · intro id' hs hon
    refine ⟨?_, ?_⟩
    · obtain ⟨b, hb, rfl⟩ := onQueue_iff.mp hon
      rcases retryItem_items hd hb with ⟨-, i, hi, he⟩ | ⟨hb, -⟩
      · exact onQueue_iff.mpr ⟨i, hi, he.symm⟩
      · exact onQueue_iff.mpr ⟨b, hb, rfl⟩
    · unfold Session.retryItem
      dsimp only
      split
      · next hreset =>
        have hne : id' ≠ id := by
          rintro rfl
          rw [List.contains_iff_mem.mpr hs] at hreset
          cases hreset
        rw [Function.update_of_ne hne]
        exact .refl _
      · exact .refl _

theorem Attributed.tick (h : Attributed s) (ht : s.tick now = some s')
    (hok : ∀ k ∈ s.filled, ∀ w, s.workers[k]? = some w → UploadCommand.abort ∉ w.channel) :
    Attributed s' := by
  obtain ⟨starts, hl, hq, -, -, hm, -⟩ := Session.tick_eq ht
  refine ⟨h.valid.tick ht, ?_, ?_, ?_⟩
  · intro b hb
    rw [hm]
    obtain ⟨a, ha, rfl | ⟨k, w, hs, hw, rfl⟩ | ⟨-, rfl⟩⟩ :=
      Session.tick_items h.valid.queue.slotted ht hb
    · exact h.items _ ha
    · rw [reconcileItem_id]
      exact (h.answers k a.id w hs hw (onQueue_iff.mpr ⟨a, ha, rfl⟩)).reconcile (h.items a ha) now
    · exact .of_not_terminal rfl
  · intro k slot' w' hs' hw'
    obtain ⟨slot, w, hs, hw, hcase⟩ := h.valid.tick_worker ht hw'
    have hstage := (h.stages k slot w hs hw).freed
    rcases hcase with ⟨hs₁, rfl⟩ | ⟨hfree, hk, item, hi, hqd, hs₁, rfl⟩
    · cases hs'.symm.trans hs₁
      exact hstage
    · cases hs'.symm.trans hs₁
      rw [hfree] at hstage
      exact hstage.start (hok k hk w hw) item.upload
  · intro k id w' hs' hw' hon
    rw [hm]
    obtain ⟨slot, w, hs, hw, hcase⟩ := h.valid.tick_worker ht hw'
    rcases hcase with ⟨hs₁, rfl⟩ | ⟨hfree, hk, item, hi, hqd, hs₁, rfl⟩
    · obtain rfl := Session.freed_eq_some (Option.some.inj (hs₁.symm.trans hs'))
      refine h.answers k id _ hs hw ?_
      rw [Session.onQueue_tick ht] at hon
      exact hon
    · refine ⟨fun hmem => ?_, nofun, nofun, nofun⟩
      rcases List.mem_append.mp hmem with hmem | hmem
      · exact absurd hmem (hok k hk w hw)
      · cases List.mem_singleton.mp hmem

theorem Attributed.work (h : Attributed s) {slot : Nat} {wm : Worker.Move}
    (hw : s.work config slot wm = some s') : Attributed s' := by
  obtain ⟨w, hworker, hw⟩ := Option.bind_eq_some_iff.mp hw
  obtain ⟨⟨storage', w', r⟩, hstep, rfl⟩ := Option.map_eq_some_iff.mp hw
  have ht := Worker.step_cases hstep
  have hg := reported_grows s.marks r
  refine ⟨⟨h.valid.queue, List.length_set.trans h.valid.workers⟩, ?_, ?_, ?_⟩
  · exact fun item hi => (h.items item hi).mono (hg item.id)
  · intro k sl v hs hv
    rcases Session.getElem?_set_cases hv with ⟨rfl, rfl⟩ | hv
    · exact (h.stages k sl w hs hworker).step ht
    · exact h.stages k sl v hs hv
  · intro k id v hs hv hon
    rcases Session.getElem?_set_cases hv with ⟨rfl, rfl⟩ | hv
    · exact (h.answers k id w hs hworker hon).step (h.stages k _ w hs hworker) ht
    · exact (h.answers k id v hs hv hon).mono (hg id)

/-- No item is handed to a slot in whose worker's channel an abort is still waiting, and the
counter of ids does not overflow. -/
def NoStaleAbort (s : Session) : Session.Move → Prop
  | .tick _ => ∀ k ∈ s.filled, ∀ w, s.workers[k]? = some w → UploadCommand.abort ∉ w.channel
  | .add _ _ _ | .resumeEntry _ _ _ _ => s.queue.nextId + 1 < 2 ^ 64
  | _ => True

theorem step_attributed (h : Attributed s) (hok : NoStaleAbort s m)
    (hs : s.step config m = some s') : Attributed s' := by
  have hlt : m.isAdd = true → s.queue.nextId + 1 < 2 ^ 64 := by
    intro ha
    cases m with
    | add file options now => exact hok
    | resumeEntry entry file options now => exact hok
    | _ => cases ha
  have hv := Session.step_valid h.valid hlt hs
  cases m with
  | add file options now =>
    cases hs
    exact h.enqueue hok file _
  | resumeEntry entry file options now =>
    cases hs
    unfold Session.resumeEntry
    split
    · exact h
    · split
      · exact h.enqueue hok file _
      · exact h
  | scanResumable now => cases hs; exact h.drop hv rfl (fun _ hb => hb) rfl rfl
  | pauseAll =>
    cases hs
    exact h.toggle hv rfl rfl rfl fun k w' hw' =>
      (Session.sendAll_workers hw').imp fun _ hw => hw.imp_right .inr
  | resumeAll =>
    cases hs
    exact h.toggle hv rfl rfl rfl fun k w' hw' =>
      (Session.sendAll_workers hw').imp fun _ hw => hw.imp_right .inr
  | abortAll => cases hs; exact h.abortAll hv
  | pauseItem id =>
    cases hs
    exact h.toggle hv rfl (Session.queue_sendItem _ _ _) (Session.marks_sendItem _ _ _) fun k w' hw' =>
      (Session.sendItem_workers hw').imp fun _ hw => hw.imp_right (Or.imp_right And.left)
  | resumeItem id =>
    cases hs
    exact h.toggle hv rfl (Session.queue_sendItem _ _ _) (Session.marks_sendItem _ _ _) fun k w' hw' =>
      (Session.sendItem_workers hw').imp fun _ hw => hw.imp_right (Or.imp_right And.left)
  | abortItem id => cases hs; exact h.abortItem hv
  | removeItem id => cases hs; exact h.removeItem hv
  | clearComplete =>
    cases hs
    exact h.drop hv rfl (fun _ hb => List.mem_of_mem_filter hb) rfl rfl
  | clearFinished =>
    cases hs
    exact h.drop hv rfl (fun _ hb => List.mem_of_mem_filter hb) rfl rfl
  | retryItem id => cases hs; exact h.retryItem hv
  | tick now => exact h.tick hs hok
  | work slot wm => exact h.work hs
  | reload => cases hs; exact mounted_attributed _ _ _

theorem run_attributed (h : Attributed s) (hr : Session.Reaches config NoStaleAbort s s') :
    Attributed s' := by
  induction hr with
  | refl => exact h
  | step _ hok hs ih => exact step_attributed ih hok hs

end Step

/-- In every run in which no tick hands an item to a slot whose worker has an abort waiting,
an item is aborted only if it was aborted or removed by a call since it was last queued, and
it completes or fails only if its own upload has. -/
theorem ended_by_own_upload (config : TusConfig) (workerCount : Nat) (s : Session)
    (hr : Session.Reaches config NoStaleAbort (Session.new workerCount) s) (item : TusQueueItem)
    (hi : item ∈ s.queue.items) : Accounted (s.marks item.id) item.status :=
  (run_attributed (mounted_attributed workerCount ∅ []) hr).items item hi

/-- An item that is handed to a slot and completes. -/
theorem ended_by_own_upload_complete :
    ∃ s item, Session.Reaches ⟨"https://h/f", 0⟩ NoStaleAbort (Session.new 2) s ∧
      item ∈ s.queue.items ∧ item.status = .complete ∧ (s.marks item.id).completed = true := by
  have htick : ∀ (s : Session) now, (∀ w ∈ s.workers, UploadCommand.abort ∉ w.channel) →
      NoStaleAbort s (.tick now) := fun s now h k _ w hw => h w (List.mem_of_getElem? hw)
  have h₁ : Session.Reaches ⟨"https://h/f", 0⟩ NoStaleAbort (Session.new 2) _ :=
    .step (m := .add ⟨"a", 0, 0⟩ ⟨none⟩ 0) .refl (show 0 + 1 < 2 ^ 64 by decide) rfl
  have h₂ := Session.Reaches.step (m := .tick 0) h₁ (htick _ 0 (by decide)) rfl
  have h₃ := Session.Reaches.step (m := .work 0 .take) h₂ trivial rfl
  have h₄ := Session.Reaches.step (m := .work 0 (.created "https://h/f/1" 0 0 .failed)) h₃ trivial rfl
  have h₅ := Session.Reaches.step (m := .tick 0) h₄ (htick _ 0 (by decide)) rfl
  exact ⟨_, _, h₅, List.mem_cons_self, rfl,
    (ended_by_own_upload _ 2 _ h₅ _ List.mem_cons_self).complete rfl⟩

/-- The first item completes, is aborted before the scheduler has seen that, and its slot goes
to the second item with the abort still in the worker's channel. -/
def staleAbort : List Session.Move :=
  [.add ⟨"a", 0, 0⟩ ⟨none⟩ 0, .tick 0, .work 0 .take, .work 0 (.created "https://h/f/1" 0 0 .failed),
    .abortItem 0, .tick 0, .add ⟨"b", 0, 0⟩ ⟨none⟩ 0, .tick 0, .work 0 .take, .tick 0]

/-- The second item is aborted, and nobody has asked for it. -/
theorem stale_abort_ends_next_item :
    ¬∀ s, Session.Reaches ⟨"https://h/f", 0⟩ (fun _ _ => True) (Session.new 2) s →
      ∀ item ∈ s.queue.items, Accounted (s.marks item.id) item.status := by
  intro hall
  have hrun : (Session.new 2).run ⟨"https://h/f", 0⟩ (fun _ _ => True) staleAbort = some _ := rfl
  have hitem := hall _ (Session.reaches_of_run hrun) _ (List.mem_cons_of_mem _ List.mem_cons_self)
  cases hitem.aborted rfl

end Browser

end TusRs
