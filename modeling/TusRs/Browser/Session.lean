import TusRs.Browser.Worker

/-!
# The queue and its workers

`dioxus-tus/src/queue.rs`: `TusQueueHandle` and the scheduler of `use_tus_upload_queue`, over
the queue, the workers of its slots and the persisted entries. Everything runs on one
thread: a call, a tick and what a worker does between two awaits are each one step, and a run
is any sequence of these. A reload of the page leaves only what is persisted.

Results:

* `tick_workers`, `tick_items`: what a tick does to each worker and to each item.
-/

namespace TusRs

namespace Browser

/-- What has happened to an item since it was last queued: it was aborted or removed by a
call, its upload completed, its upload failed. No code reads it. -/
structure Marks where
  abort : Bool
  completed : Bool
  failed : Bool
deriving DecidableEq

def Marks.none : Marks := ⟨false, false, false⟩

/-- The queue, the workers by slot and the persisted entries. No code reads the last three:
the marks of the items, the entries that scans have listed and the URLs that the server has
given out. -/
structure Session where
  queue : Queue
  workers : List Worker
  storage : Storage
  marks : Nat → Marks
  scanned : List ResumableEntry
  issued : List String

/-- `has_active_file_match`. -/
def hasActiveFileMatch (items : List TusQueueItem) (endpoint : String) (file : File) : Bool :=
  items.any fun i => !i.status.isTerminal &&
    matchKey endpoint ⟨i.fileName, i.fileSize, i.file.lastModified⟩ = matchKey endpoint file

/-- `remove_persisted_for_file`. -/
def removePersistedForFile (endpoint : String) (storage : Storage) (file : File) : Storage :=
  storage.remove (matchKey endpoint file)

/-- `resume_options_for_entry`. -/
def resumeOptionsForEntry (endpoint : String) (entry : ResumableEntry) (file : File)
    (options : TusStartOptions) (now : Int) : Option TusStartOptions :=
  if entryIsResumableForFile endpoint entry file now then
    some { options with existingUrl := some entry.uploadUrl }
  else none

/-- What is sent to a worker for an item. -/
def TusQueueItem.upload (item : TusQueueItem) : Upload := ⟨item.id, item.file, item.options⟩

/-- The starts of a tick, applied one by one. -/
def startOn (items : List TusQueueItem) (workers : List Worker) (start : TickStart) :
    List Worker :=
  match items.find? fun i => i.id = start.itemId with
  | some item => workers.modify start.slot fun w => w.start item.upload
  | none => workers

/-- The URL with which the server answers a creation. -/
def Worker.issued? (w : Worker) : Worker.Move → Option String
  | .created url _ _ _ => match w.engine with
    | .creating u _ => if u.options.existingUrl.isNone then some url else none
    | _ => none
  | _ => none

namespace Session

variable (config : TusConfig)

/-- A session that has just been mounted, over what is persisted. -/
def mounted (workerCount : Nat) (storage : Storage) (issued : List String) : Session where
  queue := Queue.new workerCount
  workers := List.replicate workerCount Worker.new
  storage := storage
  marks := fun _ => .none
  scanned := []
  issued := issued

/-- The first session of a browser. -/
def new (workerCount : Nat) : Session := mounted workerCount ∅ []

/-- The session after an item has been put on the queue. -/
def enqueue (s : Session) (file : File) (options : TusStartOptions) : Session :=
  { s with
    queue := s.queue.add file options
    marks := Function.update s.marks s.queue.nextId .none }

/-- The URL that an `add` ends up with: a persisted one if the caller gives none and no item
that is not terminal has the same match key. -/
def resumeUrl (s : Session) (file : File) (options : TusStartOptions) (now : Int) : Option String :=
  if options.existingUrl.isSome then options.existingUrl
  else if hasActiveFileMatch s.queue.items config.endpoint file then none
  else (s.storage.get config.endpoint (matchKey config.endpoint file) now).map
    ResumableEntry.uploadUrl

/-- `add`. -/
def add (s : Session) (file : File) (options : TusStartOptions) (now : Int) : Session :=
  s.enqueue file { options with existingUrl := s.resumeUrl config file options now }

/-- `resume_entry`. -/
def resumeEntry (s : Session) (entry : ResumableEntry) (file : File) (options : TusStartOptions)
    (now : Int) : Session :=
  if hasActiveFileMatch s.queue.items config.endpoint file then s
  else match resumeOptionsForEntry config.endpoint entry file options now with
    | some options => s.add config file options now
    | none => s

/-- `scan_resumable`. -/
def scanResumable (s : Session) (now : Int) : Session :=
  let r := s.storage.scan config.endpoint now
  { s with storage := r.2, scanned := s.scanned ++ r.1 }

/-- A command for every worker. -/
def sendAll (s : Session) (cmd : UploadCommand) : Session :=
  { s with workers := s.workers.map fun w => w.send cmd }

/-- A command for the worker that has the item, if one has it. -/
def sendItem (s : Session) (id : Nat) (cmd : UploadCommand) : Session :=
  match s.queue.slotFor id with
  | some slot => { s with workers := s.workers.modify slot fun w => w.send cmd }
  | none => s

def onQueue (s : Session) (id : Nat) : Bool := s.queue.items.any fun i => i.id = id

/-- Items that are on the queue are marked as aborted by a call. -/
def markAborted (s : Session) (p : Nat → Bool) : Session :=
  { s with
    marks := fun id =>
      if p id && s.onQueue id then { s.marks id with abort := true } else s.marks id }

/-- The persisted entries of items are removed. -/
def dropPersisted (s : Session) (items : List TusQueueItem) : Session :=
  { s with
    storage := items.foldl
      (fun storage item => removePersistedForFile config.endpoint storage item.file) s.storage }

/-- `abort_all`. -/
def abortAll (s : Session) : Session :=
  let s := (s.markAborted fun _ => true).sendAll .abort
  { s.dropPersisted config (s.queue.items.filter fun i => i.status = .queued) with
    queue := s.queue.applyAbortAll }

/-- `abort_item`: a worker that has the item removes what it persisted itself. -/
def abortItem (s : Session) (id : Nat) : Session :=
  let s := s.markAborted fun id' => id' = id
  match s.queue.slotFor id with
  | some _ => s.sendItem id .abort
  | none =>
    { s.dropPersisted config ((s.queue.items.find? fun i => i.id = id).toList.filter
        fun i => i.status = .queued) with
      queue := s.queue.abortItem id }

/-- `remove_item`. -/
def removeItem (s : Session) (id : Nat) : Session :=
  let s := (s.markAborted fun id' => id' = id).sendItem id .abort
  { s.dropPersisted config (s.queue.items.find? fun i => i.id = id).toList with
    queue := s.queue.removeItem id }

def clearComplete (s : Session) : Session := { s with queue := s.queue.clearComplete }

/-- `clear_finished`. -/
def clearFinished (s : Session) : Session :=
  { s.dropPersisted config (s.queue.items.filter fun i => i.status.isTerminal) with
    queue := s.queue.applyClearFinished }

/-- `retry_item`; an item that is queued again starts without marks. -/
def retryItem (s : Session) (id : Nat) : Session :=
  let reset := !s.queue.slots.contains (some id) &&
    (s.queue.items.find? fun i => i.id = id).any fun i => i.status.isTerminal
  { s with
    queue := s.queue.applyRetryItem id
    marks := if reset then Function.update s.marks id .none else s.marks }

/-- One round of the scheduler. -/
def tick (s : Session) (now : Int) : Option Session :=
  (s.queue.reconcileTick (s.workers.map Worker.state) now).map fun r =>
    { s with queue := r.1, workers := r.2.foldl (startOn r.1.items) s.workers }

/-- The end of an upload is marked. -/
def reported (marks : Nat → Marks) : Option Report → Nat → Marks
  | none => marks
  | some (.completed id) => Function.update marks id { marks id with completed := true }
  | some (.failed id) => Function.update marks id { marks id with failed := true }

/-- A worker goes on. -/
def work (s : Session) (slot : Nat) (m : Worker.Move) : Option Session :=
  s.workers[slot]?.bind fun w => (w.step config s.storage m).map fun e =>
    { s with
      storage := e.1
      workers := s.workers.set slot e.2.1
      marks := reported s.marks e.2.2
      issued := (w.issued? m).toList ++ s.issued }

/-- A call of the handle, a round of the scheduler, what a worker does next, or a reload. -/
inductive Move where
  | add (file : File) (options : TusStartOptions) (now : Int)
  | resumeEntry (entry : ResumableEntry) (file : File) (options : TusStartOptions) (now : Int)
  | scanResumable (now : Int)
  | pauseAll
  | resumeAll
  | abortAll
  | pauseItem (id : Nat)
  | resumeItem (id : Nat)
  | abortItem (id : Nat)
  | removeItem (id : Nat)
  | clearComplete
  | clearFinished
  | retryItem (id : Nat)
  | tick (now : Int)
  | work (slot : Nat) (m : Worker.Move)
  | reload

def step (s : Session) : Move → Option Session
  | .add file options now => some (s.add config file options now)
  | .resumeEntry entry file options now => some (s.resumeEntry config entry file options now)
  | .scanResumable now => some (s.scanResumable config now)
  | .pauseAll => some (s.sendAll .pause)
  | .resumeAll => some (s.sendAll .resume)
  | .abortAll => some (s.abortAll config)
  | .pauseItem id => some (s.sendItem id .pause)
  | .resumeItem id => some (s.sendItem id .resume)
  | .abortItem id => some (s.abortItem config id)
  | .removeItem id => some (s.removeItem config id)
  | .clearComplete => some s.clearComplete
  | .clearFinished => some (s.clearFinished config)
  | .retryItem id => some (s.retryItem id)
  | .tick now => s.tick now
  | .work slot m => s.work config slot m
  | .reload => some (mounted s.workers.length s.storage s.issued)

/-- What a sequence of moves leads to that all meet a condition where they are made. -/
def run (ok : Session → Move → Prop) [∀ s m, Decidable (ok s m)] (s : Session) :
    List Move → Option Session
  | [] => some s
  | m :: ms => if ok s m then (s.step config m).bind fun s => s.run ok ms else none

/-- The sessions that are reached by moves which all meet a condition where they are made. -/
inductive Reaches (ok : Session → Move → Prop) (s : Session) : Session → Prop
  | refl : Reaches ok s s
  | step {s' s'' : Session} {m : Move} : Reaches ok s s' → ok s' m → s'.step config m = some s'' →
      Reaches ok s s''

variable {config} {ok : Session → Move → Prop} {s s' s'' : Session}

theorem Reaches.trans (h : Reaches config ok s s') (h' : Reaches config ok s' s'') :
    Reaches config ok s s'' := by
  induction h' with
  | refl => exact h
  | step _ hok hs ih => exact .step ih hok hs

theorem reaches_of_run [∀ s m, Decidable (ok s m)] {moves : List Move}
    (h : s.run config ok moves = some s') : Reaches config ok s s' := by
  induction moves generalizing s with
  | nil => cases h; exact .refl
  | cons m moves ih =>
    unfold run at h
    split at h
    · next hok =>
      obtain ⟨s₁, hs, hr⟩ := Option.bind_eq_some_iff.mp h
      exact Reaches.trans (.step .refl hok hs) (ih hr)
    · cases h

end Session

/-! ## Ticks, worker by worker and item by item -/

section Tick

variable {items : List TusQueueItem} {slots : List (Option Nat)} {now : Int}
  {snapshots : List TusUploadState} {starts : List TickStart} {workers : List Worker}

theorem mem_updateFirst {α : Type} {p : α → Bool} {g : α → α} {l : List α} {b : α}
    (h : b ∈ updateFirst p g l) : b ∈ l ∨ ∃ a ∈ l, p a = true ∧ b = g a := by
  induction l with
  | nil => exact .inl h
  | cons a l ih =>
    unfold updateFirst at h
    split at h
    · next hp =>
      rcases List.mem_cons.mp h with rfl | h
      · exact .inr ⟨a, List.mem_cons_self, hp, rfl⟩
      · exact .inl (List.mem_cons_of_mem a h)
    · rcases List.mem_cons.mp h with rfl | h
      · exact .inl List.mem_cons_self
      · rcases ih h with h | ⟨c, hc, hpc, rfl⟩
        · exact .inl (List.mem_cons_of_mem a h)
        · exact .inr ⟨c, List.mem_cons_of_mem a hc, hpc, rfl⟩

/-- A slot after a look at its worker. -/
def freed (slot : Option Nat) (ws : TusUploadState) : Option Nat :=
  if ws.status.isFinished then none else slot

theorem reconcileSlots_slots (hl : slots.length = snapshots.length) :
    (reconcileSlots now items slots snapshots).2 = List.zipWith freed slots snapshots := by
  induction slots generalizing items snapshots with
  | nil => unfold reconcileSlots; rfl
  | cons slot slots ih =>
    cases snapshots with
    | nil => cases hl
    | cons ws snapshots =>
      have hrest : ∀ items, (reconcileSlots now items slots snapshots).2 =
          List.zipWith freed slots snapshots := fun _ => ih (Nat.succ.inj hl)
      cases slot with
      | none =>
        unfold reconcileSlots
        dsimp only
        rw [hrest, List.zipWith_cons_cons, freed, ite_self]
      | some id =>
        unfold reconcileSlots
        dsimp only
        rw [hrest, List.zipWith_cons_cons, freed]

/-- An item after phase 1 is as before, or what a look at the worker of its slot makes of it. -/
theorem mem_reconcileSlots_items {b : TusQueueItem} (hone : ∀ id, slots.count (some id) ≤ 1)
    (h : b ∈ (reconcileSlots now items slots snapshots).1) :
    b ∈ items ∨ ∃ a ∈ items, ∃ (k : Nat) (ws : TusUploadState), slots[k]? = some (some a.id) ∧ snapshots[k]? = some ws ∧
      b = reconcileItem ws now a := by
  induction slots generalizing items snapshots with
  | nil => unfold reconcileSlots at h; exact .inl h
  | cons slot slots ih =>
    have hrest : ∀ id, slots.count (some id) ≤ 1 :=
      fun id => Nat.le_trans (List.count_le_count_cons) (hone id)
    cases snapshots with
    | nil =>
      cases slot with
      | none => exact .inl h
      | some id => exact .inl h
    | cons ws snapshots =>
      cases slot with
      | none =>
        unfold reconcileSlots at h
        rcases ih hrest h with h | ⟨a, ha, k, ws', hs, hw, rfl⟩
        · exact .inl h
        · exact .inr ⟨a, ha, k + 1, ws', hs, hw, rfl⟩
      | some id =>
        unfold reconcileSlots at h
        rcases ih hrest h with h | ⟨a, ha, k, ws', hs, hw, rfl⟩
        · rcases mem_updateFirst h with h | ⟨a, ha, hid, rfl⟩
          · exact .inl h
          · have hid : a.id = id := of_decide_eq_true hid
            exact .inr ⟨a, ha, 0, ws, by rw [hid]; rfl, rfl, rfl⟩
        · rcases mem_updateFirst ha with ha | ⟨c, hc, hid, rfl⟩
          · exact .inr ⟨a, ha, k + 1, ws', hs, hw, rfl⟩
          · -- no other slot holds the item of the first one
            have hid : c.id = id := of_decide_eq_true hid
            rw [reconcileItem_id, hid] at hs
            exact absurd (List.mem_of_getElem? hs) (not_mem_of_once hone rfl)

/-- An item after phase 2 is as before, or one that was queued has been started. -/
theorem mem_fillSlots_items {n : Nat} {b : TusQueueItem}
    (h : b ∈ (fillSlots now n items slots).1) :
    b ∈ items ∨ ∃ a ∈ items, a.status = .queued ∧ b = startedItem now a := by
  induction slots generalizing n items with
  | nil => exact .inl h
  | cons slot slots ih =>
    cases slot with
    | some id => exact ih h
    | none =>
      unfold fillSlots at h
      split at h
      · exact ih h
      · rcases ih h with h | ⟨a, ha, hq, rfl⟩
        · rcases mem_updateFirst h with h | ⟨a, ha, hq, rfl⟩
          · exact .inl h
          · exact .inr ⟨a, ha, of_decide_eq_true hq, rfl⟩
        · rcases mem_updateFirst ha with ha | ⟨c, hc, -, rfl⟩
          · exact .inr ⟨a, ha, hq, rfl⟩
          · cases hq

/-- A slot is as phase 1 has left it unless a start is made on it. -/
theorem fillSlots_slot (n k : Nat) (items : List TusQueueItem) :
    (∃ st ∈ (fillSlots now n items slots).2.2, st.slot = n + k) ∨
      (fillSlots now n items slots).2.1[k]? = slots[k]? := by
  induction slots generalizing n k items with
  | nil => exact .inr rfl
  | cons slot slots ih =>
    -- from the second slot on
    have hrest : ∀ items k, (∃ st ∈ (fillSlots now (n + 1) items slots).2.2, st.slot = n + (k + 1)) ∨
        (fillSlots now (n + 1) items slots).2.1[k]? = slots[k]? := by
      intro items k
      rw [show n + (k + 1) = n + 1 + k by omega]
      exact ih (n + 1) k items
    cases slot with
    | some id =>
      cases k with
      | zero => exact .inr rfl
      | succ k => exact hrest items k
    | none =>
      unfold fillSlots
      split
      · cases k with
        | zero => exact .inr rfl
        | succ k => exact hrest items k
      · next a _ =>
        cases k with
        | zero => exact .inl ⟨⟨n, a.id⟩, List.mem_cons_self, rfl⟩
        | succ k =>
          rcases hrest _ k with ⟨st, hst, hk⟩ | hk
          · exact .inl ⟨st, List.mem_cons_of_mem _ hst, hk⟩
          · exact .inr hk

theorem getElem?_startOn_ne {st : TickStart} {k : Nat} (h : st.slot ≠ k) :
    (startOn items workers st)[k]? = workers[k]? := by
  unfold startOn
  split
  · exact List.getElem?_modify_ne _ _ h
  · rfl

theorem getElem?_startOn {st : TickStart} {item : TusQueueItem}
    (h : items.find? (fun i => i.id = st.itemId) = some item) :
    (startOn items workers st)[st.slot]? =
      workers[st.slot]?.map fun w => w.start item.upload := by
  unfold startOn
  rw [h]
  exact List.getElem?_modify_eq _ _ _

/-- Workers without a start are left alone. -/
theorem foldl_startOn_ne {k : Nat} (h : ∀ st ∈ starts, st.slot ≠ k) :
    (starts.foldl (startOn items) workers)[k]? = workers[k]? := by
  induction starts generalizing workers with
  | nil => rfl
  | cons st starts ih =>
    rw [List.foldl_cons, ih fun st' h' => h st' (List.mem_cons_of_mem _ h')]
    exact getElem?_startOn_ne (h st List.mem_cons_self)

/-- A worker with a start gets just that one. -/
theorem foldl_startOn {st : TickStart} {item : TusQueueItem}
    (hd : (starts.map TickStart.slot).Nodup) (hst : st ∈ starts)
    (h : items.find? (fun i => i.id = st.itemId) = some item) :
    (starts.foldl (startOn items) workers)[st.slot]? =
      workers[st.slot]?.map fun w => w.start item.upload := by
  induction starts generalizing workers with
  | nil => cases hst
  | cons st' starts ih =>
    rw [List.map_cons, List.nodup_cons] at hd
    rw [List.foldl_cons]
    rcases List.mem_cons.mp hst with rfl | hst
    · rw [foldl_startOn_ne, getElem?_startOn h]
      intro st' hst' he
      exact hd.1 (he ▸ List.mem_map_of_mem hst')
    · rw [ih hd.2 hst, getElem?_startOn_ne]
      intro he
      exact hd.1 (he ▸ List.mem_map_of_mem hst)

theorem length_foldl_startOn :
    (starts.foldl (startOn items) workers).length = workers.length := by
  induction starts generalizing workers with
  | nil => rfl
  | cons st starts ih =>
    rw [List.foldl_cons, ih]
    unfold startOn
    split
    · exact List.length_modify _ _ _
    · rfl

end Tick

namespace Session

variable {s s' : Session} {now : Int}

/-- The slots that a tick hands an item to: those that are free once the workers have been
looked at, as many of them as there are queued items. -/
def filled (s : Session) : List Nat :=
  (freeSlots 0 (List.zipWith freed s.queue.slots (s.workers.map Worker.state))).take
    (queuedIds s.queue.items).length

/-- The parts of a tick. -/
theorem tick_eq (ht : s.tick now = some s') :
    ∃ starts, s.queue.slots.length = (s.workers.map Worker.state).length ∧
      s.queue.reconcileTick (s.workers.map Worker.state) now = some (s'.queue, starts) ∧
      s'.workers = starts.foldl (startOn s'.queue.items) s.workers ∧ s'.storage = s.storage ∧
      s'.marks = s.marks ∧ s'.scanned = s.scanned ∧ s'.issued = s.issued := by
  obtain ⟨⟨q, starts⟩, hq, rfl⟩ := Option.map_eq_some_iff.mp ht
  have hl : s.queue.slots.length = (s.workers.map Worker.state).length := by
    unfold Queue.reconcileTick at hq
    split at hq
    · next hl => exact hl
    · cases hq
  exact ⟨starts, hl, hq, rfl, rfl, rfl, rfl, rfl⟩

/-- An item after a tick is as before, what a look at the worker of its slot makes of it, or
has been started. -/
theorem tick_items (h : Slotted s.queue.items s.queue.slots) (ht : s.tick now = some s')
    {b : TusQueueItem} (hb : b ∈ s'.queue.items) :
    ∃ a ∈ s.queue.items, b = a ∨
      (∃ (k : Nat) (w : Worker), s.queue.slots[k]? = some (some a.id) ∧ s.workers[k]? = some w ∧
        b = reconcileItem w.state now a) ∨
      a.status = .queued ∧ b = startedItem now a := by
  obtain ⟨starts, hl, hq, -⟩ := tick_eq ht
  unfold Queue.reconcileTick at hq
  rw [if_pos hl] at hq
  obtain ⟨hqueue, -⟩ := Prod.mk.inj (Option.some.inj hq)
  rw [← hqueue] at hb
  have hphase : ∀ {c}, c ∈ (reconcileSlots now s.queue.items s.queue.slots
      (s.workers.map Worker.state)).1 → ∃ a ∈ s.queue.items, c = a ∨
      (∃ (k : Nat) (w : Worker), s.queue.slots[k]? = some (some a.id) ∧ s.workers[k]? = some w ∧
        c = reconcileItem w.state now a) := by
    intro c hc
    rcases mem_reconcileSlots_items h.once hc with hc | ⟨a, ha, k, ws, hs, hw, rfl⟩
    · exact ⟨c, hc, .inl rfl⟩
    · rw [List.getElem?_map] at hw
      obtain ⟨w, hworker, rfl⟩ := Option.map_eq_some_iff.mp hw
      exact ⟨a, ha, .inr ⟨k, w, hs, hworker, rfl⟩⟩
  rcases mem_fillSlots_items hb with hb | ⟨c, hc, hqueued, rfl⟩
  · obtain ⟨a, ha, hcase⟩ := hphase hb
    exact ⟨a, ha, hcase.imp_right .inl⟩
  · obtain ⟨a, ha, rfl | ⟨k, w, -, -, rfl⟩⟩ := hphase hc
    · exact ⟨c, ha, .inr (.inr ⟨hqueued, rfl⟩)⟩
    · exact absurd hqueued (reconcileItem_not_queued a)

theorem tick_upload (h : Slotted s.queue.items s.queue.slots) (ht : s.tick now = some s')
    {b : TusQueueItem} (hb : b ∈ s'.queue.items) : ∃ a ∈ s.queue.items, b.upload = a.upload := by
  obtain ⟨a, ha, rfl | ⟨k, w, -, -, rfl⟩ | ⟨-, rfl⟩⟩ := tick_items h ht hb
  · exact ⟨b, ha, rfl⟩
  · refine ⟨a, ha, ?_⟩
    unfold reconcileItem unpaused
    dsimp only
    split
    · split
      · split <;> rfl
      · rfl
    · rfl
    · rfl
    · rfl
    · split <;> rfl
  · exact ⟨a, ha, rfl⟩

theorem tick_ids (ht : s.tick now = some s') :
    s'.queue.items.map TusQueueItem.id = s.queue.items.map TusQueueItem.id := by
  obtain ⟨starts, hl, hq, -⟩ := tick_eq ht
  unfold Queue.reconcileTick at hq
  rw [if_pos hl] at hq
  obtain ⟨hqueue, -⟩ := Prod.mk.inj (Option.some.inj hq)
  rw [← hqueue]
  exact fillSlots_ids.trans reconcileSlots_ids

theorem onQueue_tick (ht : s.tick now = some s') (id : Nat) : s'.onQueue id = s.onQueue id := by
  have hany : ∀ items : List TusQueueItem,
      (items.any fun i => i.id = id) = (items.map TusQueueItem.id).contains id := by
    intro items
    rw [List.contains_eq_any_beq, List.any_map]
    congr 1
    funext i
    exact (decide_eq_decide.mpr eq_comm).trans (beq_eq_decide _ _).symm
  unfold onQueue
  rw [hany, hany, tick_ids ht]

/-- A worker over a tick: its slot is kept or freed and it is left alone, or the slot was or
becomes free and it is started with an item that was queued. -/
theorem tick_workers (h : Slotted s.queue.items s.queue.slots) (ht : s.tick now = some s')
    {k : Nat} {slot : Option Nat} {w : Worker} (hslot : s.queue.slots[k]? = some slot)
    (hw : s.workers[k]? = some w) :
    (s'.queue.slots[k]? = some (freed slot w.state) ∧ s'.workers[k]? = some w) ∨
      freed slot w.state = none ∧ k ∈ s.filled ∧ ∃ item ∈ s.queue.items, item.status = .queued ∧
        s'.queue.slots[k]? = some (some item.id) ∧
        s'.workers[k]? = some (w.start item.upload) := by
  obtain ⟨starts, hl, hq, hworkers, -⟩ := tick_eq ht
  have hst := reconcileTick_starts h hq
  have hphase : (reconcileSlots now s.queue.items s.queue.slots (s.workers.map Worker.state)).2 =
      List.zipWith freed s.queue.slots (s.workers.map Worker.state) := reconcileSlots_slots hl
  -- the slot once the workers have been looked at
  have hfreed : (List.zipWith freed s.queue.slots (s.workers.map Worker.state))[k]? =
      some (freed slot w.state) := by
    rw [List.getElem?_zipWith, hslot, List.getElem?_map, hw]
    rfl
  have hfill := hq
  unfold Queue.reconcileTick at hfill
  rw [if_pos hl] at hfill
  obtain ⟨hqueue, hstarts⟩ := Prod.mk.inj (Option.some.inj hfill)
  by_cases hk : ∃ st ∈ starts, st.slot = k
  · obtain ⟨st, hmem, rfl⟩ := hk
    have hfree := hst.slots_free st hmem
    rw [hphase, hfreed] at hfree
    have hfilled : st.slot ∈ s.filled := by
      have hm := List.mem_map_of_mem (f := TickStart.slot) hmem
      rw [← hstarts, fillSlots_starts, (reconcileSlots_slotted [] h hl).2, hphase,
        map_slot_zipWith] at hm
      exact hm
    have hqueued : st.itemId ∈ queuedIds s.queue.items := by
      have hm := List.mem_map_of_mem (f := TickStart.itemId) hmem
      rw [hst.items_earliest] at hm
      exact List.mem_of_mem_take hm
    obtain ⟨item, hitem, hid⟩ := List.mem_map.mp hqueued
    obtain ⟨hitem, hstatus⟩ := List.mem_filter.mp hitem
    refine .inr ⟨Option.some.inj hfree, hfilled, item, hitem, of_decide_eq_true hstatus, ?_, ?_⟩
    · rw [hid]
      exact hst.slots_filled st hmem
    · cases hfind : s'.queue.items.find? fun i => i.id = st.itemId with
      | none =>
        have hmem' : item.id ∈ s'.queue.items.map TusQueueItem.id := by
          rw [tick_ids ht]
          exact List.mem_map_of_mem hitem
        obtain ⟨b, hb, hbid⟩ := List.mem_map.mp hmem'
        exact absurd (hbid.trans hid) (find_id_none hfind b hb)
      | some b =>
        obtain ⟨hb, hbid⟩ := find_id hfind
        obtain ⟨a, ha, hup⟩ := tick_upload h ht hb
        have haid : a.id = item.id := (congrArg Upload.itemId hup).symm.trans (hbid.trans hid.symm)
        obtain rfl := eq_of_id h.distinct ha hitem haid
        rw [hworkers, foldl_startOn hst.slots_distinct hmem hfind, hw, hup]
        rfl
  · left
    have hne : ∀ st ∈ starts, st.slot ≠ k := fun st hm he => hk ⟨st, hm, he⟩
    rw [hworkers, foldl_startOn_ne hne, hw]
    refine ⟨?_, rfl⟩
    rw [← hqueue, ← hfreed, ← hphase]
    refine (fillSlots_slot 0 k _).resolve_left ?_
    rintro ⟨st, hm, he⟩
    rw [Nat.zero_add] at he
    exact hne st (hstarts ▸ hm) he

end Session

/-! ## The queue of a session -/

theorem onQueue_iff {s : Session} {id : Nat} : s.onQueue id = true ↔ ∃ i ∈ s.queue.items, i.id = id := by
  unfold Session.onQueue
  rw [List.any_eq_true]
  exact exists_congr fun i => and_congr_right fun _ => decide_eq_true_iff

theorem length_fillSlots {now : Int} {n : Nat} {items : List TusQueueItem}
    {slots : List (Option Nat)} : (fillSlots now n items slots).2.1.length = slots.length := by
  induction slots generalizing n items with
  | nil => rfl
  | cons slot slots ih =>
    cases slot with
    | some id =>
      unfold fillSlots
      exact congrArg Nat.succ ih
    | none =>
      unfold fillSlots
      split
      · exact congrArg Nat.succ ih
      · exact congrArg Nat.succ ih

namespace Session

/-- The queue is right, and every slot has its worker. -/
structure Valid (s : Session) : Prop where
  queue : s.queue.Valid s.queue.nextId fun _ => True
  workers : s.workers.length = s.queue.slots.length

def Move.isAdd : Move → Bool
  | .add _ _ _ | .resumeEntry _ _ _ _ => true
  | _ => false

variable {config : TusConfig} {s s' : Session} {m : Move} {now : Int}

theorem mounted_valid (workerCount : Nat) (storage : Storage) (issued : List String) :
    (mounted workerCount storage issued).Valid where
  queue := (new_valid workerCount).mono fun _ h => h.elim
  workers := (List.length_replicate).trans (List.length_replicate).symm

/-- A call that leaves the slots and the counter alone. -/
theorem Valid.call {q : Queue} (op : QueueOp) (h : s.Valid) (hp : op.perform s.queue = some q)
    (hadd : op.isAdd = false) (hid : q.nextId = s.queue.nextId)
    (hslots : q.slots = s.queue.slots) (hq : s'.queue = q)
    (hw : s'.workers.length = s.workers.length) : s'.Valid where
  queue := by
    have hv := perform_valid h.queue hp fun ha => absurd ha (by rw [hadd]; exact Bool.false_ne_true)
    rw [hadd, if_neg Bool.false_ne_true, Nat.add_zero] at hv
    rw [hq, hid]
    exact hv.mono fun _ _ => trivial
  workers := by
    rw [hw, hq, hslots]
    exact h.workers

theorem Valid.enqueue (h : s.Valid) (hlt : s.queue.nextId + 1 < 2 ^ 64) (file : File)
    (options : TusStartOptions) : (s.enqueue file options).Valid where
  queue := by
    show (s.queue.add file options).Valid ((s.queue.nextId + 1) % 2 ^ 64) _
    rw [Nat.mod_eq_of_lt hlt]
    exact h.queue.add hlt file options
  workers := h.workers

theorem length_sendItem (s : Session) (id : Nat) (cmd : UploadCommand) :
    (s.sendItem id cmd).workers.length = s.workers.length := by
  unfold sendItem
  split
  · exact List.length_modify _ _ _
  · rfl

/-- Sending a command changes nothing but the workers. -/
theorem sendItem_rest (s : Session) (id : Nat) (cmd : UploadCommand) :
    { s.sendItem id cmd with workers := s.workers } = s := by
  unfold sendItem
  split <;> rfl

theorem queue_sendItem (s : Session) (id : Nat) (cmd : UploadCommand) :
    (s.sendItem id cmd).queue = s.queue := by
  have hrest := congrArg Session.queue (s.sendItem_rest id cmd)
  exact hrest

theorem slotFor_eq_some {id k : Nat} (h : s.queue.slotFor id = some k) :
    s.queue.slots[k]? = some (some id) := by
  obtain ⟨hk, hp, -⟩ := List.findIdx?_eq_some_iff_getElem.mp h
  rw [List.getElem?_eq_getElem hk]
  exact congrArg some (of_decide_eq_true hp)

/-- The workers after a command for one of them. -/
theorem sendItem_workers {id k : Nat} {cmd : UploadCommand} {w' : Worker}
    (h : (s.sendItem id cmd).workers[k]? = some w') : ∃ w, s.workers[k]? = some w ∧
      (w' = w ∨ w' = w.send cmd ∧ s.queue.slots[k]? = some (some id)) := by
  unfold sendItem at h
  split at h
  · next slot hslot =>
    by_cases hk : slot = k
    · subst hk
      rw [List.getElem?_modify_eq] at h
      obtain ⟨w, hw, rfl⟩ := Option.map_eq_some_iff.mp h
      exact ⟨w, hw, .inr ⟨rfl, slotFor_eq_some hslot⟩⟩
    · rw [List.getElem?_modify_ne _ _ hk] at h
      exact ⟨w', h, .inl rfl⟩
  · exact ⟨w', h, .inl rfl⟩

theorem sendAll_workers {k : Nat} {cmd : UploadCommand} {w' : Worker}
    (h : (s.sendAll cmd).workers[k]? = some w') :
    ∃ w, s.workers[k]? = some w ∧ w' = w.send cmd := by
  unfold sendAll at h
  rw [List.getElem?_map] at h
  obtain ⟨w, hw, rfl⟩ := Option.map_eq_some_iff.mp h
  exact ⟨w, hw, rfl⟩

theorem marks_sendItem (s : Session) (id : Nat) (cmd : UploadCommand) :
    (s.sendItem id cmd).marks = s.marks := by
  have hrest := congrArg Session.marks (s.sendItem_rest id cmd)
  exact hrest

theorem Valid.sendItem (h : s.Valid) (id : Nat) (cmd : UploadCommand) :
    (s.sendItem id cmd).Valid where
  queue := by
    rw [queue_sendItem]
    exact h.queue
  workers := by
    rw [queue_sendItem, length_sendItem]
    exact h.workers

theorem tick_slots_length (ht : s.tick now = some s') :
    s'.queue.slots.length = s.queue.slots.length := by
  obtain ⟨starts, hl, hq, -⟩ := tick_eq ht
  unfold Queue.reconcileTick at hq
  rw [if_pos hl] at hq
  obtain ⟨he, -⟩ := Prod.mk.inj (Option.some.inj hq)
  rw [← he, length_fillSlots, reconcileSlots_slots hl, List.length_zipWith, ← hl, Nat.min_self]

theorem nextId_tick (ht : s.tick now = some s') : s'.queue.nextId = s.queue.nextId := by
  obtain ⟨starts, hl, hq, -⟩ := tick_eq ht
  unfold Queue.reconcileTick at hq
  rw [if_pos hl] at hq
  obtain ⟨he, -⟩ := Prod.mk.inj (Option.some.inj hq)
  rw [← he]

theorem Valid.tick (h : s.Valid) (ht : s.tick now = some s') : s'.Valid := by
  obtain ⟨starts, hl, hq, hworkers, -⟩ := tick_eq ht
  refine ⟨?_, ?_⟩
  · rw [nextId_tick ht]
    exact h.queue.tick hq
  · rw [hworkers, length_foldl_startOn, tick_slots_length ht]
    exact h.workers

/-- A worker after a tick, and what it was before. -/
theorem Valid.tick_worker (h : s.Valid) (ht : s.tick now = some s') {k : Nat} {w' : Worker}
    (hw' : s'.workers[k]? = some w') :
    ∃ slot w, s.queue.slots[k]? = some slot ∧ s.workers[k]? = some w ∧
      (s'.queue.slots[k]? = some (freed slot w.state) ∧ w' = w ∨
        freed slot w.state = none ∧ k ∈ s.filled ∧ ∃ item ∈ s.queue.items,
          item.status = .queued ∧ s'.queue.slots[k]? = some (some item.id) ∧
          w' = w.start item.upload) := by
  have hk : k < s.workers.length := by
    have hk := (List.getElem?_eq_some_iff.mp hw').1
    rw [(h.tick ht).workers, tick_slots_length ht, ← h.workers] at hk
    exact hk
  have hs := List.getElem?_eq_getElem (h.workers ▸ hk : k < s.queue.slots.length)
  have hw := List.getElem?_eq_getElem hk
  refine ⟨_, _, hs, hw, ?_⟩
  rcases tick_workers h.queue.slotted ht hs hw with ⟨hs', hw₁⟩ | ⟨hfree, hk, item, hi, hq, hs', hw₁⟩
  · exact .inl ⟨hs', Option.some.inj (hw'.symm.trans hw₁)⟩
  · exact .inr ⟨hfree, hk, item, hi, hq, hs', Option.some.inj (hw'.symm.trans hw₁)⟩

theorem freed_eq_some {slot : Option Nat} {ws : TusUploadState} {id : Nat}
    (h : freed slot ws = some id) : slot = some id := by
  unfold freed at h
  split at h
  · cases h
  · exact h

theorem slots_abortItem (q : Queue) (id : Nat) :
    (q.abortItem id).slots = q.slots ∧ (q.abortItem id).nextId = q.nextId := by
  unfold Queue.abortItem
  split <;> exact ⟨rfl, rfl⟩

theorem slots_retryItem (q : Queue) (id : Nat) :
    (q.applyRetryItem id).slots = q.slots ∧ (q.applyRetryItem id).nextId = q.nextId := by
  unfold Queue.applyRetryItem
  split <;> exact ⟨rfl, rfl⟩

/-- The workers once one of them has gone on. -/
theorem getElem?_set_cases {workers : List Worker} {slot k : Nat} {w' x : Worker}
    (h : (workers.set slot w')[k]? = some x) : k = slot ∧ x = w' ∨ workers[k]? = some x := by
  by_cases hk : slot = k
  · subst hk
    have hlt : slot < workers.length := by
      have hlt := (List.getElem?_eq_some_iff.mp h).1
      rwa [List.length_set] at hlt
    rw [List.getElem?_set_self hlt] at h
    exact .inl ⟨rfl, (Option.some.inj h).symm⟩
  · rw [List.getElem?_set_ne hk] at h
    exact .inr h

/-- A step keeps the queue right as long as the counter does not overflow. -/
theorem step_valid (h : s.Valid) (hlt : m.isAdd = true → s.queue.nextId + 1 < 2 ^ 64)
    (hs : s.step config m = some s') : s'.Valid := by
  cases m with
  | add file options now =>
    cases hs
    exact h.enqueue (hlt rfl) file _
  | resumeEntry entry file options now =>
    cases hs
    unfold resumeEntry
    split
    · exact h
    · split
      · exact h.enqueue (hlt rfl) file _
      · exact h
  | scanResumable now => cases hs; exact ⟨h.queue, h.workers⟩
  | pauseAll => cases hs; exact ⟨h.queue, List.length_map _ |>.trans h.workers⟩
  | resumeAll => cases hs; exact ⟨h.queue, List.length_map _ |>.trans h.workers⟩
  | abortAll =>
    cases hs
    exact h.call .abortAll rfl rfl rfl rfl rfl (List.length_map _)
  | pauseItem id => cases hs; exact h.sendItem id .pause
  | resumeItem id => cases hs; exact h.sendItem id .resume
  | abortItem id =>
    cases hs
    have hmarked : (s.markAborted fun id' => id' = id).Valid := ⟨h.queue, h.workers⟩
    unfold abortItem
    dsimp only
    split
    · exact hmarked.sendItem id .abort
    · exact h.call (.abortItem id) rfl rfl (slots_abortItem _ id).2 (slots_abortItem _ id).1 rfl rfl
  | removeItem id =>
    cases hs
    exact h.call (.removeItem id) rfl rfl rfl rfl
      (congrArg (Queue.removeItem · id) (queue_sendItem _ _ _)) (length_sendItem _ _ _)
  | clearComplete => cases hs; exact h.call .clearComplete rfl rfl rfl rfl rfl rfl
  | clearFinished => cases hs; exact h.call .clearFinished rfl rfl rfl rfl rfl rfl
  | retryItem id =>
    cases hs
    exact h.call (.retryItem id) rfl rfl (slots_retryItem _ id).2 (slots_retryItem _ id).1 rfl rfl
  | tick now => exact h.tick hs
  | work slot wm =>
    obtain ⟨w, -, hs⟩ := Option.bind_eq_some_iff.mp hs
    obtain ⟨e, -, rfl⟩ := Option.map_eq_some_iff.mp hs
    exact ⟨h.queue, List.length_set.trans h.workers⟩
  | reload => cases hs; exact mounted_valid _ _ _

end Session

end Browser

end TusRs
