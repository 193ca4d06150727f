import Mathlib.Algebra.Ring.Int.Defs
import Mathlib.Algebra.Ring.Nat
import Mathlib.Data.List.Nodup
import Mathlib.Data.List.Perm.Basic
import Mathlib.Data.List.Count

/-!
# The browser upload queue

`dioxus-tus/src/queue.rs`: a list of items and a table of worker slots. The handle's calls
and the scheduler's tick update the two separately; an item that is removed while a worker
has it leaves its id in the slot until the worker reports that it has finished.

Times are whole milliseconds, as `Date.now()` gives them. Of the options of an upload only
the resume URL is kept, which is all that the queue reads.

Results:

* `reconcileTick_slotted`, `reconcileTick_starts`: what one tick does to items and slots.
* `slots_hold_active_items`: after any run the slots hold exactly the active items and ids of
  removed ones, and a tick starts the earliest queued items on the free slots.
-/

namespace TusRs

namespace Browser

/-! ## Items, slots and worker snapshots -/

/-- `TusError`. -/
inductive TusError where
  | transport (message : String)
  | server (status : Nat) (body : String)
  | missingHeader (name : String)
  | invalidHeader (name value : String)
  | cors
  | blobRead (message : String)
  | invalidUrl (message : String)
  | serverMissingExtension (name : String)
  | fileTooLarge (fileSize maxSize : Nat)
deriving DecidableEq

inductive UploadStatus where
  | idle
  | uploading
  | paused
  | complete
  | error
deriving DecidableEq

/-- What a worker shows of itself. -/
structure TusUploadState where
  status : UploadStatus
  bytesUploaded : Nat
  bytesTotal : Option Nat
  uploadUrl : Option String
  error : Option TusError
deriving DecidableEq

/-- What the queue reads of a browser file. -/
structure File where
  name : String
  size : Nat
  lastModified : Int
deriving DecidableEq

structure TusStartOptions where
  existingUrl : Option String
deriving DecidableEq

inductive QueueItemStatus where
  | queued
  | uploading
  | paused
  | complete
  | error
  | aborted
deriving DecidableEq

namespace QueueItemStatus

/-- `is_terminal`. -/
def isTerminal : QueueItemStatus → Bool
  | .complete | .aborted | .error => true
  | _ => false

/-- Occupying a worker slot. -/
def isActive : QueueItemStatus → Bool
  | .uploading | .paused => true
  | _ => false

end QueueItemStatus

structure TusQueueItem where
  id : Nat
  fileName : String
  fileSize : Nat
  status : QueueItemStatus
  bytesUploaded : Nat
  error : Option TusError
  uploadUrl : Option String
  file : File
  options : TusStartOptions
  startedAt : Option Int
  pausedAt : Option Int
  pausedAccumulated : Int
deriving DecidableEq

/-- The items, the slot assignments and the counter for ids, a `u64`. -/
structure Queue where
  items : List TusQueueItem
  slots : List (Option Nat)
  nextId : Nat

/-- Change the first element that satisfies `p`: `iter_mut().find(p)`. -/
def updateFirst {α : Type} (p : α → Bool) (f : α → α) : List α → List α
  | [] => []
  | a :: as => if p a then f a :: as else a :: updateFirst p f as

/-- Change the item with the given id. -/
def updateItem (id : Nat) (f : TusQueueItem → TusQueueItem) : List TusQueueItem → List TusQueueItem :=
  updateFirst (fun i => i.id = id) f

namespace Queue

/-- The queue of a hook that has just been mounted. -/
def new (workerCount : Nat) : Queue := ⟨[], List.replicate workerCount none, 0⟩

/-- `slot_for`. -/
def slotFor (q : Queue) (id : Nat) : Option Nat := q.slots.findIdx? fun s => s = some id

/-- `add` once the resume URL is settled. -/
def add (q : Queue) (file : File) (options : TusStartOptions) : Queue :=
  { q with
    items := q.items ++ [{
      id := q.nextId
      fileName := file.name
      fileSize := file.size
      status := .queued
      bytesUploaded := 0
      error := none
      uploadUrl := options.existingUrl
      file := file
      options := options
      startedAt := none
      pausedAt := none
      pausedAccumulated := 0 }]
    nextId := (q.nextId + 1) % 2 ^ 64 }

/-- A queued item is marked, any other is left alone. -/
def abortQueued (item : TusQueueItem) : TusQueueItem :=
  if item.status = .queued then { item with status := .aborted } else item

/-- `apply_abort_all`. -/
def applyAbortAll (q : Queue) : Queue := { q with items := q.items.map abortQueued }

/-- `abort_item` on the queue's side: an item in a slot is left to its worker. -/
def abortItem (q : Queue) (id : Nat) : Queue :=
  match q.slotFor id with
  | some _ => q
  | none => { q with items := updateItem id abortQueued q.items }

def clearComplete (q : Queue) : Queue :=
  { q with items := q.items.filter fun i => i.status ≠ .complete }

/-- `apply_clear_finished`. -/
def applyClearFinished (q : Queue) : Queue :=
  { q with items := q.items.filter fun i => !i.status.isTerminal }

def removeItem (q : Queue) (id : Nat) : Queue :=
  { q with items := q.items.filter fun i => i.id ≠ id }

/-- A terminal item is reset, any other is left alone. -/
def retryFinished (item : TusQueueItem) : TusQueueItem :=
  if item.status.isTerminal then
    { item with
      status := .queued
      bytesUploaded := 0
      error := none
      uploadUrl := none
      options := { item.options with existingUrl := none }
      startedAt := none
      pausedAt := none
      pausedAccumulated := 0 }
  else item

/-- `apply_retry_item`. -/
def applyRetryItem (q : Queue) (id : Nat) : Queue :=
  if q.slots.contains (some id) then q
  else { q with items := updateItem id retryFinished q.items }

end Queue

/-! ## The scheduler's tick -/

/-- The worker no longer works on what it was given. -/
def UploadStatus.isFinished : UploadStatus → Bool
  | .idle | .complete | .error => true
  | _ => false

/-- An item that is seen uploading again has its pause counted. -/
def unpaused (now : Int) (item : TusQueueItem) : TusQueueItem :=
  if item.status = .paused then
    match item.pausedAt with
    | some pausedAt =>
      { item with
        pausedAt := none
        pausedAccumulated :=
          if now - pausedAt > 0 then item.pausedAccumulated + (now - pausedAt)
          else item.pausedAccumulated }
    | none => item
  else item

/-- The item of a slot after a look at its worker. -/
def reconcileItem (ws : TusUploadState) (now : Int) (item : TusQueueItem) : TusQueueItem :=
  let item := { item with
    bytesUploaded := ws.bytesUploaded
    uploadUrl := if ws.uploadUrl.isSome then ws.uploadUrl else item.uploadUrl }
  match ws.status with
  | .uploading => { unpaused now item with status := .uploading }
  | .paused =>
    { item with
      pausedAt := if item.status ≠ .paused && item.pausedAt.isNone then some now else item.pausedAt
      status := .paused }
  | .complete => { item with status := .complete }
  | .error => { item with status := .error, error := ws.error }
  | .idle => if item.status.isTerminal then item else { item with status := .aborted }

/-- Phase 1 of `reconcile_tick`. A slot whose item has vanished also waits for its worker. -/
def reconcileSlots (now : Int) : List TusQueueItem → List (Option Nat) → List TusUploadState →
    List TusQueueItem × List (Option Nat)
  | items, none :: slots, _ :: snapshots =>
    let r := reconcileSlots now items slots snapshots
    (r.1, none :: r.2)
  | items, some id :: slots, ws :: snapshots =>
    let items := updateItem id (reconcileItem ws now) items
    let r := reconcileSlots now items slots snapshots
    (r.1, (if ws.status.isFinished then none else some id) :: r.2)
  | items, slots, _ => (items, slots)

structure TickStart where
  slot : Nat
  itemId : Nat
deriving DecidableEq

def startedItem (now : Int) (item : TusQueueItem) : TusQueueItem :=
  { item with status := .uploading, startedAt := some now, pausedAt := none, pausedAccumulated := 0 }

/-- Phase 2 of `reconcile_tick`, from the slot `n` on. -/
def fillSlots (now : Int) : Nat → List TusQueueItem → List (Option Nat) →
    List TusQueueItem × List (Option Nat) × List TickStart
  | _, items, [] => (items, [], [])
  | n, items, some id :: slots =>
    let r := fillSlots now (n + 1) items slots
    (r.1, some id :: r.2.1, r.2.2)
  | n, items, none :: slots =>
    match items.find? fun i => i.status = .queued with
    | none =>
      let r := fillSlots now (n + 1) items slots
      (r.1, none :: r.2.1, r.2.2)
    | some item =>
      let items := updateFirst (fun i => i.status = .queued) (startedItem now) items
      let r := fillSlots now (n + 1) items slots
      (r.1, some item.id :: r.2.1, ⟨n, item.id⟩ :: r.2.2)

/-- `reconcile_tick`; it panics unless there is one snapshot per slot. -/
def Queue.reconcileTick (q : Queue) (snapshots : List TusUploadState) (now : Int) :
    Option (Queue × List TickStart) :=
  if q.slots.length = snapshots.length then
    let r := reconcileSlots now q.items q.slots snapshots
    let f := fillSlots now 0 r.1 r.2
    some ({ q with items := f.1, slots := f.2.1 }, f.2.2)
  else none

/-! ## What the slots hold -/

/-- Ids are distinct, no id is in two slots, and the slots hold just the active items and ids
that are not in the list. -/
structure Slotted (items : List TusQueueItem) (slots : List (Option Nat)) : Prop where
  distinct : (items.map TusQueueItem.id).Nodup
  once : ∀ id, slots.count (some id) ≤ 1
  active : ∀ item ∈ items, item.status.isActive = true ↔ some item.id ∈ slots

/-- The ids of the queued items, in the order of the queue. -/
def queuedIds (items : List TusQueueItem) : List Nat :=
  (items.filter fun i => i.status = .queued).map TusQueueItem.id

variable {items items' : List TusQueueItem} {slots slots' : List (Option Nat)} {id : Nat}
  {f : TusQueueItem → TusQueueItem} {now : Int} {ws : TusUploadState}

theorem Slotted.perm (h : Slotted items slots) (hp : slots.Perm slots') : Slotted items slots' where
  distinct := h.distinct
  once id := hp.count_eq (some id) ▸ h.once id
  active item hi := (h.active item hi).trans hp.mem_iff

section UpdateFirst

variable {α : Type} {p : α → Bool} {g : α → α} {l : List α}

theorem map_updateFirst {β : Type} {k : α → β} (hg : ∀ a, k (g a) = k a) :
    (updateFirst p g l).map k = l.map k := by
  induction l with
  | nil => rfl
  | cons a l ih =>
    unfold updateFirst
    split
    · rw [List.map_cons, List.map_cons, hg]
    · rw [List.map_cons, List.map_cons, ih]

theorem updateFirst_none (h : l.find? p = none) : updateFirst p g l = l := by
  induction l with
  | nil => rfl
  | cons a l ih =>
    have hp : ¬p a = true := List.find?_eq_none.mp h a List.mem_cons_self
    unfold updateFirst
    rw [if_neg hp, ih]
    rwa [List.find?_cons_of_neg hp] at h

/-- A property that the update keeps and that fails for the updated element stays as it is. -/
theorem filter_updateFirst {c : α → Bool} (hg : ∀ a, l.find? p = some a → c a = false ∧ c (g a) = false) :
    (updateFirst p g l).filter c = l.filter c := by
  induction l with
  | nil => rfl
  | cons a l ih =>
    unfold updateFirst
    by_cases hp : p a = true
    · obtain ⟨hc, hc'⟩ := hg a (List.find?_cons_of_pos hp)
      rw [if_pos hp, List.filter_cons_of_neg (by simp [hc']), List.filter_cons_of_neg (by simp [hc])]
    · rw [if_neg hp, List.filter_cons, List.filter_cons, ih]
      intro a' ha'
      exact hg a' (by rw [List.find?_cons_of_neg hp, ha'])

end UpdateFirst

theorem eq_of_id (hd : (items.map TusQueueItem.id).Nodup) {a b : TusQueueItem} (ha : a ∈ items)
    (hb : b ∈ items) (h : a.id = b.id) : a = b :=
  List.inj_on_of_nodup_map hd ha hb h

/-- With distinct ids the element that is found is the only one with its id. -/
theorem updateFirst_eq_map {p : TusQueueItem → Bool} {a : TusQueueItem}
    (hd : (items.map TusQueueItem.id).Nodup) (h : items.find? p = some a) :
    updateFirst p f items = items.map fun i => if i.id = a.id then f i else i := by
  induction items with
  | nil => cases h
  | cons b items ih =>
    rw [List.map_cons, List.nodup_cons] at hd
    unfold updateFirst
    by_cases hp : p b = true
    · rw [List.find?_cons_of_pos hp] at h
      cases h
      rw [if_pos hp, List.map_cons, if_pos rfl]
      congr 1
      refine (List.map_id _).symm.trans (List.map_congr_left fun i hi => (if_neg ?_).symm)
      intro he
      exact hd.1 (he ▸ List.mem_map_of_mem hi)
    · rw [List.find?_cons_of_neg hp] at h
      have hne : b.id ≠ a.id := by
        intro he
        exact hd.1 (he ▸ List.mem_map_of_mem (List.mem_of_find?_eq_some h))
      rw [if_neg hp, List.map_cons, if_neg hne, ih hd.2 h]

theorem find_id {item : TusQueueItem} (h : items.find? (fun i => i.id = id) = some item) :
    item ∈ items ∧ item.id = id :=
  ⟨List.mem_of_find?_eq_some h, by simpa using List.find?_some h⟩

theorem find_id_none (h : items.find? (fun i => i.id = id) = none) :
    ∀ item ∈ items, item.id ≠ id :=
  fun item hi => by simpa using List.find?_eq_none.mp h item hi

/-- The item of a slot and the slot change together. -/
theorem Slotted.change {s s' : Option Nat} {a : TusQueueItem} (h : Slotted items (s :: slots))
    (ha : a ∈ items) (hf : ∀ i, (f i).id = i.id) (hs : s = none ∨ s = some a.id)
    (hs' : s' = none ∨ s' = some a.id) (hr : some a.id ∉ slots)
    (hactive : (f a).status.isActive = true ↔ s' = some a.id) :
    Slotted (items.map fun i => if i.id = a.id then f i else i) (s' :: slots) where
  distinct := by
    have hids : (items.map fun i => if i.id = a.id then f i else i).map TusQueueItem.id =
        items.map TusQueueItem.id := by
      rw [List.map_map]
      refine List.map_congr_left fun i _ => ?_
      show (if i.id = a.id then f i else i).id = i.id
      split
      · exact hf i
      · rfl
    rw [hids]
    exact h.distinct
  once id := by
    have hle := h.once id
    rw [List.count_cons] at hle ⊢
    by_cases hid : id = a.id
    · subst hid
      rw [List.count_eq_zero.mpr hr]
      split <;> omega
    · have hne : ¬(s' == some id) = true := by
        rw [beq_iff_eq]
        rcases hs' with rfl | rfl
        · exact fun h => nomatch h
        · exact fun h => hid (Option.some.inj h).symm
      rw [if_neg hne]
      omega
  active b hb := by
    obtain ⟨i, hi, rfl⟩ := List.mem_map.mp hb
    by_cases hid : i.id = a.id
    · obtain rfl := eq_of_id h.distinct hi ha hid
      rw [if_pos rfl, hactive, hf, List.mem_cons]
      exact ⟨fun he => .inl he.symm, fun he => he.elim Eq.symm fun hm => absurd hm hr⟩
    · have hne : ∀ x : Option Nat, x = none ∨ x = some a.id → some i.id ≠ x := by
        rintro x (rfl | rfl)
        · exact fun h => nomatch h
        · exact fun h => hid (Option.some.inj h)
      rw [if_neg hid, h.active i hi, List.mem_cons, List.mem_cons]
      exact or_congr_left (iff_of_false (hne s hs) (hne s' hs'))

/-- A slot may be freed when its item has vanished. -/
theorem Slotted.vanished {s' : Option Nat} (h : Slotted items (some id :: slots))
    (hid : ∀ item ∈ items, item.id ≠ id) (hs' : s' = none ∨ s' = some id) :
    Slotted items (s' :: slots) where
  distinct := h.distinct
  once id' := by
    rcases hs' with rfl | rfl
    · refine Nat.le_trans ?_ (h.once id')
      rw [List.count_cons_of_ne (by simp), List.count_cons]
      exact Nat.le_add_right _ _
    · exact h.once id'
  active item hi := by
    have hne : ∀ x : Option Nat, x = none ∨ x = some id → some item.id ≠ x := by
      rintro x (rfl | rfl)
      · exact fun h => nomatch h
      · exact fun he => hid item hi (Option.some.inj he)
    rw [h.active item hi, List.mem_cons, List.mem_cons]
    exact or_congr_left (iff_of_false (hne _ (.inr rfl)) (hne s' hs'))

/-! ## Phase 1 -/

@[simp] theorem reconcileItem_id (ws : TusUploadState) (now : Int) (item : TusQueueItem) :
    (reconcileItem ws now item).id = item.id := by
  unfold reconcileItem unpaused
  dsimp only
  split
  · split
    · split <;> rfl
    · rfl
  · rfl
  · rfl
  · rfl
  · split <;> rfl

/-- An active item stays active just as long as its worker works on it. -/
theorem reconcileItem_active {item : TusQueueItem} (h : item.status.isActive = true) :
    (reconcileItem ws now item).status.isActive = !ws.status.isFinished := by
  unfold reconcileItem
  dsimp only
  cases ws.status with
  | uploading => rfl
  | paused => rfl
  | complete => rfl
  | error => rfl
  | idle =>
    have hterm : item.status.isTerminal = false := by
      revert h
      cases item.status <;> decide
    dsimp only
    rw [if_neg (by simp [hterm])]
    rfl

theorem reconcileItem_not_queued (item : TusQueueItem) :
    (reconcileItem ws now item).status ≠ .queued := by
  unfold reconcileItem
  dsimp only
  cases ws.status with
  | uploading => simp
  | paused => simp
  | complete => simp
  | error => simp
  | idle =>
    dsimp only
    split
    · next ht =>
      intro hq
      rw [hq] at ht
      cases ht
    · simp

theorem not_mem_of_once {slot : Option Nat} (h : ∀ id, (slot :: slots).count (some id) ≤ 1)
    (hs : slot = some id) : some id ∉ slots := by
  subst hs
  intro hm
  have hpos := List.count_pos_iff.mpr hm
  have hle := h id
  rw [List.count_cons_self] at hle
  omega

/-- One slot of phase 1. -/
theorem reconcileSlot_slotted (ws : TusUploadState) (now : Int)
    (h : Slotted items (some id :: slots)) :
    Slotted (updateItem id (reconcileItem ws now) items)
        ((if ws.status.isFinished then none else some id) :: slots) ∧
      queuedIds (updateItem id (reconcileItem ws now) items) = queuedIds items := by
  have hr : some id ∉ slots := not_mem_of_once h.once rfl
  cases hfind : items.find? fun i => i.id = id with
  | none =>
    rw [updateItem, updateFirst_none hfind]
    refine ⟨h.vanished (find_id_none hfind) ?_, rfl⟩
    split
    · exact .inl rfl
    · exact .inr rfl
  | some a =>
    obtain ⟨ha, hid⟩ := find_id hfind
    subst hid
    have hact : a.status.isActive = true := (h.active a ha).mpr List.mem_cons_self
    refine ⟨?_, ?_⟩
    · rw [updateItem, updateFirst_eq_map h.distinct hfind]
      refine h.change ha (reconcileItem_id ws now) (.inr rfl) ?_ hr ?_
      · split
        · exact .inl rfl
        · exact .inr rfl
      · rw [reconcileItem_active hact]
        cases ws.status.isFinished <;> simp
    · refine congrArg (List.map TusQueueItem.id) (filter_updateFirst ?_)
      intro b hb
      rw [hfind] at hb
      cases hb
      refine ⟨?_, by simpa using reconcileItem_not_queued a⟩
      rw [decide_eq_false_iff_not]
      intro hq
      rw [hq] at hact
      cases hact

/-- Phase 1 keeps the slots right and does not touch queued items. -/
theorem reconcileSlots_slotted (before : List (Option Nat)) {snapshots : List TusUploadState}
    (h : Slotted items (before ++ slots)) (hl : slots.length = snapshots.length) :
    Slotted (reconcileSlots now items slots snapshots).1
        (before ++ (reconcileSlots now items slots snapshots).2) ∧
      queuedIds (reconcileSlots now items slots snapshots).1 = queuedIds items := by
  induction slots generalizing items before snapshots with
  | nil =>
    unfold reconcileSlots
    exact ⟨h, rfl⟩
  | cons slot slots ih =>
    cases snapshots with
    | nil => cases hl
    | cons ws snapshots =>
      have hlen : slots.length = snapshots.length := Nat.succ.inj hl
      have hmove : ∀ (x : Option Nat) l, (before ++ x :: l).Perm ((before ++ [x]) ++ l) :=
        fun x l => by rw [List.append_assoc]; exact .refl _
      cases slot with
      | none =>
        unfold reconcileSlots
        obtain ⟨h', hq⟩ := ih _ (h.perm (hmove none slots)) hlen
        exact ⟨h'.perm (hmove none _).symm, hq⟩
      | some id =>
        unfold reconcileSlots
        obtain ⟨h₁, hq₁⟩ := reconcileSlot_slotted ws now (h.perm List.perm_middle)
        obtain ⟨h₂, hq₂⟩ := ih _ ((h₁.perm List.perm_middle.symm).perm (hmove _ slots)) hlen
        exact ⟨h₂.perm (hmove _ _).symm, hq₂.trans hq₁⟩

/-! ## Phase 2 -/

/-- The indices of the free slots, counted from `n`. -/
def freeSlots : Nat → List (Option Nat) → List Nat
  | _, [] => []
  | n, none :: slots => n :: freeSlots (n + 1) slots
  | n, some _ :: slots => freeSlots (n + 1) slots

theorem getElem?_shift {α : Type} {x : α} {l : List α} {n k : Nat} (hk : n + 1 ≤ k) :
    l[k - (n + 1)]? = (x :: l)[k - n]? := by
  rw [show k - n = (k - (n + 1)) + 1 by omega, List.getElem?_cons_succ]

theorem mem_freeSlots {n k : Nat} : k ∈ freeSlots n slots ↔ n ≤ k ∧ slots[k - n]? = some none := by
  induction slots generalizing n with
  | nil => simp [freeSlots]
  | cons slot slots ih =>
    have hself : (slot :: slots)[n - n]? = some slot := by simp
    cases slot with
    | none =>
      unfold freeSlots
      rw [List.mem_cons, ih]
      constructor
      · rintro (rfl | ⟨hk, hs⟩)
        · exact ⟨Nat.le_refl _, hself⟩
        · exact ⟨by omega, (getElem?_shift hk).symm.trans hs⟩
      · rintro ⟨hk, hs⟩
        by_cases hkn : k = n
        · exact .inl hkn
        · exact .inr ⟨by omega, (getElem?_shift (by omega)).trans hs⟩
    | some id =>
      unfold freeSlots
      rw [ih]
      constructor
      · rintro ⟨hk, hs⟩
        exact ⟨by omega, (getElem?_shift hk).symm.trans hs⟩
      · rintro ⟨hk, hs⟩
        have hkn : k ≠ n := by
          rintro rfl
          rw [hself] at hs
          cases hs
        exact ⟨by omega, (getElem?_shift (by omega)).trans hs⟩

theorem freeSlots_nodup {n : Nat} : (freeSlots n slots).Nodup := by
  induction slots generalizing n with
  | nil => exact List.nodup_nil
  | cons slot slots ih =>
    cases slot with
    | none =>
      unfold freeSlots
      refine List.nodup_cons.mpr ⟨fun hm => ?_, ih⟩
      have := (mem_freeSlots.mp hm).1
      omega
    | some id =>
      unfold freeSlots
      exact ih

/-- The first queued item, when it is started. -/
theorem queuedIds_start (now : Int) {a : TusQueueItem}
    (h : items.find? (fun i => i.status = .queued) = some a) :
    queuedIds items =
      a.id :: queuedIds (updateFirst (fun i => i.status = .queued) (startedItem now) items) := by
  induction items with
  | nil => cases h
  | cons b items ih =>
    unfold updateFirst queuedIds
    by_cases hb : b.status = .queued
    · rw [List.find?_cons_of_pos (by simpa using hb)] at h
      cases h
      rw [if_pos (by simpa using hb), List.filter_cons_of_pos (by simpa using hb),
        List.filter_cons_of_neg (by simp [startedItem])]
      rfl
    · rw [List.find?_cons_of_neg (by simpa using hb)] at h
      rw [if_neg (by simpa using hb), List.filter_cons_of_neg (by simpa using hb),
        List.filter_cons_of_neg (by simpa using hb)]
      exact ih h

theorem queuedIds_of_none (h : items.find? (fun i => i.status = .queued) = none) :
    queuedIds items = [] := by
  unfold queuedIds
  rw [List.filter_eq_nil_iff.mpr, List.map_nil]
  exact List.find?_eq_none.mp h

/-- Phase 2 hands the earliest queued items to the free slots, in order, until one or the
other runs out. -/
theorem fillSlots_starts (now : Int) (n : Nat) (items : List TusQueueItem)
    (slots : List (Option Nat)) :
    (fillSlots now n items slots).2.2 =
      List.zipWith TickStart.mk (freeSlots n slots) (queuedIds items) := by
  induction slots generalizing n items with
  | nil => rfl
  | cons slot slots ih =>
    cases slot with
    | some id => exact ih (n + 1) items
    | none =>
      unfold fillSlots freeSlots
      split
      · next h =>
        rw [ih, queuedIds_of_none h, List.zipWith_nil_right, List.zipWith_nil_right]
      · next a h =>
        dsimp only
        rw [ih, queuedIds_start now h, List.zipWith_cons_cons]

theorem fillSlots_slotted (n : Nat) (before : List (Option Nat))
    (h : Slotted items (before ++ slots)) :
    Slotted (fillSlots now n items slots).1 (before ++ (fillSlots now n items slots).2.1) := by
  induction slots generalizing n items before with
  | nil => exact h
  | cons slot slots ih =>
    have hmove : ∀ (x : Option Nat) l, (before ++ x :: l).Perm ((before ++ [x]) ++ l) :=
      fun x l => by rw [List.append_assoc]; exact .refl _
    cases slot with
    | some id =>
      unfold fillSlots
      exact (ih (n + 1) _ (h.perm (hmove _ slots))).perm (hmove _ _).symm
    | none =>
      unfold fillSlots
      split
      · exact (ih (n + 1) _ (h.perm (hmove _ slots))).perm (hmove _ _).symm
      · next a hfind =>
        have ha : a ∈ items := List.mem_of_find?_eq_some hfind
        have hq : a.status = .queued := by simpa using List.find?_some hfind
        have hfree := h.perm List.perm_middle
        have hr : some a.id ∉ before ++ slots := by
          intro hm
          have := (hfree.active a ha).mpr (List.mem_cons_of_mem _ hm)
          rw [hq] at this
          cases this
        have hnew : Slotted (items.map fun item => if item.id = a.id then startedItem now item else item)
            (some a.id :: (before ++ slots)) :=
          hfree.change ha (fun _ => rfl) (.inl rfl) (.inr rfl) hr
            (by simp [startedItem, QueueItemStatus.isActive])
        rw [← updateFirst_eq_map h.distinct hfind] at hnew
        exact (ih (n + 1) _ ((hnew.perm List.perm_middle.symm).perm (hmove _ slots))).perm
          (hmove _ _).symm

/-- No slot stays free while an item is queued. -/
theorem fillSlots_full (n : Nat) (h : none ∈ (fillSlots now n items slots).2.1) :
    queuedIds (fillSlots now n items slots).1 = [] := by
  have hnone : ∀ (n : Nat) (slots : List (Option Nat)) (items : List TusQueueItem),
      queuedIds items = [] → queuedIds (fillSlots now n items slots).1 = [] := by
    intro n slots
    induction slots generalizing n with
    | nil => exact fun items h => h
    | cons slot slots ih =>
      intro items hq
      cases slot with
      | some id => exact ih (n + 1) items hq
      | none =>
        unfold fillSlots
        split
        · exact ih (n + 1) items hq
        · next a ha =>
          rw [queuedIds_start now ha] at hq
          cases hq
  induction slots generalizing n items with
  | nil => exact absurd h List.not_mem_nil
  | cons slot slots ih =>
    cases slot with
    | some id =>
      unfold fillSlots at h ⊢
      exact ih (n + 1) ((List.mem_cons.mp h).resolve_left (by simp))
    | none =>
      unfold fillSlots at h ⊢
      split at h
      · next hfind => exact hnone (n + 1) slots items (queuedIds_of_none hfind)
      · exact ih (n + 1) ((List.mem_cons.mp h).resolve_left (by simp))

/-! ## Runs -/

/-- A call of the handle or a tick of the scheduler; `add` with the options it ends up with. -/
inductive QueueOp where
  | add (file : File) (options : TusStartOptions)
  | abortItem (id : Nat)
  | abortAll
  | removeItem (id : Nat)
  | clearComplete
  | clearFinished
  | retryItem (id : Nat)
  | tick (snapshots : List TusUploadState) (now : Int)

namespace QueueOp

def isAdd : QueueOp → Bool
  | .add _ _ => true
  | _ => false

/-- The queue after a call; there is none where the tick panics. -/
def perform (q : Queue) : QueueOp → Option Queue
  | .add file options => some (q.add file options)
  | .abortItem id => some (q.abortItem id)
  | .abortAll => some q.applyAbortAll
  | .removeItem id => some (q.removeItem id)
  | .clearComplete => some q.clearComplete
  | .clearFinished => some q.applyClearFinished
  | .retryItem id => some (q.applyRetryItem id)
  | .tick snapshots now => (q.reconcileTick snapshots now).map Prod.fst

end QueueOp

/-- The queue after a sequence of calls and ticks. -/
def Queue.run : Queue → List QueueOp → Option Queue
  | q, [] => some q
  | q, op :: ops => (op.perform q).bind fun q => q.run ops

/-- The slots are right, every id was given out, and an id that a slot holds is that of an item
or was passed to `remove_item`. -/
structure Queue.Valid (q : Queue) (adds : Nat) (removed : Nat → Prop) : Prop where
  slotted : Slotted q.items q.slots
  nextId : q.nextId = adds
  items : ∀ item ∈ q.items, item.id < adds
  slots : ∀ id, some id ∈ q.slots → id < adds ∧ ((∃ item ∈ q.items, item.id = id) ∨ removed id)

variable {q q' : Queue} {adds : Nat} {removed : Nat → Prop}

/-- Items whose activity and ids are as before. -/
theorem Slotted.map (h : Slotted items slots) (hid : ∀ i ∈ items, (f i).id = i.id)
    (hf : ∀ i ∈ items, (f i).status.isActive = i.status.isActive) :
    Slotted (items.map f) slots where
  distinct := by
    rw [List.map_map, show items.map (TusQueueItem.id ∘ f) = items.map TusQueueItem.id from
      List.map_congr_left hid]
    exact h.distinct
  once := h.once
  active b hb := by
    obtain ⟨i, hi, rfl⟩ := List.mem_map.mp hb
    rw [hf i hi, hid i hi]
    exact h.active i hi

theorem Slotted.filter (h : Slotted items slots) (p : TusQueueItem → Bool) :
    Slotted (items.filter p) slots where
  distinct := (h.distinct).sublist (List.filter_sublist.map _)
  once := h.once
  active b hb := h.active b (List.mem_of_mem_filter hb)

/-- Change items but neither their ids nor which of them are active. -/
theorem Queue.Valid.map (h : q.Valid adds removed) (hid : ∀ i ∈ q.items, (f i).id = i.id)
    (hf : ∀ i ∈ q.items, (f i).status.isActive = i.status.isActive) :
    Queue.Valid { q with items := q.items.map f } adds removed where
  slotted := h.slotted.map hid hf
  nextId := h.nextId
  items b hb := by
    obtain ⟨i, hi, rfl⟩ := List.mem_map.mp hb
    rw [hid i hi]
    exact h.items i hi
  slots id hs := by
    obtain ⟨hlt, hin⟩ := h.slots id hs
    refine ⟨hlt, hin.imp_left ?_⟩
    rintro ⟨i, hi, rfl⟩
    exact ⟨f i, List.mem_map_of_mem hi, hid i hi⟩

/-- Change the item with the given id. -/
theorem Queue.Valid.updateItem (h : q.Valid adds removed) (id : Nat) (hid : ∀ i, (f i).id = i.id)
    (hf : ∀ i ∈ q.items, i.id = id → (f i).status.isActive = i.status.isActive) :
    Queue.Valid { q with items := Browser.updateItem id f q.items } adds removed := by
  cases hfind : q.items.find? fun i => i.id = id with
  | none =>
    rw [Browser.updateItem, updateFirst_none hfind]
    exact h
  | some a =>
    rw [Browser.updateItem, updateFirst_eq_map h.slotted.distinct hfind, (find_id hfind).2]
    refine h.map ?_ ?_
    · intro i _
      split
      · exact hid i
      · rfl
    · intro i hi
      split
      · next he => exact hf i hi he
      · rfl

/-- Drop items that no slot holds. -/
theorem Queue.Valid.filter (h : q.Valid adds removed) (p : TusQueueItem → Bool)
    (hp : ∀ i ∈ q.items, p i = false → i.status.isActive = false ∨ removed i.id) :
    Queue.Valid { q with items := q.items.filter p } adds removed where
  slotted := h.slotted.filter p
  nextId := h.nextId
  items b hb := h.items b (List.mem_of_mem_filter hb)
  slots id hs := by
    obtain ⟨hlt, hin⟩ := h.slots id hs
    refine ⟨hlt, ?_⟩
    rcases hin with ⟨i, hi, rfl⟩ | hrem
    · cases hpi : p i with
      | true => exact .inl ⟨i, List.mem_filter.mpr ⟨hi, hpi⟩, rfl⟩
      | false =>
        rcases hp i hi hpi with hact | hrem
        · rw [(h.slotted.active i hi).mpr hs] at hact
          cases hact
        · exact .inr hrem
    · exact .inr hrem

theorem Queue.Valid.mono {removed' : Nat → Prop} (h : q.Valid adds removed)
    (hr : ∀ id, removed id → removed' id) : q.Valid adds removed' :=
  ⟨h.slotted, h.nextId, h.items, fun id hs => ⟨(h.slots id hs).1, (h.slots id hs).2.imp_right (hr id)⟩⟩

theorem Queue.Valid.add (h : q.Valid adds removed) (hlt : adds + 1 < 2 ^ 64) (file : File)
    (options : TusStartOptions) : (q.add file options).Valid (adds + 1) removed where
  slotted := by
    refine ⟨?_, h.slotted.once, ?_⟩
    · show ((q.items ++ [_]).map TusQueueItem.id).Nodup
      rw [List.map_append, List.map_singleton]
      refine List.Nodup.append h.slotted.distinct (List.nodup_singleton _) ?_
      intro id hid hnew
      obtain ⟨i, hi, rfl⟩ := List.mem_map.mp hid
      have hlt := h.items i hi
      rw [List.mem_singleton.mp hnew, h.nextId] at hlt
      exact Nat.lt_irrefl _ hlt
    · intro item hi
      rcases List.mem_append.mp hi with hi | hi
      · exact h.slotted.active item hi
      · obtain rfl := List.mem_singleton.mp hi
        refine iff_of_false (by simp [QueueItemStatus.isActive]) fun hs => ?_
        have hlt := (h.slots _ hs).1
        rw [h.nextId] at hlt
        exact Nat.lt_irrefl _ hlt
  nextId := by
    show (q.nextId + 1) % 2 ^ 64 = adds + 1
    rw [h.nextId, Nat.mod_eq_of_lt hlt]
  items item hi := by
    rcases List.mem_append.mp hi with hi | hi
    · exact Nat.lt_succ_of_lt (h.items item hi)
    · obtain rfl := List.mem_singleton.mp hi
      rw [h.nextId]
      exact Nat.lt_succ_self _
  slots id hs := by
    obtain ⟨hlt, hin⟩ := h.slots id hs
    refine ⟨Nat.lt_succ_of_lt hlt, hin.imp_left ?_⟩
    rintro ⟨i, hi, rfl⟩
    exact ⟨i, List.mem_append_left _ hi, rfl⟩

/-! A tick does not add, drop or rename items. -/

theorem reconcileSlots_ids {snapshots : List TusUploadState} :
    (reconcileSlots now items slots snapshots).1.map TusQueueItem.id =
      items.map TusQueueItem.id := by
  induction slots generalizing items snapshots with
  | nil => rfl
  | cons slot slots ih =>
    cases snapshots with
    | nil => cases slot <;> rfl
    | cons ws snapshots =>
      cases slot with
      | none => exact ih
      | some id => exact ih.trans (map_updateFirst fun i => reconcileItem_id ws now i)

theorem fillSlots_ids {n : Nat} :
    (fillSlots now n items slots).1.map TusQueueItem.id = items.map TusQueueItem.id := by
  induction slots generalizing n items with
  | nil => rfl
  | cons slot slots ih =>
    cases slot with
    | some id => exact ih
    | none =>
      unfold fillSlots
      split
      · exact ih
      · exact ih.trans (map_updateFirst fun _ => rfl)

/-- Phase 1 puts nothing into a slot. -/
theorem mem_reconcileSlots {snapshots : List TusUploadState}
    (h : some id ∈ (reconcileSlots now items slots snapshots).2) : some id ∈ slots := by
  induction slots generalizing items snapshots with
  | nil => exact h
  | cons slot slots ih =>
    cases snapshots with
    | nil => cases slot <;> exact h
    | cons ws snapshots =>
      cases slot with
      | none =>
        rcases List.mem_cons.mp h with h | h
        · cases h
        · exact List.mem_cons_of_mem _ (ih h)
      | some id' =>
        rcases List.mem_cons.mp h with h | h
        · split at h
          · cases h
          · exact h ▸ List.mem_cons_self
        · exact List.mem_cons_of_mem _ (ih h)

/-- Phase 2 puts only items into slots. -/
theorem mem_fillSlots {n : Nat} (h : some id ∈ (fillSlots now n items slots).2.1) :
    some id ∈ slots ∨ id ∈ items.map TusQueueItem.id := by
  induction slots generalizing n items with
  | nil => exact .inl h
  | cons slot slots ih =>
    cases slot with
    | some id' =>
      rcases List.mem_cons.mp h with h | h
      · exact .inl (h ▸ List.mem_cons_self)
      · exact (ih h).imp_left (List.mem_cons_of_mem _)
    | none =>
      unfold fillSlots at h
      split at h
      · rcases List.mem_cons.mp h with h | h
        · cases h
        · exact (ih h).imp_left (List.mem_cons_of_mem _)
      · next a hfind =>
        rcases List.mem_cons.mp h with h | h
        · cases h
          exact .inr (List.mem_map_of_mem (List.mem_of_find?_eq_some hfind))
        · have hids : (updateFirst (fun i => i.status = .queued) (startedItem now) items).map
              TusQueueItem.id = items.map TusQueueItem.id := map_updateFirst fun _ => rfl
          exact (ih h).imp (List.mem_cons_of_mem _) fun hm => hids ▸ hm

/-- A tick keeps the slots right. -/
theorem Queue.Valid.tick {snapshots : List TusUploadState} {starts : List TickStart}
    (h : q.Valid adds removed) (ht : q.reconcileTick snapshots now = some (q', starts)) :
    q'.Valid adds removed := by
  unfold Queue.reconcileTick at ht
  split at ht
  · next hl =>
    cases ht
    have hmid : (reconcileSlots now q.items q.slots snapshots).1.map TusQueueItem.id =
        q.items.map TusQueueItem.id := reconcileSlots_ids
    have hids : (fillSlots now 0 (reconcileSlots now q.items q.slots snapshots).1
        (reconcileSlots now q.items q.slots snapshots).2).1.map TusQueueItem.id =
        q.items.map TusQueueItem.id := fillSlots_ids.trans hmid
    have hmem : ∀ id, id ∈ q.items.map TusQueueItem.id → ∃ item ∈ (fillSlots now 0
        (reconcileSlots now q.items q.slots snapshots).1
        (reconcileSlots now q.items q.slots snapshots).2).1, item.id = id := by
      intro id hid
      rw [← hids] at hid
      exact List.mem_map.mp hid
    refine ⟨?_, h.nextId, ?_, ?_⟩
    · exact fillSlots_slotted 0 [] (reconcileSlots_slotted [] h.slotted hl).1
    · intro item hi
      have hid : item.id ∈ q.items.map TusQueueItem.id := hids ▸ List.mem_map_of_mem hi
      obtain ⟨i, hi', he⟩ := List.mem_map.mp hid
      rw [← he]
      exact h.items i hi'
    · intro id hs
      rcases mem_fillSlots hs with hs | hs
      · obtain ⟨hlt, hin⟩ := h.slots id (mem_reconcileSlots hs)
        refine ⟨hlt, hin.imp_left ?_⟩
        rintro ⟨i, hi, rfl⟩
        exact hmem _ (List.mem_map_of_mem hi)
      · rw [hmid] at hs
        obtain ⟨i, hi, rfl⟩ := List.mem_map.mp hs
        exact ⟨h.items i hi, .inl (hmem _ (List.mem_map_of_mem hi))⟩
  · cases ht

theorem fillSlots_filled {n : Nat} {st : TickStart} (h : st ∈ (fillSlots now n items slots).2.2) :
    n ≤ st.slot ∧ (fillSlots now n items slots).2.1[st.slot - n]? = some (some st.itemId) := by
  induction slots generalizing n items with
  | nil => exact absurd h List.not_mem_nil
  | cons slot slots ih =>
    cases slot with
    | some id =>
      obtain ⟨hk, hs⟩ := ih h
      exact ⟨by omega, (getElem?_shift hk).symm.trans hs⟩
    | none =>
      unfold fillSlots at h ⊢
      split at h
      · obtain ⟨hk, hs⟩ := ih h
        exact ⟨by omega, (getElem?_shift hk).symm.trans hs⟩
      · next a ha =>
        rcases List.mem_cons.mp h with rfl | h
        · exact ⟨Nat.le_refl _, by simp⟩
        · obtain ⟨hk, hs⟩ := ih h
          exact ⟨by omega, (getElem?_shift hk).symm.trans hs⟩

/-- What a tick starts, and on which slots. -/
structure Starts (q : Queue) (snapshots : List TusUploadState) (now : Int) (q' : Queue)
    (starts : List TickStart) : Prop where
  /-- The slots are distinct, and free once the workers have been looked at. -/
  slots_distinct : (starts.map TickStart.slot).Nodup
  slots_free : ∀ st ∈ starts, (reconcileSlots now q.items q.slots snapshots).2[st.slot]? = some none
  slots_filled : ∀ st ∈ starts, q'.slots[st.slot]? = some (some st.itemId)
  /-- The items are distinct, and the earliest queued ones in the order of the queue. -/
  items_distinct : (starts.map TickStart.itemId).Nodup
  items_earliest : starts.map TickStart.itemId = (queuedIds q.items).take starts.length
  /-- No slot stays free while an item is queued. -/
  full : none ∈ q'.slots → ∀ item ∈ q'.items, item.status ≠ .queued

theorem map_slot_zipWith (ns ids : List Nat) :
    (List.zipWith TickStart.mk ns ids).map TickStart.slot = ns.take ids.length := by
  induction ns generalizing ids with
  | nil => simp
  | cons n ns ih =>
    cases ids with
    | nil => rfl
    | cons id ids => rw [List.zipWith_cons_cons, List.map_cons, ih]; rfl

theorem map_itemId_zipWith (ns ids : List Nat) :
    (List.zipWith TickStart.mk ns ids).map TickStart.itemId = ids.take ns.length := by
  induction ns generalizing ids with
  | nil => simp
  | cons n ns ih =>
    cases ids with
    | nil => rfl
    | cons id ids => rw [List.zipWith_cons_cons, List.map_cons, ih]; rfl

theorem queuedIds_nodup (hd : (items.map TusQueueItem.id).Nodup) : (queuedIds items).Nodup :=
  hd.sublist (List.filter_sublist.map _)

theorem reconcileTick_starts {snapshots : List TusUploadState} {starts : List TickStart}
    (h : Slotted q.items q.slots) (ht : q.reconcileTick snapshots now = some (q', starts)) :
    Starts q snapshots now q' starts := by
  unfold Queue.reconcileTick at ht
  split at ht
  · next hl =>
    cases ht
    -- looking at the workers does not change what is queued
    have hq : queuedIds (reconcileSlots now q.items q.slots snapshots).1 = queuedIds q.items :=
      (reconcileSlots_slotted [] h hl).2
    have hstarts := fillSlots_starts now 0 (reconcileSlots now q.items q.slots snapshots).1
      (reconcileSlots now q.items q.slots snapshots).2
    rw [hq] at hstarts
    refine ⟨?_, ?_, ?_, ?_, ?_, ?_⟩
    · rw [hstarts, map_slot_zipWith]
      exact freeSlots_nodup.sublist (List.take_sublist _ _)
    · intro st hst
      have hslot : st.slot ∈ freeSlots 0 (reconcileSlots now q.items q.slots snapshots).2 := by
        have hm := List.mem_map_of_mem (f := TickStart.slot) hst
        rw [hstarts, map_slot_zipWith] at hm
        exact List.mem_of_mem_take hm
      exact (mem_freeSlots.mp hslot).2
    · exact fun st hst => (fillSlots_filled hst).2
    · rw [hstarts, map_itemId_zipWith]
      exact (queuedIds_nodup h.distinct).sublist (List.take_sublist _ _)
    · rw [hstarts, map_itemId_zipWith, List.length_zipWith]
      exact List.take_eq_take_min
    · intro hfree item hi hqueued
      have hnil := fillSlots_full 0 hfree
      have hm : item.id ∈ queuedIds (fillSlots now 0
          (reconcileSlots now q.items q.slots snapshots).1
          (reconcileSlots now q.items q.slots snapshots).2).1 :=
        List.mem_map_of_mem (List.mem_filter.mpr ⟨hi, by simpa using hqueued⟩)
      rw [hnil] at hm
      exact absurd hm List.not_mem_nil
  · cases ht

/-! ### Calls -/

theorem abortQueued_active (item : TusQueueItem) :
    (Queue.abortQueued item).status.isActive = item.status.isActive := by
  unfold Queue.abortQueued
  split
  · next h => rw [h]; rfl
  · rfl

theorem abortQueued_id (item : TusQueueItem) : (Queue.abortQueued item).id = item.id := by
  unfold Queue.abortQueued
  split <;> rfl

theorem not_active_of_terminal {status : QueueItemStatus} (h : status.isTerminal = true) :
    status.isActive = false := by
  revert h
  cases status <;> decide

theorem retryFinished_id (item : TusQueueItem) : (Queue.retryFinished item).id = item.id := by
  unfold Queue.retryFinished
  split <;> rfl

theorem retryFinished_active (item : TusQueueItem) :
    (Queue.retryFinished item).status.isActive = item.status.isActive := by
  unfold Queue.retryFinished
  split
  · next h =>
    rw [not_active_of_terminal h]
    rfl
  · rfl

/-- The ids that have been passed to `remove_item` after one more call. -/
def removedBy (op : QueueOp) (removed : Nat → Prop) (id : Nat) : Prop :=
  removed id ∨ op = .removeItem id

theorem perform_valid {op : QueueOp} (h : q.Valid adds removed) (hp : op.perform q = some q')
    (hlt : op.isAdd = true → adds + 1 < 2 ^ 64) :
    q'.Valid (adds + if op.isAdd then 1 else 0) (removedBy op removed) := by
  have hmono : q.Valid adds (removedBy op removed) := h.mono fun _ hr => .inl hr
  cases op with
  | add file options =>
    cases hp
    exact hmono.add (hlt rfl) file options
  | abortItem id =>
    cases hp
    show (q.abortItem id).Valid adds _
    unfold Queue.abortItem
    split
    · exact hmono
    · exact hmono.updateItem id abortQueued_id fun i _ _ => abortQueued_active i
  | abortAll =>
    cases hp
    exact hmono.map (fun i _ => abortQueued_id i) fun i _ => abortQueued_active i
  | removeItem id =>
    cases hp
    refine hmono.filter _ fun i _ hi => .inr (.inr ?_)
    rw [show i.id = id by simpa using hi]
  | clearComplete =>
    cases hp
    refine hmono.filter _ fun i _ hi => .inl ?_
    rw [show i.status = .complete by simpa using hi]
    rfl
  | clearFinished =>
    cases hp
    exact hmono.filter _ fun i _ hi => .inl (not_active_of_terminal (by simpa using hi))
  | retryItem id =>
    cases hp
    show (q.applyRetryItem id).Valid adds _
    unfold Queue.applyRetryItem
    split
    · exact hmono
    · exact hmono.updateItem id retryFinished_id fun i _ _ => retryFinished_active i
  | tick snapshots now =>
    obtain ⟨⟨q'', starts⟩, ht, rfl⟩ := Option.map_eq_some_iff.mp hp
    exact hmono.tick ht

theorem run_valid {ops : List QueueOp} (h : q.Valid adds removed) (hr : q.run ops = some q')
    (hlt : adds + ops.countP QueueOp.isAdd < 2 ^ 64) :
    q'.Valid (adds + ops.countP QueueOp.isAdd)
      fun id => removed id ∨ QueueOp.removeItem id ∈ ops := by
  induction ops generalizing q adds removed with
  | nil =>
    cases hr
    exact h.mono fun _ hr => .inl hr
  | cons op ops ih =>
    obtain ⟨q₁, hp, hr⟩ := Option.bind_eq_some_iff.mp hr
    rw [List.countP_cons] at hlt ⊢
    have h₁ := perform_valid h hp fun ha => by rw [if_pos ha] at hlt; omega
    have h₂ := ih h₁ hr (by omega)
    rw [Nat.add_comm (List.countP _ ops), ← Nat.add_assoc]
    refine h₂.mono ?_
    rintro id ((hr | hr) | hr)
    · exact .inl hr
    · exact .inr (hr ▸ List.mem_cons_self)
    · exact .inr (List.mem_cons_of_mem _ hr)

theorem new_valid (workerCount : Nat) : (Queue.new workerCount).Valid 0 fun _ => False := by
  have hempty : ∀ id, some id ∉ (Queue.new workerCount).slots :=
    fun id hm => nomatch List.eq_of_mem_replicate hm
  have hnone : ∀ item, item ∉ (Queue.new workerCount).items := fun item => List.not_mem_nil
  refine ⟨⟨List.nodup_nil, fun id => ?_, fun item hi => absurd hi (hnone item)⟩, rfl,
    fun item hi => absurd hi (hnone item), fun id hm => absurd hm (hempty id)⟩
  exact Nat.le_trans (Nat.le_of_eq (List.count_eq_zero.mpr (hempty id))) (Nat.zero_le 1)

/-- After any run of calls and ticks with arbitrary worker snapshots: ids are distinct, each
active item is in exactly one slot and every other item in none, a slot holds an active item
or one that was removed, and a tick starts the earliest queued items on distinct free slots
until no slot is free or nothing is queued. -/
theorem slots_hold_active_items (workerCount : Nat) (ops : List QueueOp) (q : Queue)
    (hr : (Queue.new workerCount).run ops = some q) (hlt : ops.countP QueueOp.isAdd < 2 ^ 64) :
    (q.items.map TusQueueItem.id).Nodup ∧
    (∀ id, q.slots.count (some id) ≤ 1) ∧
    (∀ item ∈ q.items, q.slots.count (some item.id) = if item.status.isActive then 1 else 0) ∧
    (∀ id, some id ∈ q.slots →
      (∃ item ∈ q.items, item.id = id ∧ item.status.isActive = true) ∨
      (id ∉ q.items.map TusQueueItem.id ∧ id < ops.countP QueueOp.isAdd ∧
        QueueOp.removeItem id ∈ ops)) ∧
    ∀ snapshots now q' starts, q.reconcileTick snapshots now = some (q', starts) →
      Starts q snapshots now q' starts := by
  have h := run_valid (new_valid workerCount) hr (by rw [Nat.zero_add]; exact hlt)
  rw [Nat.zero_add] at h
  refine ⟨h.slotted.distinct, h.slotted.once, ?_, ?_, ?_⟩
  · intro item hi
    have hact := h.slotted.active item hi
    have honce := h.slotted.once item.id
    split
    · next ha =>
      have hpos := List.count_pos_iff.mpr (hact.mp ha)
      omega
    · next ha => exact List.count_eq_zero.mpr fun hm => ha (hact.mpr hm)
  · intro id hs
    obtain ⟨hlt, hin⟩ := h.slots id hs
    by_cases hm : id ∈ q.items.map TusQueueItem.id
    · obtain ⟨item, hi, rfl⟩ := List.mem_map.mp hm
      exact .inl ⟨item, hi, rfl, (h.slotted.active item hi).mpr hs⟩
    · refine .inr ⟨hm, hlt, ?_⟩
      rcases hin with ⟨item, hi, rfl⟩ | hrem
      · exact absurd (List.mem_map_of_mem hi) hm
      · exact hrem.resolve_left fun hf => hf
  · exact fun snapshots now q' starts ht => reconcileTick_starts h.slotted ht

/-- An item is removed while a worker has it: the slot keeps its id, and the next item goes to
the other one. -/
theorem slots_hold_removed_item :
    ∃ q, (Queue.new 2).run [.add ⟨"a", 1, 0⟩ ⟨none⟩, .tick [⟨.idle, 0, none, none, none⟩,
        ⟨.idle, 0, none, none, none⟩] 5, .removeItem 0, .add ⟨"b", 1, 0⟩ ⟨none⟩] = some q ∧
      q.slots = [some 0, none] ∧ q.items.map TusQueueItem.id = [1] ∧
      (∀ id, q.slots.count (some id) ≤ 1) := by
  refine ⟨_, rfl, rfl, rfl, ?_⟩
  exact (slots_hold_active_items 2 [.add ⟨"a", 1, 0⟩ ⟨none⟩, .tick [⟨.idle, 0, none, none, none⟩,
    ⟨.idle, 0, none, none, none⟩] 5, .removeItem 0, .add ⟨"b", 1, 0⟩ ⟨none⟩] _ rfl (by decide)).2.1

end Browser

end TusRs
