import TusRs.System.World

/-!
# Ownership of uploads and the guards of operations

A thread has an upload to itself while it holds the upload's lock or while it creates it.
`Guard` states, for each operation that changes a store, what a handler knows when it
performs it; `WellFormed` is what all of them preserve, and `Rely` what a thread may count
on while others run.

Results:

* `discipline_lawful`: guarded operations keep every record well formed and leave alone
  what other threads have to themselves.
-/

namespace TusRs

open Interaction

open Protocol

namespace System

/-- The size that storage reports, with a missing object as zero. -/
def sizeOfObject (o : Option Bytes) : Nat := (o.map List.length).getD 0

/-- Thread `t` has the upload to itself. -/
def Holds (w : World) (t : Nat) (id : String) : Prop :=
  w.locks id = some t ∨ w.hidden id = some t

/-- What never changes about a record. -/
inductive Fact where
  | isPartial
  | length (n : Nat)
  | expiresAt (e : Option Nat)

def Fact.holds : Fact → UploadState → Prop
  | .isPartial, state => state.isPartial = true
  | .length n, state => state.length = some n
  | .expiresAt e, state => state.expiresAt = e

/-- The upload is known to clients, and the fact holds of its record or it is gone. -/
structure Fixed (w : World) (id : String) (f : Fact) : Prop where
  issued : w.issued id
  visible : w.hidden id = none
  holds : ∀ state, w.states id = some state → f.holds state

/-- The length of a final upload is the sum of those of its parts. -/
def LengthPlanned (w : World) (state : UploadState) (ids : List String) : Prop :=
  ∀ l, state.length = some l →
    ∃ ns, List.Forall₂ (fun id n => Fixed w id (.length n)) ids ns ∧ l = satSum ns

/-- What the part list of a final upload says. -/
structure PartsPlanned (w : World) (state : UploadState) (ids : List String) : Prop where
  ids_eq : state.parts = some ids
  isPartial : ∀ id ∈ ids, Fixed w id .isPartial
  length : LengthPlanned w state ids

/-! ## Well-formed records -/

/-- What holds of every persisted record. The stored bytes of an upload that is not final lie
between its offset and its length. -/
structure Recorded (w : World) (id : String) (state : UploadState) : Prop where
  id_eq : state.id = id
  issued : w.issued id
  handle : ∃ h, state.handle = some h ∧ w.owner h.key = some id
  role : state.isPartial = true → state.isFinal = false
  within : state.isFinal = false → ∀ l, state.length = some l → state.offset ≤ l
  stored : state.isFinal = false → ∀ h o, state.handle = some h → w.objects h.key = some o →
    state.offset ≤ o.length ∧ ∀ l, state.length = some l → o.length ≤ l
  planned : state.isFinal = true → ∃ ids, PartsPlanned w state ids

structure WellFormed (w : World) : Prop where
  records : ∀ id state, w.states id = some state → Recorded w id state
  owned : ∀ k id, w.owner k = some id → w.issued id
  objects : ∀ k o, w.objects k = some o → (w.owner k).isSome = true ∧ o.length ≤ u64Max
  hidden : ∀ id t, w.hidden id = some t → w.issued id ∧ w.locks id = none
  clock : ∀ id, w.since id ≤ w.clock

/-- What never goes back. -/
structure Later (w w' : World) : Prop where
  clock : w.clock ≤ w'.clock
  issued : ∀ id, w.issued id → w'.issued id
  owner : ∀ k id, w.owner k = some id → w'.owner k = some id
  fixed : ∀ id f, Fixed w id f → Fixed w' id f

/-- What thread `t` relies on. -/
structure Rely (t : Nat) (w w' : World) : Prop where
  later : Later w w'
  locks : ∀ id, w.locks id = some t → w'.locks id = some t
  hidden : ∀ id, w.hidden id = some t → w'.hidden id = some t
  since : ∀ id, w.locks id = some t → w'.since id = w.since id
  states : ∀ id, Holds w t id → w'.states id = w.states id
  objects : ∀ id k, Holds w t id → w.owner k = some id → w'.objects k = w.objects k

theorem PartsPlanned.later {w w' : World} {state : UploadState} {ids : List String}
    (h : PartsPlanned w state ids) (hl : Later w w') : PartsPlanned w' state ids where
  ids_eq := h.ids_eq
  isPartial id hid := hl.fixed id .isPartial (h.isPartial id hid)
  length l hs := by
    obtain ⟨ns, hns, rfl⟩ := h.length l hs
    exact ⟨ns, hns.imp fun id n => hl.fixed id (.length n), rfl⟩

theorem Later.refl (w : World) : Later w w :=
  ⟨Nat.le_refl _, fun _ h => h, fun _ _ h => h, fun _ _ h => h⟩

theorem Later.trans {w₁ w₂ w₃ : World} (h : Later w₁ w₂) (h' : Later w₂ w₃) : Later w₁ w₃ where
  clock := Nat.le_trans h.clock h'.clock
  issued id hi := h'.issued id (h.issued id hi)
  owner k id ho := h'.owner k id (h.owner k id ho)
  fixed id f hk := h'.fixed id f (h.fixed id f hk)

theorem Rely.holds {t : Nat} {w w' : World} (h : Rely t w w') {id : String}
    (hh : Holds w t id) : Holds w' t id :=
  hh.imp (h.locks id) (h.hidden id)

theorem Rely.refl (t : Nat) (w : World) : Rely t w w :=
  ⟨Later.refl w, fun _ h => h, fun _ h => h, fun _ _ => rfl, fun _ _ => rfl, fun _ _ _ _ => rfl⟩

theorem Rely.trans {t : Nat} {w₁ w₂ w₃ : World} (h : Rely t w₁ w₂) (h' : Rely t w₂ w₃) :
    Rely t w₁ w₃ where
  later := h.later.trans h'.later
  locks id hl := h'.locks id (h.locks id hl)
  hidden id hl := h'.hidden id (h.hidden id hl)
  since id hl := (h'.since id (h.locks id hl)).trans (h.since id hl)
  states id hh := (h'.states id (h.holds hh)).trans (h.states id hh)
  objects id k hh ho := (h'.objects id k (h.holds hh) (h.later.owner k id ho)).trans
    (h.objects id k hh ho)

/-- Two threads never have one upload to themselves. -/
theorem holds_unique {w : World} (hw : WellFormed w) {t u : Nat} {id : String}
    (ht : Holds w t id) (hu : Holds w u id) : t = u := by
  rcases ht with ht | ht <;> rcases hu with hu | hu
  · exact Option.some.inj (ht.symm.trans hu)
  · rw [(hw.hidden id u hu).2] at ht
    cases ht
  · rw [(hw.hidden id t ht).2] at hu
    cases hu
  · exact Option.some.inj (ht.symm.trans hu)

/-! ## What a thread knows about an upload it has to itself -/

/-- The persisted record and the object of an upload that thread `t` has to itself. -/
structure Own (t : Nat) (id : String) (x : Option UploadState) (k : String) (o : Option Bytes)
    (w : World) : Prop where
  holds : Holds w t id
  state : w.states id = x
  owner : w.owner k = some id
  object : w.objects k = o

theorem Own.rely {t : Nat} {id k : String} {x : Option UploadState} {o : Option Bytes}
    {w w' : World} (h : Own t id x k o w) (hr : Rely t w w') : Own t id x k o w' where
  holds := hr.holds h.holds
  state := (hr.states id h.holds).trans h.state
  owner := hr.later.owner k id h.owner
  object := (hr.objects id k h.holds h.owner).trans h.object

/-- Thread `t` loaded the record of a part that had not expired, while `x` was the record of
the final upload. -/
def Loaded (t : Nat) (s : Snap (Host ObjectSig) World) (finalId : String)
    (x : Option UploadState) (id : String) (part : UploadState) : Prop :=
  ∃ e ∈ s.hist, e.tid = t ∧ e.op = .stateGet id ∧ e.before.states id = some part ∧
    e.before.states finalId = x ∧ part.expiresBefore e.before.clock = false

/-- What a loaded record of a part still says about it. -/
structure PartFacts (w : World) (id : String) (part : UploadState) : Prop where
  isPartial : Fixed w id .isPartial
  expiresAt : Fixed w id (.expiresAt part.expiresAt)
  length : ∀ n, part.length = some n → Fixed w id (.length n)

theorem PartFacts.later {w w' : World} {id : String} {part : UploadState}
    (h : PartFacts w id part) (hl : Later w w') : PartFacts w' id part where
  isPartial := hl.fixed id _ h.isPartial
  expiresAt := hl.fixed id _ h.expiresAt
  length n hn := hl.fixed id _ (h.length n hn)

/-- Thread `t` holds the locks of the parts, and these are their records. -/
def PartsLocked (t : Nat) (w : World) (ids : List String) (parts : List UploadState) : Prop :=
  List.Forall₂ (fun id part => w.locks id = some t ∧ w.states id = some part) ids parts

/-- The upload is being created, or was found active by the thread that holds its lock. -/
def Live (t : Nat) (w : World) (id : String) (state : UploadState) : Prop :=
  w.hidden id = some t ∨
    w.locks id = some t ∧ ∃ n, w.since id ≤ n ∧ state.expiresBefore n = false

/-! ## Guards -/

/-- Where the bytes of an append come from. -/
inductive Origin (requests : Nat → Option Request) (t : Nat) (id : String) (offset : Nat)
    (data : ChunkStream) : Prop
  | patch {headers : Headers} {body : RequestBody} :
      requests t = some (.patch headers id body) → headers.uploadOffset = some offset →
      (∀ bytes, data.collect = some bytes → bytes = body.content) →
      Origin requests t id offset data
  | creation {headers : Headers} {body : RequestBody} :
      requests t = some (.post headers body) → offset = 0 →
      (∀ bytes, data.collect = some bytes → bytes = body.content) →
      Origin requests t id offset data

/-- The guard of an append: at the end of the stored bytes, within length and `max_size`. -/
structure AppendGuard (config : Config) (requests : Nat → Option Request) (t : Nat)
    (h : StorageHandle) (offset : Nat) (data : ChunkStream) (id : String) (old : UploadState)
    (o : Option Bytes) (w : World) : Prop where
  own : Own t id (some old) h.key o w
  handle : ∃ h', old.handle = some h' ∧ h'.key = h.key
  live : Live t w id old
  regular : old.isFinal = false
  offset_old : old.offset = offset
  offset_eq : offset = sizeOfObject o
  origin : Origin requests t id offset data
  fits : ∀ bytes, data.collect = some bytes → offset + bytes.length ≤ u64Max →
    (∀ m, config.maxSize = some m → offset + bytes.length ≤ m) ∧
    ∀ l, old.length = some l → offset + bytes.length ≤ l

/-- A record of an upload that is not final counts the stored bytes. -/
structure Recounts (config : Config) (old state : UploadState) (o : Option Bytes) : Prop where
  offset : state.offset = sizeOfObject o
  within : ∀ l, state.length = some l → state.offset ≤ l
  bounded : ∀ l, state.length = some l →
    old.length = some l ∨ ∀ m, config.maxSize = some m → l ≤ m

/-- A record of a final upload that follows a summary of its parts, loaded while `x` was its
record. When they are all complete the thread holds their locks, and the object is their
concatenation or has their total size already. -/
structure Planned (t : Nat) (s : Snap (Host ObjectSig) World) (x : Option UploadState)
    (state : UploadState) (o : Option Bytes) (ids : List String) (parts : List UploadState) :
    Prop where
  planned : PartsPlanned s.world state ids
  loaded : List.Forall₂ (Loaded t s state.id x) ids parts
  facts : List.Forall₂ (PartFacts s.world) ids parts
  sound : ∀ p ∈ parts, p.isPartial = true ∧ ∀ l, p.length = some l → p.offset ≤ l
  length : state.length = (statusOf parts).totalLength
  offset : state.offset = (statusOf parts).expectedOffset
  ready : (statusOf parts).readyToMaterialize = true → PartsLocked t s.world ids parts ∧
    (o = some (parts.map s.world.content).flatten ∨
      (statusOf parts).totalLength = some (sizeOfObject o))

/-- The object had not the recorded length before the parts were joined, if they were. -/
def Unmaterialised (w : World) (old : UploadState) (o : Option Bytes)
    (parts : List UploadState) : Prop :=
  (statusOf parts).readyToMaterialize = true ∧ o = some (parts.map w.content).flatten ∨
    ∀ l, old.length = some l → sizeOfObject o ≠ l

/-- A record of a final upload whose object has the recorded length. -/
structure Recovers (old state : UploadState) (o : Option Bytes) : Prop where
  state_eq : state = old.setOffset (sizeOfObject o)
  length : old.length = some (sizeOfObject o)

/-- An expiration no later than that of any of the parts. -/
def Capped (state : UploadState) (parts : List UploadState) : Prop :=
  ∀ p ∈ parts, ∀ e, p.expiresAt = some e → ∃ e', state.expiresAt = some e' ∧ e' ≤ e

/-- The guard of the first record of an upload. -/
structure CreateGuard (config : Config) (t : Nat) (state : UploadState) (h : StorageHandle)
    (o : Option Bytes) (s : Snap (Host ObjectSig) World) : Prop where
  handle : state.handle = some h
  own : Own t state.id none h.key o s.world
  hidden : s.world.hidden state.id = some t
  role : state.isPartial = true → state.isFinal = false
  bounded : ∀ l m, state.length = some l → config.maxSize = some m → l ≤ m
  regular : state.isFinal = false → state.offset = 0 ∧ o = some []
  final : state.isFinal = true → ∃ ids parts, Planned t s none state o ids parts ∧
    (state.isComplete = false → Capped state parts)

/-- The guard of an update of the record `old`. -/
structure UpdateGuard (config : Config) (t : Nat) (state : UploadState) (h : StorageHandle)
    (old : UploadState) (o : Option Bytes) (s : Snap (Host ObjectSig) World) : Prop where
  handle : state.handle = some h
  handle_old : ∃ h', old.handle = some h' ∧ h'.key = h.key
  own : Own t state.id (some old) h.key o s.world
  isPartial : state.isPartial = old.isPartial
  isFinal : state.isFinal = old.isFinal
  parts : state.parts = old.parts
  createdAt : state.createdAt = old.createdAt
  expiresAt : state.expiresAt = old.expiresAt
  length : ∀ l, old.length = some l → state.length = some l
  live : Live t s.world state.id old ∨
    old.isPartial = false ∧ old.length = some (sizeOfObject o)
  regular : state.isFinal = false → Recounts config old state o
  final : state.isFinal = true → Recovers old state o ∨ ∃ ids parts,
    Planned t s (some old) state o ids parts ∧ Unmaterialised s.world old o parts

/-- The guard of a concatenation: the parts are locked and complete, and the record of the
target, if there is one, is final and does not describe the object yet. -/
structure ConcatGuard (t : Nat) (target : StorageHandle) (sources : List StorageHandle)
    (id : String) (x : Option UploadState) (o : Option Bytes) (ids : List String)
    (parts : List UploadState) (w : World) : Prop where
  own : Own t id x target.key o w
  locked : PartsLocked t w ids parts
  sound : ∀ p ∈ parts, p.isPartial = true
  ready : (statusOf parts).readyToMaterialize = true
  sources_eq : List.Forall₂ (fun (p : UploadState) h => p.handle = some h) parts sources
  record : ∀ old, x = some old → old.isFinal = true ∧ old.parts = some ids ∧ Live t w id old ∧
    ∀ l, old.length = some l → sizeOfObject o ≠ l

/-- A reclamation has found, under the lock, that the upload is past its expiration and that
its bytes are not complete content. -/
structure Reclaims (t : Nat) (s : Snap (Host ObjectSig) World) (id : String)
    (state : UploadState) (o : Option Bytes) : Prop where
  lock : s.world.locks id = some t
  expired : ∃ e ∈ s.hist, e.tid = t ∧ e.op = .now ∧ e.before.locks id = some t ∧
    e.before.states id = some state ∧ state.expiresBefore e.before.clock = true
  unfinished : state.isPartial = false → ∀ l, state.length = some l → sizeOfObject o ≠ l

/-- The guard of the removal of an object. -/
structure DeleteGuard (requests : Nat → Option Request) (t : Nat) (h : StorageHandle)
    (id : String) (x : Option UploadState) (o : Option Bytes)
    (s : Snap (Host ObjectSig) World) : Prop where
  own : Own t id x h.key o s.world
  request : (∀ before, requests t ≠ some (.reclaim before)) →
    ∀ state, x = some state → Live t s.world id state
  reclaim : ∀ before, requests t = some (.reclaim before) → ∃ state, x = some state ∧
    state.handle = some h ∧ Reclaims t s id state o

/-- The guard of the removal of a record: a reclamation has removed the object before. -/
structure StateDeleteGuard (requests : Nat → Option Request) (t : Nat) (id : String)
    (s : Snap (Host ObjectSig) World) : Prop where
  holds : Holds s.world t id
  request : (∀ before, requests t ≠ some (.reclaim before)) →
    ∀ state, s.world.states id = some state → Live t s.world id state
  reclaim : ∀ before, requests t = some (.reclaim before) → ∃ state h,
    s.world.locks id = some t ∧ s.world.states id = some state ∧ state.handle = some h ∧
    s.world.objects h.key = none ∧ ∃ e ∈ s.hist, e.tid = t ∧ e.op = .storage (.delete h) ∧
      e.before.locks id = some t ∧ e.before.states id = some state

/-- What a handler knows when thread `t` performs an operation. -/
def Guard (config : Config) (requests : Nat → Option Request) (t : Nat) :
    (o : HostOp ObjectSig) → Snap (Host ObjectSig) World → Prop
  | .stateSet state .createNew, s => ∃ h o, CreateGuard config t state h o s
  | .stateSet state .update, s => ∃ h old o, UpdateGuard config t state h old o s
  | .stateDelete id, s => StateDeleteGuard requests t id s
  | .unlock id, s => s.world.locks id = some t
  | .respond id, s => s.world.hidden id = some t
  | .storage (.create id), s => s.world.hidden id = some t
  | .storage (.append h offset data _), s => ∃ id old o,
      AppendGuard config requests t h offset data id old o s.world
  | .storage (.concat target sources), s => ∃ id x o ids parts,
      ConcatGuard t target sources id x o ids parts s.world
  | .storage (.delete h), s => ∃ id x o, DeleteGuard requests t h id x o s
  | _, _ => True

/-! ## Guarded operations keep to the discipline -/

section Frame

variable {w w' : World} {t u : Nat} {id : String}

/-- A record stays well formed when the bytes of its upload stay or go. -/
theorem Recorded.mono {state : UploadState} (h : Recorded w id state) (hl : Later w w')
    (ho : ∀ k o, w.owner k = some id → w'.objects k = some o → w.objects k = some o) :
    Recorded w' id state where
  id_eq := h.id_eq
  issued := hl.issued id h.issued
  handle := by
    obtain ⟨hd, hh, hk⟩ := h.handle
    exact ⟨hd, hh, hl.owner _ _ hk⟩
  role := h.role
  within := h.within
  stored hf hd o hh hobj := by
    obtain ⟨hd', hh', hk⟩ := h.handle
    rw [hh] at hh'
    cases hh'
    exact h.stored hf hd o hh (ho _ _ hk hobj)
  planned hf := by
    obtain ⟨ids, hplan⟩ := h.planned hf
    exact ⟨ids, hplan.later hl⟩

/-- Only the record and the objects of `id` differ. -/
structure Within (id : String) (w w' : World) : Prop where
  later : Later w w'
  locks : w'.locks = w.locks
  hidden : w'.hidden = w.hidden
  since : w'.since = w.since
  states : ∀ id', id' ≠ id → w'.states id' = w.states id'
  objects : ∀ k id', w.owner k = some id' → id' ≠ id → w'.objects k = w.objects k

/-- What a thread does to an upload it has to itself the others may rely on. -/
theorem Within.rely (h : Within id w w') (hw : WellFormed w) (ht : Holds w t id) (hu : u ≠ t) :
    Rely u w w' where
  later := h.later
  locks id' hl := by rw [h.locks]; exact hl
  hidden id' hl := by rw [h.hidden]; exact hl
  since id' _ := by rw [h.since]
  states id' hh := h.states id' fun he => hu (holds_unique hw (he ▸ hh) ht)
  objects id' k hh ho := h.objects k id' ho fun he => hu (holds_unique hw (he ▸ hh) ht)

/-- Neither records nor objects, nor what `u` has to itself, are touched. -/
theorem rely_of_eq (hl : Later w w') (hs : w'.states = w.states)
    (ho : ∀ k id, w.owner k = some id → w'.objects k = w.objects k)
    (hlocks : ∀ id, w.locks id = some u → w'.locks id = some u ∧ w'.since id = w.since id)
    (hhidden : ∀ id, w.hidden id = some u → w'.hidden id = some u) : Rely u w w' where
  later := hl
  locks id h := (hlocks id h).1
  hidden := hhidden
  since id h := (hlocks id h).2
  states _ _ := by rw [hs]
  objects id k _ hk := ho k id hk

theorem later_setState {state : UploadState} (h : ∀ f, Fixed w state.id f → f.holds state) :
    Later w (w.setState state) := by
  refine ⟨Nat.le_refl _, fun _ h => h, fun _ _ h => h, ?_⟩
  intro p f hp
  refine ⟨hp.issued, hp.visible, ?_⟩
  intro st hst
  by_cases hpe : p = state.id
  · subst hpe
    rw [World.setState_states, Function.update_self] at hst
    cases hst
    exact h f hp
  · rw [World.setState_states, Function.update_of_ne hpe] at hst
    exact hp.holds st hst

theorem Within.setState {state : UploadState} (h : Later w (w.setState state)) :
    Within state.id w (w.setState state) where
  later := h
  locks := rfl
  hidden := rfl
  since := rfl
  states _ hne := Function.update_of_ne hne _ _
  objects _ _ _ _ := rfl

theorem Within.dropState : Within id w (w.dropState id) where
  later := by
    refine ⟨Nat.le_refl _, fun _ h => h, fun _ _ h => h, ?_⟩
    intro p f hp
    refine ⟨hp.issued, hp.visible, ?_⟩
    intro st hst
    by_cases hpe : p = id
    · rw [hpe, World.dropState_states, Function.update_self] at hst
      cases hst
    · rw [World.dropState_states, Function.update_of_ne hpe] at hst
      exact hp.holds st hst
  locks := rfl
  hidden := rfl
  since := rfl
  states _ hne := Function.update_of_ne hne _ _
  objects _ _ _ _ := rfl

theorem Within.objects_update {k : String} {o : Option Bytes} (hk : w.owner k = some id) :
    Within id w { w with objects := Function.update w.objects k o } where
  later := ⟨Nat.le_refl _, fun _ h => h, fun _ _ h => h, fun _ _ h => ⟨h.issued, h.visible, h.holds⟩⟩
  locks := rfl
  hidden := rfl
  since := rfl
  states _ _ := rfl
  objects k' id' hk' hne := by
    refine Function.update_of_ne ?_ _ _
    rintro rfl
    exact hne (Option.some.inj (hk'.symm.trans hk))

theorem WellFormed.setState {state : UploadState} (hw : WellFormed w)
    (hl : Later w (w.setState state)) (hr : Recorded w state.id state) :
    WellFormed (w.setState state) where
  records id st hst := by
    by_cases hid : id = state.id
    · subst hid
      rw [World.setState_states, Function.update_self] at hst
      cases hst
      exact hr.mono hl fun _ _ _ h => h
    · rw [World.setState_states, Function.update_of_ne hid] at hst
      exact (hw.records id st hst).mono hl fun _ _ _ h => h
  owned := hw.owned
  objects := hw.objects
  hidden := hw.hidden
  clock := hw.clock

theorem WellFormed.dropState (hw : WellFormed w) : WellFormed (w.dropState id) where
  records id' st hst := by
    by_cases hid : id' = id
    · rw [hid, World.dropState_states, Function.update_self] at hst
      cases hst
    · rw [World.dropState_states, Function.update_of_ne hid] at hst
      exact (hw.records id' st hst).mono Within.dropState.later fun _ _ _ h => h
  owned := hw.owned
  objects := hw.objects
  hidden := hw.hidden
  clock := hw.clock

/-- The object at `k` changes to one its record allows. -/
theorem WellFormed.put {k : String} {bytes : Bytes} (hw : WellFormed w)
    (hk : w.owner k = some id) (hfit : bytes.length ≤ u64Max)
    (hr : ∀ state, w.states id = some state → state.isFinal = false →
      state.offset ≤ bytes.length ∧ ∀ l, state.length = some l → bytes.length ≤ l) :
    WellFormed (w.put k bytes) where
  records id' st hst := by
    have hrec := hw.records id' st hst
    have hlater : Later w (w.put k bytes) := (Within.objects_update hk).later
    refine ⟨hrec.id_eq, hrec.issued, hrec.handle, hrec.role, hrec.within, ?_,
      ?_⟩
    · intro hf h o hh ho
      by_cases hkey : h.key = k
      · obtain ⟨h', hh', hown⟩ := hrec.handle
        rw [hh] at hh'
        cases hh'
        rw [hkey, hk] at hown
        cases hown
        rw [World.put_objects, hkey, Function.update_self] at ho
        cases ho
        exact hr st hst hf
      · rw [World.put_objects, Function.update_of_ne hkey] at ho
        exact hrec.stored hf h o hh ho
    · intro hf
      obtain ⟨ids, hplan⟩ := hrec.planned hf
      exact ⟨ids, hplan.later hlater⟩
  owned := hw.owned
  objects k' o ho := by
    by_cases hkey : k' = k
    · subst hkey
      rw [World.put_objects, Function.update_self] at ho
      cases ho
      exact ⟨by rw [World.put, hk]; rfl, hfit⟩
    · rw [World.put_objects, Function.update_of_ne hkey] at ho
      exact hw.objects k' o ho
  hidden := hw.hidden
  clock := hw.clock

theorem WellFormed.erase {k : String} (hw : WellFormed w) (hk : w.owner k = some id) :
    WellFormed (w.erase k) where
  records id' st hst := by
    refine (hw.records id' st hst).mono (Within.objects_update hk).later ?_
    intro k' o _ ho
    by_cases hkey : k' = k
    · rw [hkey, World.erase_objects, Function.update_self] at ho
      cases ho
    · rw [World.erase_objects, Function.update_of_ne hkey] at ho
      exact ho
  owned := hw.owned
  objects k' o ho := by
    by_cases hkey : k' = k
    · rw [hkey, World.erase_objects, Function.update_self] at ho
      cases ho
    · rw [World.erase_objects, Function.update_of_ne hkey] at ho
      exact hw.objects k' o ho
  hidden := hw.hidden
  clock := hw.clock

theorem later_createObject {k : String} (hk : w.owner k = none) :
    Later w (w.createObject id k) where
  clock := Nat.le_refl _
  issued _ h := h
  owner k' id' h := by
    rw [World.createObject_owner, Function.update_of_ne]
    · exact h
    · rintro rfl
      rw [hk] at h
      cases h
  fixed _ _ h := ⟨h.issued, h.visible, h.holds⟩

theorem WellFormed.createObject {k : String} (hw : WellFormed w) (hk : w.owner k = none)
    (hid : w.issued id) : WellFormed (w.createObject id k) where
  records id' st hst := by
    refine (hw.records id' st hst).mono (later_createObject hk) ?_
    intro k' o hown ho
    rw [World.createObject_objects, Function.update_of_ne] at ho
    · exact ho
    · rintro rfl
      rw [hk] at hown
      cases hown
  owned k' id' h := by
    by_cases hkey : k' = k
    · rw [hkey, World.createObject_owner, Function.update_self] at h
      cases h
      exact hid
    · rw [World.createObject_owner, Function.update_of_ne hkey] at h
      exact hw.owned k' id' h
  objects k' o ho := by
    by_cases hkey : k' = k
    · rw [hkey] at ho ⊢
      rw [World.createObject_objects, Function.update_self] at ho
      cases ho
      exact ⟨by simp, Nat.zero_le _⟩
    · rw [World.createObject_objects, Function.update_of_ne hkey] at ho
      rw [World.createObject_owner, Function.update_of_ne hkey]
      exact hw.objects k' o ho
  hidden := hw.hidden
  clock := hw.clock

/-- The stores, the owners and the new ids are as before. -/
theorem WellFormed.locks_update {locks : String → Option Nat} {since : String → Nat}
    (hw : WellFormed w) (hl : ∀ id t, w.hidden id = some t → locks id = none)
    (hs : ∀ id, since id ≤ w.clock) :
    WellFormed { w with locks := locks, since := since } where
  records id' st hst := (hw.records id' st hst).mono
    ⟨Nat.le_refl _, fun _ h => h, fun _ _ h => h, fun _ _ h => ⟨h.issued, h.visible, h.holds⟩⟩ fun _ _ _ h => h
  owned := hw.owned
  objects := hw.objects
  hidden id' t' h := ⟨(hw.hidden id' t' h).1, hl id' t' h⟩
  clock := hs

theorem later_setClock {n : Nat} (hn : w.clock ≤ n) : Later w (w.setClock n) :=
  ⟨hn, fun _ h => h, fun _ _ h => h, fun _ _ h => ⟨h.issued, h.visible, h.holds⟩⟩

theorem WellFormed.setClock (hw : WellFormed w) {n : Nat} (hn : w.clock ≤ n) :
    WellFormed (w.setClock n) where
  records id' st hst := (hw.records id' st hst).mono (later_setClock hn) fun _ _ _ h => h
  owned := hw.owned
  objects := hw.objects
  hidden := hw.hidden
  clock id := Nat.le_trans (hw.clock id) hn

theorem later_issue (hid : ¬w.issued id) : Later w (w.issue id t) where
  clock := Nat.le_refl _
  issued _ h := .inr h
  owner _ _ h := h
  fixed p _ h := by
    refine ⟨.inr h.issued, ?_, h.holds⟩
    have hne : p ≠ id := by
      rintro rfl
      exact hid h.issued
    exact (Function.update_of_ne hne _ _).trans h.visible

theorem WellFormed.issue (hw : WellFormed w) (hid : ¬w.issued id) (hl : w.locks id = none) :
    WellFormed (w.issue id t) where
  records id' st hst := (hw.records id' st hst).mono (later_issue hid) fun _ _ _ h => h
  owned k id' h := .inr (hw.owned k id' h)
  objects := hw.objects
  hidden id' t' h := by
    by_cases hne : id' = id
    · exact ⟨.inl hne, hne ▸ hl⟩
    · have h' : w.hidden id' = some t' := (Function.update_of_ne hne _ _).symm.trans h
      exact ⟨.inr (hw.hidden id' t' h').1, (hw.hidden id' t' h').2⟩
  clock := hw.clock

theorem reveal_hidden {id' : String} (h : w.hidden id' = none) :
    (w.reveal id).hidden id' = none := by
  by_cases hne : id' = id
  · rw [hne]
    exact Function.update_self _ _ _
  · exact (Function.update_of_ne hne _ _).trans h

theorem later_reveal : Later w (w.reveal id) where
  clock := Nat.le_refl _
  issued _ h := h
  owner _ _ h := h
  fixed _ _ h := ⟨h.issued, reveal_hidden h.visible, h.holds⟩

theorem WellFormed.reveal (hw : WellFormed w) : WellFormed (w.reveal id) where
  records id' st hst := (hw.records id' st hst).mono later_reveal fun _ _ _ h => h
  owned := hw.owned
  objects := hw.objects
  hidden id' t' h := by
    by_cases hne : id' = id
    · rw [hne] at h
      cases (Function.update_self _ _ _).symm.trans h
    · exact hw.hidden id' t' ((Function.update_of_ne hne _ _).symm.trans h)
  clock := hw.clock

end Frame

section Guards

variable {config : Config} {requests : Nat → Option Request} {t u : Nat}
  {hooks : HookEvent → UploadState → Except Error PreHookResult → Prop}

theorem CreateGuard.recorded {state : UploadState} {h : StorageHandle} {o : Option Bytes}
    {s : Snap (Host ObjectSig) World} (g : CreateGuard config t state h o s)
    (hw : WellFormed s.world) : Recorded s.world state.id state where
  id_eq := rfl
  issued := (hw.hidden _ _ g.hidden).1
  handle := ⟨h, g.handle, g.own.owner⟩
  role := g.role
  within hf l _ := by
    rw [(g.regular hf).1]
    exact Nat.zero_le l
  stored hf h' o' hh hobj := by
    rw [g.handle] at hh
    cases hh
    rw [g.own.object, (g.regular hf).2] at hobj
    cases hobj
    exact ⟨by rw [(g.regular hf).1]; exact Nat.zero_le _, fun l _ => Nat.zero_le l⟩
  planned hf := by
    obtain ⟨ids, parts, hplan, _⟩ := g.final hf
    exact ⟨ids, hplan.planned⟩

theorem UpdateGuard.recorded {state old : UploadState} {h : StorageHandle} {o : Option Bytes}
    {s : Snap (Host ObjectSig) World} (g : UpdateGuard config t state h old o s)
    (hw : WellFormed s.world) : Recorded s.world state.id state := by
  have hold := hw.records state.id old g.own.state
  refine ⟨rfl, hold.issued, ⟨h, g.handle, g.own.owner⟩, ?_, ?_, ?_, ?_⟩
  · rw [g.isPartial, g.isFinal]
    exact hold.role
  · exact fun hf => (g.regular hf).within
  · intro hf h' o' hh hobj
    rw [g.handle] at hh
    cases hh
    rw [g.own.object] at hobj
    have hsize : state.offset = o'.length := by
      rw [(g.regular hf).offset, hobj]
      rfl
    refine ⟨Nat.le_of_eq hsize, ?_⟩
    intro l hl
    rw [← hsize]
    exact (g.regular hf).within l hl
  · intro hf
    rcases g.final hf with hrec | ⟨ids, parts, hplan, _⟩
    · rw [g.isFinal] at hf
      obtain ⟨ids, hplan⟩ := hold.planned hf
      rw [hrec.state_eq]
      exact ⟨ids, hplan.ids_eq, hplan.isPartial, hplan.length⟩
    · exact ⟨ids, hplan.planned⟩

/-- An update keeps what never changes. -/
theorem UpdateGuard.fact {state old : UploadState} {h : StorageHandle} {o : Option Bytes}
    {s : Snap (Host ObjectSig) World} (g : UpdateGuard config t state h old o s) {f : Fact}
    (hf : f.holds old) : f.holds state := by
  cases f with
  | isPartial => exact g.isPartial.trans hf
  | length n => exact g.length n hf
  | expiresAt e => exact g.expiresAt.trans hf

/-- A thread that hides an id owns it. -/
theorem createObject_within {w : World} {id k : String} (hk : w.owner k = none) :
    Within id w (w.createObject id k) where
  later := later_createObject hk
  locks := rfl
  hidden := rfl
  since := rfl
  states _ _ := rfl
  objects k' id' hk' _ := by
    rw [World.createObject_objects, Function.update_of_ne]
    rintro rfl
    rw [hk] at hk'
    cases hk'

theorem rely_lockBy {w : World} {id : String} (hl : w.locks id = none) :
    Rely u w (w.lockBy id t) := by
  refine rely_of_eq ⟨Nat.le_refl _, fun _ h => h, fun _ _ h => h, fun _ _ h => ⟨h.issued, h.visible, h.holds⟩⟩
    rfl (fun _ _ _ => rfl) ?_ fun _ h => h
  intro id' h
  have hne : id' ≠ id := by
    rintro rfl
    rw [hl] at h
    cases h
  exact ⟨(Function.update_of_ne hne _ _).trans h, Function.update_of_ne hne _ _⟩

theorem WellFormed.lockBy {w : World} {id : String} (hw : WellFormed w)
    (hh : w.hidden id = none) : WellFormed (w.lockBy id t) := by
  refine hw.locks_update ?_ ?_
  · intro id' t' h
    refine (Function.update_of_ne ?_ _ _).trans (hw.hidden id' t' h).2
    rintro rfl
    rw [hh] at h
    cases h
  · intro id'
    by_cases hne : id' = id
    · rw [hne, Function.update_self]
    · rw [Function.update_of_ne hne]
      exact hw.clock id'

theorem later_unlock {w : World} {id : String} : Later w (w.unlock id) :=
  ⟨Nat.le_refl _, fun _ h => h, fun _ _ h => h, fun _ _ h => ⟨h.issued, h.visible, h.holds⟩⟩

theorem rely_unlock {w : World} {id : String} (hl : w.locks id = some t) (hu : u ≠ t) :
    Rely u w (w.unlock id) := by
  refine rely_of_eq ⟨Nat.le_refl _, fun _ h => h, fun _ _ h => h, fun _ _ h => ⟨h.issued, h.visible, h.holds⟩⟩
    rfl (fun _ _ _ => rfl) ?_ fun _ h => h
  intro id' h
  refine ⟨(Function.update_of_ne ?_ _ _).trans h, rfl⟩
  rintro rfl
  exact hu (Option.some.inj (h.symm.trans hl))

theorem WellFormed.unlock {w : World} {id : String} (hw : WellFormed w) :
    WellFormed (w.unlock id) := by
  refine hw.locks_update ?_ hw.clock
  intro id' t' h
  by_cases hne : id' = id
  · rw [hne]
    exact Function.update_self _ _ _
  · exact (Function.update_of_ne hne _ _).trans (hw.hidden id' t' h).2

theorem rely_issue {w : World} {id : String} (hw : WellFormed w) (hid : ¬w.issued id) :
    Rely u w (w.issue id t) := by
  refine rely_of_eq (later_issue hid) rfl (fun _ _ _ => rfl) (fun _ h => ⟨h, rfl⟩) ?_
  intro id' h
  refine (Function.update_of_ne ?_ _ _).trans h
  rintro rfl
  exact hid (hw.hidden _ _ h).1

theorem rely_reveal {w : World} {id : String} (hid : w.hidden id = some t) (hu : u ≠ t) :
    Rely u w (w.reveal id) := by
  refine rely_of_eq later_reveal rfl (fun _ _ _ => rfl) (fun _ h => ⟨h, rfl⟩) ?_
  intro id' h
  refine (Function.update_of_ne ?_ _ _).trans h
  rintro rfl
  exact hu (Option.some.inj (h.symm.trans hid))

/-- One guarded operation keeps the records well formed and does to other threads only what
they rely on. -/
theorem exec_sound {o : HostOp ObjectSig} {s : Snap (Host ObjectSig) World}
    {a : (Host ObjectSig).Ans o} {w' : World} (hw : WellFormed s.world)
    (he : HostExec hooks t o s.world a w') (hg : Guard config requests t o s) :
    WellFormed w' ∧ Later s.world w' ∧ ∀ u, u ≠ t → Rely u s.world w' := by
  cases he with
  | @stateCreate _ state hnone =>
    obtain ⟨h, ob, g⟩ := hg
    -- nobody else has seen the id, so no length of it is known
    have hin : Within state.id s.world (s.world.setState state) := by
      refine .setState (later_setState ?_)
      intro f hk
      cases g.hidden.symm.trans hk.visible
    exact ⟨hw.setState hin.later (g.recorded hw), hin.later, fun u hu =>
      hin.rely hw g.own.holds hu⟩
  | @stateUpdate _ state =>
    obtain ⟨h, old, ob, g⟩ := hg
    have hin : Within state.id s.world (s.world.setState state) :=
      .setState (later_setState fun f hk => g.fact (hk.holds old g.own.state))
    exact ⟨hw.setState hin.later (g.recorded hw), hin.later, fun u hu =>
      hin.rely hw g.own.holds hu⟩
  | stateDelete => exact ⟨hw.dropState, Within.dropState.later, fun u hu =>
      Within.dropState.rely hw hg.holds hu⟩
  | lock hh hl => exact ⟨hw.lockBy hh, (rely_lockBy (u := t) hl).later, fun u _ => rely_lockBy hl⟩
  | tryLock hh hl => exact ⟨hw.lockBy hh, (rely_lockBy (u := t) hl).later, fun u _ => rely_lockBy hl⟩
  | unlock => exact ⟨hw.unlock, later_unlock, fun u hu => rely_unlock hg hu⟩
  | newId hid hl => exact ⟨hw.issue hid hl, later_issue hid, fun u _ => rely_issue hw hid⟩
  | respond => exact ⟨hw.reveal, later_reveal, fun u hu => rely_reveal hg hu⟩
  | create hk =>
    exact ⟨hw.createObject hk (hw.hidden _ _ hg).1, later_createObject hk, fun u hu =>
      (createObject_within hk).rely hw (.inr hg) hu⟩
  | @append _ h data _ old bytes _ hobj hc hfit =>
    obtain ⟨id, record, ob, g⟩ := hg
    have hlen : old.length + bytes.length = (old ++ bytes).length := (List.length_append).symm
    refine ⟨hw.put g.own.owner (hlen ▸ hfit) ?_, (Within.objects_update g.own.owner).later, fun u hu =>
      (Within.objects_update g.own.owner).rely hw g.own.holds hu⟩
    intro state hst hf
    cases g.own.state.symm.trans hst
    -- the record counts what is stored, and the guard allows what is added
    rw [← hlen]
    exact ⟨Nat.le_trans (Nat.le_of_eq g.offset_old) (Nat.le_add_right _ _),
      (g.fits bytes hc hfit).2⟩
  | @concat _ target _ contents _ hsrc hfit =>
    obtain ⟨id, x, ob, ids, parts, g⟩ := hg
    refine ⟨hw.put g.own.owner hfit ?_, (Within.objects_update g.own.owner).later, fun u hu =>
      (Within.objects_update g.own.owner).rely hw g.own.holds hu⟩
    intro state hst hf
    have hfinal := (g.record state (g.own.state.symm.trans hst)).1
    rw [hf] at hfinal
    cases hfinal
  | delete =>
    obtain ⟨id, x, ob, g⟩ := hg
    exact ⟨hw.erase g.own.owner, (Within.objects_update g.own.owner).later, fun u hu =>
      (Within.objects_update g.own.owner).rely hw g.own.holds hu⟩
  | _ => exact ⟨hw, Later.refl _, fun u _ => Rely.refl u _⟩

/-- What the handlers of a server keep to. -/
def discipline (hooks : HookEvent → UploadState → Except Error PreHookResult → Prop)
    (config : Config) (requests : Nat → Option Request) : Discipline (Host ObjectSig) World :=
  .guarded (host hooks) (fun s => WellFormed s.world) Rely (Guard config requests)

theorem discipline_lawful : (discipline hooks config requests).Lawful (host hooks) := by
  refine Discipline.guarded_lawful Rely.refl (fun _ _ _ _ => Rely.trans) ?_ ?_ ?_
  · intro t o s a w' hw he hg
    obtain ⟨hw', _, hrely⟩ := exec_sound hw he hg
    exact ⟨hw', hrely⟩
  · rintro s w' hw ⟨n, hn, rfl⟩
    exact ⟨hw.setClock hn, fun u => rely_of_eq (later_setClock hn) rfl (fun _ _ _ => rfl)
      (fun _ h => ⟨h, rfl⟩) fun _ h => h⟩
  · intro t s w' _ hf
    exact hf.elim

end Guards

end System

end TusRs
