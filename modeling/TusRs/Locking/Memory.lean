import Mathlib.Data.List.Count
import Mathlib.Data.List.Perm.Subperm
import TusRs.Error
import TusRs.Interaction.Discipline

/-!
# The memory locker

`locking/memory.rs`: every upload id with a holder or a waiter maps to a semaphore of one
permit. Tasks reach the semaphore through `Arc` clones that they take under the map's mutex,
and an entry is removed when the map holds the last reference.

A semaphore hands a returned permit to the first waiter, or makes it available. A waiter is
given its permit before it is polled, so a timeout or a cancellation may find that it has one.

Results:

* `lock_spec`, `tryLock_spec`, `dropGuard_spec`: what a call does to the references and
  permits of its task.
* `one_holder_per_id`: at every moment of every run an upload id has at most one live guard
  and at most one permit, and every task that waits does so on the entry in the map.
-/

namespace TusRs

open Interaction

namespace MemoryLocker

/-! ## The operations -/

/-- A `LockGuard` of this locker: what its release closure captured. -/
structure Guard where
  uploadId : String
  semaphore : Nat
deriving DecidableEq

/-- How the wait for a permit ends. -/
inductive Wake where
  | permit
  | closed
  | elapsed
  | cancelled

/-- The atomic steps of the locker. `entry` and `removeIfIdle` run under the map's mutex.
`poll` is the first poll of `acquire_owned`, `wake` the end of the wait and `abandon` the
drop of its future. `issue` and `retire` mark where a `LockGuard` is built and where its drop
begins. -/
inductive LockOp where
  | entry (uploadId : String)
  | cloneArc (s : Nat)
  | dropArc (s : Nat)
  | tryAcquire (s : Nat)
  | poll (s : Nat)
  | wake (s : Nat)
  | abandon (s : Nat)
  | release (s : Nat)
  | removeIfIdle (uploadId : String)
  | isLocked (uploadId : String)
  | issue (g : Guard)
  | retire (g : Guard)

def LockSig : Sig where
  Op := LockOp
  Ans
    | .entry _ => Option Nat
    | .cloneArc _ => Unit
    | .dropArc _ => Unit
    | .tryAcquire _ => Bool
    | .poll _ => Bool
    | .wake _ => Wake
    | .abandon _ => Unit
    | .release _ => Unit
    | .removeIfIdle _ => Unit
    | .isLocked _ => Bool
    | .issue _ => Unit
    | .retire _ => Unit

/-- The map, the reference count and the available permits of each semaphore and its queue,
and what belongs to tasks: `Arc` clones, permits and live guards. No task sees `key`, the id
a semaphore was created for. -/
structure Heap where
  map : String → Option Nat
  strong : Nat → Nat
  available : Nat → Nat
  waiters : List (Nat × Nat)
  arcs : List (Nat × Nat)
  permits : List (Nat × Nat)
  guards : List (Nat × Guard)
  key : Nat → String

namespace Heap

/-- Nothing refers to the semaphore, so its place may be given to a new one. -/
def Free (w : Heap) (s : Nat) : Prop :=
  (∀ id, w.map id ≠ some s) ∧ ∀ t, (t, s) ∉ w.arcs

def addArc (w : Heap) (t s : Nat) : Heap :=
  { w with
    strong := Function.update w.strong s (w.strong s + 1)
    arcs := (t, s) :: w.arcs }

def dropArc (w : Heap) (t s : Nat) : Heap :=
  { w with
    strong := Function.update w.strong s (w.strong s - 1)
    arcs := w.arcs.erase (t, s) }

/-- `or_insert_with`: a semaphore with one permit, referenced by the map and by the task. -/
def insertEntry (w : Heap) (t : Nat) (id : String) (s : Nat) : Heap :=
  { w with
    map := Function.update w.map id (some s)
    strong := Function.update w.strong s 2
    available := Function.update w.available s 1
    arcs := (t, s) :: w.arcs
    key := Function.update w.key s id }

def take (w : Heap) (t s : Nat) : Heap :=
  { w with
    available := Function.update w.available s (w.available s - 1)
    permits := (t, s) :: w.permits }

def enqueue (w : Heap) (t s : Nat) : Heap := { w with waiters := w.waiters ++ [(t, s)] }

/-- A returned permit goes to the first waiter, or becomes available. -/
def handOver (w : Heap) (s : Nat) : Heap :=
  match w.waiters.find? fun x => x.2 = s with
  | some x => { w with waiters := w.waiters.erase x, permits := x :: w.permits }
  | none => { w with available := Function.update w.available s (w.available s + 1) }

def release (w : Heap) (t s : Nat) : Heap :=
  { w with permits := w.permits.erase (t, s) }.handOver s

/-- The drop of a wait: the waiter leaves the queue, or returns the permit it was given. -/
def abandon (w : Heap) (t s : Nat) : Heap :=
  if (t, s) ∈ w.waiters then { w with waiters := w.waiters.erase (t, s) } else w.release t s

/-- `remove_if_idle`. -/
def removeIfIdle (w : Heap) (id : String) : Heap :=
  match w.map id with
  | some s =>
    if w.strong s = 1 ∧ w.available s = 1 then
      { w with
        map := Function.update w.map id none
        strong := Function.update w.strong s 0 }
    else w
  | none => w

/-- `is_locked`. -/
def isLocked (w : Heap) (id : String) : Bool :=
  (w.map id).any fun s => decide (w.available s = 0)

def issue (w : Heap) (t : Nat) (g : Guard) : Heap := { w with guards := (t, g) :: w.guards }

def retire (w : Heap) (t : Nat) (g : Guard) : Heap := { w with guards := w.guards.erase (t, g) }

end Heap

/-- What an operation of task `t` may answer and do. Nothing closes a semaphore. -/
inductive LockExec (t : Nat) : (o : LockOp) → Heap → LockSig.Ans o → Heap → Prop
  | entryFound {w : Heap} {id : String} {s : Nat} : w.map id = some s →
      LockExec t (.entry id) w (some s) (w.addArc t s)
  | entryNew {w : Heap} {id : String} {s : Nat} : w.map id = none → w.Free s →
      LockExec t (.entry id) w (some s) (w.insertEntry t id s)
  | entryPoisoned {w : Heap} {id : String} : LockExec t (.entry id) w none w
  | cloneArc {w : Heap} {s : Nat} : LockExec t (.cloneArc s) w () (w.addArc t s)
  | dropArc {w : Heap} {s : Nat} : LockExec t (.dropArc s) w () (w.dropArc t s)
  | tryAcquired {w : Heap} {s : Nat} : 0 < w.available s →
      LockExec t (.tryAcquire s) w true (w.take t s)
  | tryFailed {w : Heap} {s : Nat} : w.available s = 0 → LockExec t (.tryAcquire s) w false w
  | pollReady {w : Heap} {s : Nat} : 0 < w.available s → LockExec t (.poll s) w true (w.take t s)
  | pollPending {w : Heap} {s : Nat} : w.available s = 0 →
      LockExec t (.poll s) w false (w.enqueue t s)
  | woken {w : Heap} {s : Nat} : (t, s) ∉ w.waiters → LockExec t (.wake s) w .permit w
  | elapsed {w : Heap} {s : Nat} : LockExec t (.wake s) w .elapsed w
  | cancelled {w : Heap} {s : Nat} : LockExec t (.wake s) w .cancelled w
  | abandon {w : Heap} {s : Nat} : LockExec t (.abandon s) w () (w.abandon t s)
  | release {w : Heap} {s : Nat} : LockExec t (.release s) w () (w.release t s)
  | removeIfIdle {w : Heap} {id : String} :
      LockExec t (.removeIfIdle id) w () (w.removeIfIdle id)
  | removePoisoned {w : Heap} {id : String} : LockExec t (.removeIfIdle id) w () w
  | isLocked {w : Heap} {id : String} : LockExec t (.isLocked id) w (w.isLocked id) w
  | issue {w : Heap} {g : Guard} : LockExec t (.issue g) w () (w.issue t g)
  | retire {w : Heap} {g : Guard} : LockExec t (.retire g) w () (w.retire t g)

/-- The locker as a machine. A task that is cancelled still drops what it holds, so tasks
never disappear. -/
def machine : Machine LockSig Heap where
  exec := LockExec
  env _ _ := False
  halt _ _ _ := False

/-! ## The locker -/

/-- `drop(semaphore)` twice over: the clone inside the finished or dropped future, then the
task's own. -/
def dropArcs (s : Nat) {α : Type} (p : Prog LockSig α) : Prog LockSig α :=
  .step (.dropArc s) fun _ => .step (.dropArc s) fun _ => p

/-- The task has the permit: it keeps only the permit's own reference and builds the guard. -/
def withRelease (uploadId : String) (s : Nat) : Prog LockSig Guard :=
  .step (.dropArc s) fun _ => .step (.issue ⟨uploadId, s⟩) fun _ => .done ⟨uploadId, s⟩

/-- `lock`; there is no result where the call was cancelled while it waited. -/
def lock (uploadId : String) : Prog LockSig (Option (Except Error Guard)) :=
  .step (.entry uploadId) fun
    | none => .done (some (.error (.internal "memory locker mutex poisoned")))
    | some s => .step (.cloneArc s) fun _ => .step (.poll s) fun
      | true => (withRelease uploadId s).bind fun g => .done (some (.ok g))
      | false => .step (.wake s) fun
        | .permit => (withRelease uploadId s).bind fun g => .done (some (.ok g))
        | .closed => dropArcs s <| .step (.removeIfIdle uploadId) fun _ =>
          .done (some (.error
            (.internal s!"memory locker semaphore closed for upload: {uploadId}")))
        | .elapsed => .step (.abandon s) fun _ => dropArcs s <|
          .step (.removeIfIdle uploadId) fun _ => .done (some (.error (.lockTimeout uploadId)))
        -- the call's future is dropped: nothing looks at the map
        | .cancelled => .step (.abandon s) fun _ => dropArcs s <| .done none

def tryLock (uploadId : String) : Attempt LockSig Error (Option Guard) :=
  Prog.step (.entry uploadId) fun
    | none => .done (.error (.internal "memory locker mutex poisoned"))
    | some s => .step (.cloneArc s) fun _ => .step (.tryAcquire s) fun
      | true => (withRelease uploadId s).bind fun g => .done (.ok (some g))
      | false => dropArcs s <| .step (.removeIfIdle uploadId) fun _ => .done (.ok none)

/-- `LockGuard::drop` with the release closure of this locker: the permit returns itself and
drops its reference, then the entry may be idle. -/
def dropGuard (g : Guard) : Prog LockSig Unit :=
  .step (.retire g) fun _ => .step (.release g.semaphore) fun _ =>
    .step (.dropArc g.semaphore) fun _ => .step (.removeIfIdle g.uploadId) fun _ => .done ()

def isLocked (uploadId : String) : Prog LockSig Bool := .step (.isLocked uploadId) .done

/-! ## Tasks that use the locker -/

/-- One use of the locker by a task; `drop n` drops the `n`-th guard it holds. -/
inductive Call where
  | lock (uploadId : String)
  | tryLock (uploadId : String)
  | isLocked (uploadId : String)
  | drop (n : Nat)

/-- What a task sees of a call's outcome. -/
inductive Reply where
  | acquired
  | contended
  | cancelled
  | probed (locked : Bool)
  | dropped
  | failed (e : Error)

/-- A task: any sequence of calls, each chosen from the replies so far. -/
inductive Client where
  | stop
  | call (c : Call) (k : Reply → Client)

/-- Perform a call with the guards `held`; the result is the guards held afterwards. -/
def Call.perform (held : List Guard) : Call → Prog LockSig (Reply × List Guard)
  | .lock id => (MemoryLocker.lock id).bind fun
    | some (.ok g) => .done (.acquired, g :: held)
    | some (.error e) => .done (.failed e, held)
    | none => .done (.cancelled, held)
  | .tryLock id => Prog.bind (MemoryLocker.tryLock id) fun
    | .ok (some g) => .done (.acquired, g :: held)
    | .ok none => .done (.contended, held)
    | .error e => .done (.failed e, held)
  | .isLocked id => (MemoryLocker.isLocked id).bind fun b => .done (.probed b, held)
  | .drop n => match held[n]? with
    | some g => (dropGuard g).bind fun _ => .done (.dropped, held.eraseIdx n)
    | none => .done (.dropped, held)

/-- A task at its end drops the guards it still holds. -/
def dropAll : List Guard → Prog LockSig Unit
  | [] => .done ()
  | g :: gs => (dropGuard g).bind fun _ => dropAll gs

def Client.run (held : List Guard) : Client → Prog LockSig Unit
  | .stop => dropAll held
  | .call c k => (c.perform held).bind fun r => (k r.1).run r.2

/-! ## The invariant and what a task relies on -/

/-- A mapped semaphore has its one permit somewhere, a referenced one is mapped, and every
permit, waiter and guard is backed by a reference of its task. -/
structure Heap.Inv (w : Heap) : Prop where
  permit : ∀ id s, w.map id = some s → w.available s + w.permits.countP (fun x => x.2 = s) = 1
  mapped : ∀ t s, (t, s) ∈ w.arcs → w.map (w.key s) = some s
  keyed : ∀ id s, w.map id = some s → w.key s = id
  counted : ∀ id s, w.map id = some s → w.strong s = w.arcs.countP (fun x => x.2 = s) + 1
  backed : ∀ x, w.permits.count x + w.waiters.count x ≤ w.arcs.count x
  guarded : ∀ t g, (t, g) ∈ w.guards → w.key g.semaphore = g.uploadId
  held : ∀ x, (w.guards.map fun y => (y.1, y.2.semaphore)).count x ≤ w.permits.count x

/-- What `t` relies on: its references and guards stay, a permit or a place in a queue stays
or the place turns into a permit, and the semaphores it references stay what they are. -/
structure Keeps (t : Nat) (w w' : Heap) : Prop where
  arcs : ∀ s, w'.arcs.count (t, s) = w.arcs.count (t, s)
  guards : ∀ g, w'.guards.count (t, g) = w.guards.count (t, g)
  tokens : ∀ s, w'.permits.count (t, s) + w'.waiters.count (t, s) =
    w.permits.count (t, s) + w.waiters.count (t, s)
  waiters : ∀ s, w'.waiters.count (t, s) ≤ w.waiters.count (t, s)
  key : ∀ s, (t, s) ∈ w.arcs → w'.key s = w.key s

abbrev Keeping (t : Nat) (w w' : Heap) : Prop := Safe Heap.Inv Keeps t w w'

variable {t : Nat} {w w' : Heap} {s : Nat} {id : String}

theorem keeps_refl (t : Nat) (w : Heap) : Keeps t w w :=
  ⟨fun _ => rfl, fun _ => rfl, fun _ => rfl, fun _ => Nat.le_refl _, fun _ _ => rfl⟩

theorem keeps_trans (t : Nat) (w₁ w₂ w₃ : Heap) (h₁ : Keeps t w₁ w₂) (h₂ : Keeps t w₂ w₃) :
    Keeps t w₁ w₃ where
  arcs s := (h₂.arcs s).trans (h₁.arcs s)
  guards g := (h₂.guards g).trans (h₁.guards g)
  tokens s := (h₂.tokens s).trans (h₁.tokens s)
  waiters s := Nat.le_trans (h₂.waiters s) (h₁.waiters s)
  key s hs := by
    have hs' : (t, s) ∈ w₂.arcs := by
      rw [← List.count_pos_iff, h₁.arcs s, List.count_pos_iff]
      exact hs
    exact (h₂.key s hs').trans (h₁.key s hs)

theorem keeping_refl (hi : w.Inv) : Keeping t w w := ⟨hi, fun u _ => keeps_refl u w⟩

theorem lawful : (Discipline.mutual Heap.Inv Keeps : Discipline LockSig Heap).Lawful machine :=
  Discipline.mutual_lawful keeps_refl keeps_trans (fun _ _ _ h => h.elim) fun _ _ _ _ h => h.elim

theorem pair_ne {u : Nat} (hu : u ≠ t) (s s' : Nat) : (t, s) ≠ (u, s') :=
  fun h => hu (Prod.mk.inj h).1.symm

/-! ### Each change keeps the invariant and what others rely on -/

/-- The number of references to a semaphore, with one more. -/
theorem countP_cons_pair (l : List (Nat × Nat)) (t s s' : Nat) :
    ((t, s) :: l).countP (fun x => x.2 = s') =
      l.countP (fun x => x.2 = s') + if s = s' then 1 else 0 := by
  rw [List.countP_cons]
  by_cases h : s = s' <;> simp [h]

theorem countP_erase_pair {l : List (Nat × Nat)} {x : Nat × Nat} (hx : x ∈ l) (s' : Nat) :
    (l.erase x).countP (fun y => y.2 = s') + (if x.2 = s' then 1 else 0) =
      l.countP (fun y => y.2 = s') := by
  have hperm := List.perm_cons_erase hx
  rw [hperm.countP_eq, List.countP_cons]
  by_cases h : x.2 = s' <;> simp [h]

theorem addArc_keeping (hi : w.Inv) (hs : w.map (w.key s) = some s) :
    Keeping t w (w.addArc t s) := by
  refine ⟨⟨hi.permit, ?_, hi.keyed, ?_, ?_, hi.guarded, hi.held⟩, fun u hu => ?_⟩
  · intro t' s' h
    rcases List.mem_cons.mp h with h | h
    · cases h
      exact hs
    · exact hi.mapped t' s' h
  · intro id' s' h
    have hc := hi.counted id' s' h
    show Function.update w.strong s (w.strong s + 1) s' = _
    rw [Heap.addArc, countP_cons_pair]
    by_cases hss : s' = s
    · subst hss
      rw [Function.update_self, if_pos rfl, hc]
    · rw [Function.update_of_ne hss, if_neg (Ne.symm hss), hc]
  · intro x
    have hb := hi.backed x
    show _ ≤ List.count x ((t, s) :: w.arcs)
    rw [List.count_cons]
    exact Nat.le_trans hb (Nat.le_add_right _ _)
  · refine ⟨fun s' => ?_, fun _ => rfl, fun _ => rfl, fun _ => Nat.le_refl _, fun _ _ => rfl⟩
    exact List.count_cons_of_ne (pair_ne hu s s')

theorem dropArc_keeping (hi : w.Inv) (hs : (t, s) ∈ w.arcs)
    (hn : w.permits.count (t, s) + w.waiters.count (t, s) < w.arcs.count (t, s)) :
    Keeping t w (w.dropArc t s) := by
  refine ⟨⟨hi.permit, ?_, hi.keyed, ?_, ?_, hi.guarded, hi.held⟩, fun u hu => ?_⟩
  · exact fun t' s' h => hi.mapped t' s' (List.mem_of_mem_erase h)
  · intro id' s' h
    have hc := hi.counted id' s' h
    have he := countP_erase_pair hs s'
    show Function.update w.strong s (w.strong s - 1) s' = (w.arcs.erase (t, s)).countP _ + 1
    by_cases hss : s' = s
    · subst hss
      rw [if_pos rfl] at he
      rw [Function.update_self]
      omega
    · rw [if_neg (Ne.symm hss)] at he
      rw [Function.update_of_ne hss]
      omega
  · intro x
    have hb := hi.backed x
    show _ ≤ List.count x (w.arcs.erase (t, s))
    by_cases hx : x = (t, s)
    · subst hx
      rw [List.count_erase_self]
      exact Nat.le_sub_one_of_lt hn
    · rw [List.count_erase_of_ne hx]
      exact hb
  · refine ⟨fun s' => ?_, fun _ => rfl, fun _ => rfl, fun _ => Nat.le_refl _, fun _ _ => rfl⟩
    exact List.count_erase_of_ne (pair_ne hu s s').symm

/-- Nothing belongs to a semaphore that nothing refers to. -/
theorem Heap.Free.unused (hf : w.Free s) (hi : w.Inv) (t : Nat) :
    w.permits.count (t, s) = 0 ∧ w.waiters.count (t, s) = 0 := by
  have hb := hi.backed (t, s)
  rw [List.count_eq_zero.mpr (hf.2 t)] at hb
  omega

theorem insertEntry_keeping (hi : w.Inv) (hid : w.map id = none) (hf : w.Free s) :
    Keeping t w (w.insertEntry t id s) := by
  have hne : ∀ {id' s'}, w.map id' = some s' → id' ≠ id ∧ s' ≠ s := by
    intro id' s' h
    refine ⟨?_, ?_⟩
    · rintro rfl
      rw [hid] at h
      cases h
    · rintro rfl
      exact hf.1 id' h
  have hold : ∀ {id' s'}, Function.update w.map id (some s) id' = some s' →
      id' = id ∧ s' = s ∨ w.map id' = some s' := by
    intro id' s' h
    by_cases he : id' = id
    · subst he
      rw [Function.update_self] at h
      exact .inl ⟨rfl, (Option.some.inj h).symm⟩
    · rw [Function.update_of_ne he] at h
      exact .inr h
  have harcs : w.arcs.countP (fun x => x.2 = s) = 0 := by
    rw [List.countP_eq_zero]
    intro x hx hxs
    have hxs : x.2 = s := by simpa using hxs
    exact hf.2 x.1 (hxs ▸ hx)
  have hpermits : w.permits.countP (fun x => x.2 = s) = 0 := by
    rw [List.countP_eq_zero]
    intro x hx hxs
    have hxs : x.2 = s := by simpa using hxs
    have h0 := (hf.unused hi x.1).1
    rw [List.count_eq_zero] at h0
    exact h0 (hxs ▸ hx)
  refine ⟨⟨?_, ?_, ?_, ?_, ?_, ?_, hi.held⟩, fun u hu => ?_⟩
  · intro id' s' h
    rcases hold h with ⟨rfl, rfl⟩ | h
    · show Function.update w.available s' 1 s' + _ = 1
      rw [Function.update_self]
      exact congrArg (1 + ·) hpermits
    · show Function.update w.available s 1 s' + _ = 1
      rw [Function.update_of_ne (hne h).2]
      exact hi.permit id' s' h
  · intro t' s' h
    show Function.update w.map id (some s) (Function.update w.key s id s') = some s'
    by_cases hss : s' = s
    · subst hss
      rw [Function.update_self, Function.update_self]
    · have h : (t', s') ∈ w.arcs := by
        rcases List.mem_cons.mp h with h | h
        · exact absurd (Prod.mk.inj h).2 hss
        · exact h
      have hm := hi.mapped t' s' h
      rw [Function.update_of_ne hss, Function.update_of_ne (hne hm).1]
      exact hm
  · intro id' s' h
    show Function.update w.key s id s' = id'
    rcases hold h with ⟨rfl, rfl⟩ | h
    · rw [Function.update_self]
    · rw [Function.update_of_ne (hne h).2]
      exact hi.keyed id' s' h
  · intro id' s' h
    show Function.update w.strong s 2 s' = ((t, s) :: w.arcs).countP _ + 1
    rw [countP_cons_pair]
    rcases hold h with ⟨rfl, rfl⟩ | h
    · rw [Function.update_self, if_pos rfl, harcs]
    · rw [Function.update_of_ne (hne h).2, if_neg (Ne.symm (hne h).2)]
      exact hi.counted id' s' h
  · intro x
    show _ ≤ List.count x ((t, s) :: w.arcs)
    rw [List.count_cons]
    exact Nat.le_trans (hi.backed x) (Nat.le_add_right _ _)
  · intro t' g hg
    show Function.update w.key s id g.semaphore = g.uploadId
    rw [Function.update_of_ne]
    · exact hi.guarded t' g hg
    · intro hgs
      -- a guard's permit is backed by a reference
      have hmem : (t', g.semaphore) ∈ w.guards.map fun y => (y.1, y.2.semaphore) :=
        List.mem_map_of_mem hg
      have hpos := List.count_pos_iff.mpr hmem
      have hle := hi.held (t', g.semaphore)
      rw [hgs] at hpos hle
      have h0 := (hf.unused hi t').1
      omega
  · refine ⟨fun s' => List.count_cons_of_ne (pair_ne hu s s'), fun _ => rfl, fun _ => rfl,
      fun _ => Nat.le_refl _, fun s' h => Function.update_of_ne ?_ _ _⟩
    rintro rfl
    exact hf.2 u h

theorem take_keeping (hi : w.Inv) (hs : 0 < w.available s)
    (hn : w.permits.count (t, s) + w.waiters.count (t, s) < w.arcs.count (t, s)) :
    Keeping t w (w.take t s) := by
  refine ⟨⟨?_, hi.mapped, hi.keyed, hi.counted, ?_, hi.guarded, ?_⟩, fun u hu => ?_⟩
  · intro id' s' h
    have hp := hi.permit id' s' h
    show Function.update w.available s (w.available s - 1) s' + ((t, s) :: w.permits).countP _ = 1
    rw [countP_cons_pair]
    by_cases hss : s' = s
    · subst hss
      rw [Function.update_self, if_pos rfl]
      omega
    · rw [Function.update_of_ne hss, if_neg (Ne.symm hss)]
      exact hp
  · intro x
    have hb := hi.backed x
    show List.count x ((t, s) :: w.permits) + _ ≤ _
    by_cases hx : x = (t, s)
    · subst hx
      rw [List.count_cons_self]
      show _ + w.waiters.count (t, s) ≤ w.arcs.count (t, s)
      omega
    · rw [List.count_cons_of_ne (Ne.symm hx)]
      exact hb
  · intro x
    refine Nat.le_trans (hi.held x) ?_
    show _ ≤ List.count x ((t, s) :: w.permits)
    rw [List.count_cons]
    exact Nat.le_add_right _ _
  · refine ⟨fun _ => rfl, fun _ => rfl, fun s' => ?_, fun _ => Nat.le_refl _, fun _ _ => rfl⟩
    exact congrArg (· + w.waiters.count (u, s')) (List.count_cons_of_ne (pair_ne hu s s'))

theorem enqueue_keeping (hi : w.Inv)
    (hn : w.permits.count (t, s) + w.waiters.count (t, s) < w.arcs.count (t, s)) :
    Keeping t w (w.enqueue t s) := by
  have hcount : ∀ x, (w.waiters ++ [(t, s)]).count x =
      w.waiters.count x + if (t, s) = x then 1 else 0 := by
    intro x
    rw [List.count_append, List.count_singleton]
    simp
  refine ⟨⟨hi.permit, hi.mapped, hi.keyed, hi.counted, ?_, hi.guarded, hi.held⟩, fun u hu => ?_⟩
  · intro x
    have hb := hi.backed x
    show _ + (w.waiters ++ [(t, s)]).count x ≤ _
    rw [hcount]
    by_cases hx : (t, s) = x
    · subst hx
      rw [if_pos rfl]
      show w.permits.count (t, s) + _ ≤ w.arcs.count (t, s)
      omega
    · rw [if_neg hx]
      exact hb
  · have hsame : ∀ s', (w.waiters ++ [(t, s)]).count (u, s') = w.waiters.count (u, s') := by
      intro s'
      rw [hcount, if_neg (pair_ne hu s s'), Nat.add_zero]
    refine ⟨fun _ => rfl, fun _ => rfl, fun s' => ?_, fun s' => Nat.le_of_eq (hsame s'),
      fun _ _ => rfl⟩
    exact congrArg (w.permits.count (u, s') + ·) (hsame s')

/-- What handing over a permit does: somewhere one more permit counts, no place in a queue is
lost without one, and nothing else changes. -/
structure HandedOver (s : Nat) (w w' : Heap) : Prop where
  map : w'.map = w.map
  strong : w'.strong = w.strong
  arcs : w'.arcs = w.arcs
  guards : w'.guards = w.guards
  key : w'.key = w.key
  total : ∀ s', w'.available s' + w'.permits.countP (fun x => x.2 = s') =
    w.available s' + w.permits.countP (fun x => x.2 = s') + if s = s' then 1 else 0
  tokens : ∀ x, w'.permits.count x + w'.waiters.count x = w.permits.count x + w.waiters.count x
  waiters : ∀ x, w'.waiters.count x ≤ w.waiters.count x

theorem handOver_handedOver (w : Heap) (s : Nat) : HandedOver s w (w.handOver s) := by
  unfold Heap.handOver
  split
  · next x hx =>
    have hmem : x ∈ w.waiters := List.mem_of_find?_eq_some hx
    have hxs : x.2 = s := by simpa using List.find?_some hx
    refine ⟨rfl, rfl, rfl, rfl, rfl, fun s' => ?_, fun y => ?_, fun y => ?_⟩
    · show w.available s' + (x :: w.permits).countP _ = _
      rw [show x = (x.1, x.2) from rfl, countP_cons_pair, hxs, Nat.add_assoc]
    · show (x :: w.permits).count y + (w.waiters.erase x).count y = _
      by_cases hy : y = x
      · subst hy
        have hpos := List.count_pos_iff.mpr hmem
        rw [List.count_cons_self, List.count_erase_self]
        omega
      · rw [List.count_cons_of_ne (Ne.symm hy), List.count_erase_of_ne hy]
    · exact List.Sublist.count_le y List.erase_sublist
  · refine ⟨rfl, rfl, rfl, rfl, rfl, fun s' => ?_, fun _ => rfl, fun _ => Nat.le_refl _⟩
    show Function.update w.available s (w.available s + 1) s' + _ = _
    by_cases hss : s' = s
    · subst hss
      rw [Function.update_self, if_pos rfl]
      exact Nat.add_right_comm _ _ _
    · rw [Function.update_of_ne hss, if_neg (Ne.symm hss)]
      rfl

/-- A permit that backs no guard may be returned. -/
theorem release_keeping (hi : w.Inv) (hp : (t, s) ∈ w.permits)
    (hn : (w.guards.map fun y => (y.1, y.2.semaphore)).count (t, s) < w.permits.count (t, s)) :
    Keeping t w (w.release t s) := by
  have hh := handOver_handedOver { w with permits := w.permits.erase (t, s) } s
  have herase : ∀ x, x ≠ (t, s) → (w.permits.erase (t, s)).count x = w.permits.count x :=
    fun x hx => List.count_erase_of_ne hx
  have hself : (w.permits.erase (t, s)).count (t, s) = w.permits.count (t, s) - 1 :=
    List.count_erase_self
  refine ⟨⟨?_, ?_, ?_, ?_, ?_, ?_, ?_⟩, fun u hu => ?_⟩
  · intro id' s' h
    have he := countP_erase_pair hp s'
    have ht := hh.total s'
    have hpermit := hi.permit id' s' (hh.map ▸ h)
    dsimp only at he ht
    show (Heap.handOver _ s).available s' + (Heap.handOver _ s).permits.countP _ = 1
    omega
  · intro t' s' h
    show (Heap.handOver _ s).map ((Heap.handOver _ s).key s') = some s'
    rw [hh.map, hh.key]
    exact hi.mapped t' s' (hh.arcs ▸ h)
  · intro id' s' h
    show (Heap.handOver _ s).key s' = id'
    rw [hh.key]
    exact hi.keyed id' s' (hh.map ▸ h)
  · intro id' s' h
    show (Heap.handOver _ s).strong s' = (Heap.handOver _ s).arcs.countP _ + 1
    rw [hh.strong, hh.arcs]
    exact hi.counted id' s' (hh.map ▸ h)
  · intro x
    have hb := hi.backed x
    show (Heap.handOver _ s).permits.count x + (Heap.handOver _ s).waiters.count x ≤
      (Heap.handOver _ s).arcs.count x
    rw [hh.tokens, hh.arcs]
    refine Nat.le_trans (Nat.add_le_add_right ?_ _) hb
    exact List.Sublist.count_le x List.erase_sublist
  · intro t' g hg
    show (Heap.handOver _ s).key g.semaphore = g.uploadId
    rw [hh.key]
    exact hi.guarded t' g (hh.guards ▸ hg)
  · intro x
    have hheld := hi.held x
    have htok := hh.tokens x
    have hwait := hh.waiters x
    show ((Heap.handOver _ s).guards.map _).count x ≤ (Heap.handOver _ s).permits.count x
    rw [hh.guards]
    by_cases hx : x = (t, s)
    · subst hx
      dsimp only at htok hwait ⊢
      omega
    · have := herase x hx
      dsimp only at htok hwait ⊢
      omega
  · refine ⟨fun s' => ?_, fun g => ?_, fun s' => ?_, fun s' => hh.waiters _, fun s' _ => ?_⟩
    · exact congrArg (List.count (u, s')) hh.arcs
    · exact congrArg (List.count (u, g)) hh.guards
    · rw [← herase (u, s') (pair_ne hu s s').symm]
      exact hh.tokens (u, s')
    · exact congrFun hh.key s'

theorem leave_keeping (hi : w.Inv) : Keeping t w { w with waiters := w.waiters.erase (t, s) } := by
  refine ⟨⟨hi.permit, hi.mapped, hi.keyed, hi.counted, ?_, hi.guarded, hi.held⟩, fun u hu => ?_⟩
  · intro x
    refine Nat.le_trans (Nat.add_le_add_left ?_ _) (hi.backed x)
    exact List.Sublist.count_le x List.erase_sublist
  · have hsame : ∀ s', (w.waiters.erase (t, s)).count (u, s') = w.waiters.count (u, s') :=
      fun s' => List.count_erase_of_ne (pair_ne hu s s').symm
    refine ⟨fun _ => rfl, fun _ => rfl, fun s' => ?_, fun s' => Nat.le_of_eq (hsame s'),
      fun _ _ => rfl⟩
    exact congrArg (w.permits.count (u, s') + ·) (hsame s')

/-- The map holds the last reference, so no task is affected. -/
theorem removeIfIdle_keeping (hi : w.Inv) : Keeping t w (w.removeIfIdle id) := by
  unfold Heap.removeIfIdle
  split
  · next s hs =>
    by_cases hidle : w.strong s = 1 ∧ w.available s = 1
    · rw [if_pos hidle]
      have hnone : ∀ t', (t', s) ∉ w.arcs := by
        intro t' h
        have hc := hi.counted id s hs
        have hpos : 0 < w.arcs.countP (fun x => x.2 = s) :=
          List.countP_pos_iff.mpr ⟨(t', s), h, by simp⟩
        omega
      have hold : ∀ {id' s'}, Function.update w.map id none id' = some s' →
          w.map id' = some s' ∧ s' ≠ s := by
        intro id' s' h
        have hne : id' ≠ id := by
          rintro rfl
          rw [Function.update_self] at h
          cases h
        rw [Function.update_of_ne hne] at h
        refine ⟨h, ?_⟩
        rintro rfl
        exact hne ((hi.keyed id' s' h).symm.trans (hi.keyed id s' hs))
      refine ⟨⟨?_, ?_, ?_, ?_, hi.backed, hi.guarded, hi.held⟩, fun u _ => ?_⟩
      · exact fun id' s' h => hi.permit id' s' (hold h).1
      · intro t' s' h
        have hm := hi.mapped t' s' h
        show Function.update w.map id none (w.key s') = some s'
        rw [Function.update_of_ne]
        · exact hm
        · rintro hkey
          rw [hkey, hs] at hm
          cases hm
          exact hnone t' h
      · exact fun id' s' h => hi.keyed id' s' (hold h).1
      · intro id' s' h
        show Function.update w.strong s 0 s' = _
        rw [Function.update_of_ne (hold h).2]
        exact hi.counted id' s' (hold h).1
      · exact ⟨fun _ => rfl, fun _ => rfl, fun _ => rfl, fun _ => Nat.le_refl _, fun _ _ => rfl⟩
    · rw [if_neg hidle]
      exact keeping_refl hi
  · exact keeping_refl hi

theorem issue_keeping {g : Guard} (hi : w.Inv) (hk : w.key g.semaphore = g.uploadId)
    (hn : (w.guards.map fun y => (y.1, y.2.semaphore)).count (t, g.semaphore) <
      w.permits.count (t, g.semaphore)) : Keeping t w (w.issue t g) := by
  refine ⟨⟨hi.permit, hi.mapped, hi.keyed, hi.counted, hi.backed, ?_, ?_⟩, fun u hu => ?_⟩
  · intro t' g' h
    rcases List.mem_cons.mp h with h | h
    · cases h
      exact hk
    · exact hi.guarded t' g' h
  · intro x
    have hheld := hi.held x
    show List.count x ((t, g.semaphore) :: w.guards.map _) ≤ w.permits.count x
    by_cases hx : x = (t, g.semaphore)
    · subst hx
      rw [List.count_cons_self]
      exact hn
    · rw [List.count_cons_of_ne (Ne.symm hx)]
      exact hheld
  · refine ⟨fun _ => rfl, fun g' => ?_, fun _ => rfl, fun _ => Nat.le_refl _, fun _ _ => rfl⟩
    exact List.count_cons_of_ne fun h => hu (Prod.mk.inj h).1.symm

theorem retire_keeping {g : Guard} (hi : w.Inv) : Keeping t w (w.retire t g) := by
  refine ⟨⟨hi.permit, hi.mapped, hi.keyed, hi.counted, hi.backed, ?_, ?_⟩, fun u hu => ?_⟩
  · exact fun t' g' h => hi.guarded t' g' (List.mem_of_mem_erase h)
  · intro x
    refine Nat.le_trans ?_ (hi.held x)
    exact List.Sublist.count_le x (List.erase_sublist.map _)
  · refine ⟨fun _ => rfl, fun g' => ?_, fun _ => rfl, fun _ => Nat.le_refl _, fun _ _ => rfl⟩
    exact List.count_erase_of_ne fun h => hu (Prod.mk.inj h).1

/-! ### What a task knows between its operations -/

/-- Task `t` holds the guards `held` and, besides, the references `as`, the permits `ps` and
places in the queues of `ws`, each of which may have turned into a permit. -/
structure Owns (t : Nat) (held : List Guard) (as ps ws : List Nat) (w : Heap) : Prop where
  arcs : ∀ s, w.arcs.count (t, s) = (held.map Guard.semaphore).count s + as.count s
  guards : ∀ g, w.guards.count (t, g) = held.count g
  tokens : ∀ s, w.permits.count (t, s) + w.waiters.count (t, s) =
    (held.map Guard.semaphore).count s + ps.count s + ws.count s
  waiters : ∀ s, w.waiters.count (t, s) ≤ ws.count s

/-- Between two calls a task has only its guards. -/
abbrev Held (t : Nat) (held : List Guard) (w : Heap) : Prop := Owns t held [] [] [] w

/-- Inside a call for `id` the task references the semaphore `s` of that id. -/
def Inside (t : Nat) (held : List Guard) (id : String) (s : Nat) (as ps ws : List Nat)
    (w : Heap) : Prop :=
  Owns t held (s :: as) ps ws w ∧ w.key s = id

variable {held : List Guard} {as ps ws : List Nat} {g : Guard} {α : Type}

theorem owns_stable : Stable Keeps t (Owns t held as ps ws) := by
  intro w w' h hk
  exact ⟨fun s => (hk.arcs s).trans (h.arcs s), fun g => (hk.guards g).trans (h.guards g),
    fun s => (hk.tokens s).trans (h.tokens s), fun s => Nat.le_trans (hk.waiters s) (h.waiters s)⟩

theorem Owns.mem_arcs (h : Owns t held (s :: as) ps ws w) : (t, s) ∈ w.arcs := by
  rw [← List.count_pos_iff, h.arcs s, List.count_cons_self]
  omega

theorem inside_stable : Stable Keeps t (Inside t held id s as ps ws) :=
  fun w w' h hk => ⟨owns_stable w w' h.1 hk, (hk.key s h.1.mem_arcs).trans h.2⟩

theorem Owns.no_waiters (h : Owns t held as ps [] w) (s : Nat) : w.waiters.count (t, s) = 0 :=
  Nat.le_zero.mp (h.waiters s)

theorem Owns.permits (h : Owns t held as ps [] w) (s : Nat) :
    w.permits.count (t, s) = (held.map Guard.semaphore).count s + ps.count s := by
  have ht := h.tokens s
  rw [h.no_waiters s, List.count_nil] at ht
  omega

theorem count_owned (l : List (Nat × Guard)) (t : Nat) (g : Guard) :
    ((l.filter fun x => x.1 = t).map Prod.snd).count g = l.count (t, g) := by
  induction l with
  | nil => rfl
  | cons x l ih =>
    by_cases hx : x.1 = t
    · subst hx
      rw [List.filter_cons_of_pos (by simp), List.map_cons, List.count_cons, List.count_cons, ih]
      have : (x.2 == g) = (x == (x.1, g)) := by
        rw [Bool.eq_iff_iff, beq_iff_eq, beq_iff_eq]
        exact ⟨fun h => Prod.ext rfl h, fun h => congrArg Prod.snd h⟩
      rw [this]
    · rw [List.filter_cons_of_neg (by simpa using hx), ih, List.count_cons_of_ne]
      rintro rfl
      exact hx rfl

theorem count_semaphores (l : List (Nat × Guard)) (t s : Nat) :
    (l.map fun y => (y.1, y.2.semaphore)).count (t, s) =
      (((l.filter fun x => x.1 = t).map Prod.snd).map Guard.semaphore).count s := by
  induction l with
  | nil => rfl
  | cons x l ih =>
    by_cases hx : x.1 = t
    · subst hx
      rw [List.filter_cons_of_pos (by simp), List.map_cons, List.map_cons, List.map_cons,
        List.count_cons, List.count_cons, ih]
      have : ((x.1, x.2.semaphore) == (x.1, s)) = (x.2.semaphore == s) := by
        rw [Bool.eq_iff_iff, beq_iff_eq, beq_iff_eq]
        exact ⟨fun h => (Prod.mk.inj h).2, fun h => Prod.ext rfl h⟩
      rw [this]
    · rw [List.filter_cons_of_neg (by simpa using hx), List.map_cons, ← ih, List.count_cons_of_ne]
      exact fun h => hx (Prod.mk.inj h).1

/-- The guards of a task, by their semaphores. -/
theorem Owns.guards_count (h : Owns t held as ps ws w) (s : Nat) :
    (w.guards.map fun y => (y.1, y.2.semaphore)).count (t, s) =
      (held.map Guard.semaphore).count s := by
  have hperm : List.Perm ((w.guards.filter fun x => x.1 = t).map Prod.snd) held :=
    List.perm_iff_count.mpr fun g => (count_owned w.guards t g).trans (h.guards g)
  rw [count_semaphores]
  exact (hperm.map Guard.semaphore).count_eq s

theorem count_other {β : Type} [BEq β] [LawfulBEq β] {a b : β} (h : a ≠ b) : [b].count a = 0 :=
  List.count_eq_zero.mpr fun hm => h (List.mem_singleton.mp hm)

/-- A reference that backs neither a permit nor a place in a queue may go. -/
theorem Owns.spare (h : Owns t held (s :: as) ps ws w) (hn : (ps ++ ws).count s ≤ as.count s) :
    w.permits.count (t, s) + w.waiters.count (t, s) < w.arcs.count (t, s) := by
  rw [h.tokens s, h.arcs s, List.count_cons_self]
  rw [List.count_append] at hn
  omega

theorem Owns.addArc (h : Owns t held as ps ws w) : Owns t held (s :: as) ps ws (w.addArc t s) where
  arcs s' := by
    have := h.arcs s'
    show ((t, s) :: w.arcs).count (t, s') = _
    by_cases hs : s' = s
    · subst hs
      rw [List.count_cons_self, List.count_cons_self, this]
      rfl
    · rw [List.count_cons_of_ne fun h => hs (Prod.mk.inj h).2.symm,
        List.count_cons_of_ne (Ne.symm hs), this]
  guards := h.guards
  tokens := h.tokens
  waiters := h.waiters

theorem Owns.dropArc (h : Owns t held (s :: as) ps ws w) :
    Owns t held as ps ws (w.dropArc t s) where
  arcs s' := by
    have := h.arcs s'
    show (w.arcs.erase (t, s)).count (t, s') = _
    by_cases hs : s' = s
    · subst hs
      rw [List.count_cons_self] at this
      rw [List.count_erase_self]
      omega
    · rw [List.count_cons_of_ne (Ne.symm hs)] at this
      rw [List.count_erase_of_ne fun h => hs (Prod.mk.inj h).2, this]
  guards := h.guards
  tokens := h.tokens
  waiters := h.waiters

theorem Owns.take (h : Owns t held as [] [] w) : Owns t held as [s] [] (w.take t s) where
  arcs := h.arcs
  guards := h.guards
  tokens s' := by
    have := h.tokens s'
    show ((t, s) :: w.permits).count (t, s') + w.waiters.count (t, s') = _
    by_cases hs : s' = s
    · subst hs
      rw [List.count_cons_self, List.count_singleton_self]
      simp only [List.count_nil] at this ⊢
      omega
    · rw [List.count_cons_of_ne fun h => hs (Prod.mk.inj h).2.symm,
        count_other hs]
      exact this
  waiters := h.waiters

theorem Owns.enqueue (h : Owns t held as [] [] w) : Owns t held as [] [s] (w.enqueue t s) := by
  have hcount : ∀ s', (w.waiters ++ [(t, s)]).count (t, s') = [s].count s' := by
    intro s'
    rw [List.count_append, h.no_waiters, Nat.zero_add]
    by_cases hs : s' = s
    · subst hs
      rw [List.count_singleton_self, List.count_singleton_self]
    · rw [count_other hs, count_other fun h => hs (Prod.mk.inj h).2]
  refine ⟨h.arcs, h.guards, fun s' => ?_, fun s' => Nat.le_of_eq (hcount s')⟩
  have := h.tokens s'
  rw [h.no_waiters] at this
  show w.permits.count (t, s') + (w.waiters ++ [(t, s)]).count (t, s') = _
  rw [hcount]
  exact congrArg (· + [s].count s') this

/-- A waiter that has left the queue has its permit. -/
theorem Owns.woken (h : Owns t held as [] [s] w) (hs : (t, s) ∉ w.waiters) :
    Owns t held as [s] [] w where
  arcs := h.arcs
  guards := h.guards
  tokens s' := by
    rw [h.tokens s']
    exact Nat.add_right_comm _ _ _
  waiters s' := by
    by_cases hss : s' = s
    · subst hss
      exact Nat.le_of_eq (List.count_eq_zero.mpr hs)
    · refine Nat.le_trans (h.waiters s') ?_
      exact Nat.le_of_eq (count_other hss)

/-- A returned permit may go to any waiter, but the task has none waiting. -/
theorem Owns.release (h : Owns t held as [s] [] w) : Owns t held as [] [] (w.release t s) := by
  have hh := handOver_handedOver { w with permits := w.permits.erase (t, s) } s
  refine ⟨fun s' => ?_, fun g => ?_, fun s' => ?_, fun s' => ?_⟩
  · rw [← h.arcs s']
    exact congrArg (List.count (t, s')) hh.arcs
  · rw [← h.guards g]
    exact congrArg (List.count (t, g)) hh.guards
  · refine (hh.tokens (t, s')).trans ?_
    have hp := h.permits s'
    show (w.permits.erase (t, s)).count (t, s') + w.waiters.count (t, s') = _
    rw [h.no_waiters]
    by_cases hs : s' = s
    · subst hs
      rw [List.count_singleton_self] at hp
      rw [List.count_erase_self, hp]
      rfl
    · rw [count_other hs] at hp
      rw [List.count_erase_of_ne fun h => hs (Prod.mk.inj h).2, hp]
      rfl
  · exact Nat.le_trans (hh.waiters (t, s')) (h.waiters s')

theorem Owns.leave (h : Owns t held as [] [s] w) (hs : (t, s) ∈ w.waiters) :
    Owns t held as [] [] { w with waiters := w.waiters.erase (t, s) } := by
  have hpos := List.count_pos_iff.mpr hs
  have hcount : ∀ s', (w.waiters.erase (t, s)).count (t, s') = 0 := by
    intro s'
    have hw := h.waiters s'
    by_cases hss : s' = s
    · subst hss
      rw [List.count_singleton_self] at hw
      rw [List.count_erase_self]
      omega
    · rw [count_other hss] at hw
      rw [List.count_erase_of_ne fun h => hss (Prod.mk.inj h).2]
      exact Nat.le_zero.mp hw
  refine ⟨h.arcs, h.guards, fun s' => ?_, fun s' => Nat.le_of_eq (hcount s')⟩
  have ht := h.tokens s'
  have hw := h.waiters s'
  show w.permits.count (t, s') + (w.waiters.erase (t, s)).count (t, s') = _
  rw [hcount]
  by_cases hss : s' = s
  · subst hss
    rw [List.count_singleton_self] at ht hw
    simp only [List.count_nil] at ht ⊢
    omega
  · rw [count_other hss] at ht hw
    simp only [List.count_nil] at ht ⊢
    omega

theorem Owns.issue (h : Owns t held [s] [s] [] w) :
    Owns t (⟨id, s⟩ :: held) [] [] [] (w.issue t ⟨id, s⟩) := by
  have hmove : ∀ s', (held.map Guard.semaphore).count s' + [s].count s' =
      ((⟨id, s⟩ :: held).map Guard.semaphore).count s' := by
    intro s'
    rw [List.count_singleton, List.map_cons, List.count_cons]
  refine ⟨fun s' => ?_, fun g => ?_, fun s' => ?_, h.waiters⟩
  · rw [← hmove]
    exact h.arcs s'
  · have := h.guards g
    show ((t, (⟨id, s⟩ : Guard)) :: w.guards).count (t, g) = _
    by_cases hg : g = ⟨id, s⟩
    · subst hg
      rw [List.count_cons_self, List.count_cons_self, this]
    · rw [List.count_cons_of_ne fun h => hg (Prod.mk.inj h).2.symm,
        List.count_cons_of_ne (Ne.symm hg), this]
  · rw [← hmove]
    exact h.tokens s'

theorem Owns.retire (h : Owns t (g :: held) [] [] [] w) :
    Owns t held [g.semaphore] [g.semaphore] [] (w.retire t g) := by
  have hmove : ∀ s', ((g :: held).map Guard.semaphore).count s' =
      (held.map Guard.semaphore).count s' + [g.semaphore].count s' := by
    intro s'
    rw [List.count_singleton, List.map_cons, List.count_cons]
  refine ⟨fun s' => ?_, fun g' => ?_, fun s' => ?_, h.waiters⟩
  · rw [← hmove]
    exact h.arcs s'
  · have := h.guards g'
    show (w.guards.erase (t, g)).count (t, g') = _
    by_cases hg : g' = g
    · subst hg
      rw [List.count_cons_self] at this
      rw [List.count_erase_self, this]
      rfl
    · rw [List.count_cons_of_ne (Ne.symm hg)] at this
      rw [List.count_erase_of_ne fun h => hg (Prod.mk.inj h).2, this]
  · rw [← hmove]
    exact h.tokens s'

theorem Owns.mem_permits (h : Owns t held as [s] [] w) : (t, s) ∈ w.permits := by
  rw [← List.count_pos_iff, h.permits s, List.count_singleton_self]
  omega

theorem Owns.releasing (h : Owns t held as [s] [] w) (hi : w.Inv) :
    Keeping t w (w.release t s) := by
  refine release_keeping hi h.mem_permits ?_
  rw [h.guards_count s, h.permits s, List.count_singleton_self]
  exact Nat.lt_succ_self _

/-! ### What each operation does for its task -/

/-- After `entry` the task is inside the call, unless the map's mutex is poisoned. -/
def entered (t : Nat) (held : List Guard) (id : String) : Option Nat → Heap → Prop
  | none, w => Held t held w
  | some s, w => Inside t held id s [] [] [] w

/-- After an attempt to take the permit. -/
def taken (t : Nat) (held : List Guard) (id : String) (s : Nat) (ws : List Nat) :
    Bool → Heap → Prop
  | true, w => Inside t held id s [s] [s] [] w
  | false, w => Inside t held id s [s] [] ws w

/-- After the end of the wait. -/
def woken (t : Nat) (held : List Guard) (id : String) (s : Nat) : Wake → Heap → Prop
  | .permit, w => Inside t held id s [s] [s] [] w
  | .closed, _ => False
  | _, w => Inside t held id s [s] [] [s] w

theorem entry_exec {a : Option Nat} (hi : w.Inv) (h : Held t held w)
    (he : LockExec t (.entry id) w a w') : Keeping t w w' ∧ entered t held id a w' := by
  cases he with
  | @entryFound _ _ s hs =>
    have hkey := hi.keyed id s hs
    exact ⟨addArc_keeping hi (by rw [hkey, hs]), h.addArc, hkey⟩
  | @entryNew _ _ s hid hf =>
    refine ⟨insertEntry_keeping hi hid hf, ⟨?_, h.guards, h.tokens, h.waiters⟩,
      Function.update_self _ _ _⟩
    exact (h.addArc (s := s)).arcs
  | entryPoisoned => exact ⟨keeping_refl hi, h⟩

theorem cloneArc_exec {a : Unit} (hi : w.Inv) (h : Inside t held id s [] [] [] w)
    (he : LockExec t (.cloneArc s) w a w') : Keeping t w w' ∧ Inside t held id s [s] [] [] w' := by
  cases he
  exact ⟨addArc_keeping hi (hi.mapped t s h.1.mem_arcs), h.1.addArc, h.2⟩

theorem take_exec (h : Inside t held id s [s] [] [] w) (hi : w.Inv) (hs : 0 < w.available s) :
    Keeping t w (w.take t s) ∧ Inside t held id s [s] [s] [] (w.take t s) :=
  ⟨take_keeping hi hs (h.1.spare (Nat.zero_le _)), h.1.take, h.2⟩

theorem tryAcquire_exec {a : Bool} (hi : w.Inv) (h : Inside t held id s [s] [] [] w)
    (he : LockExec t (.tryAcquire s) w a w') : Keeping t w w' ∧ taken t held id s [] a w' := by
  cases he with
  | tryAcquired hs => exact take_exec h hi hs
  | tryFailed _ => exact ⟨keeping_refl hi, h⟩

theorem poll_exec {a : Bool} (hi : w.Inv) (h : Inside t held id s [s] [] [] w)
    (he : LockExec t (.poll s) w a w') : Keeping t w w' ∧ taken t held id s [s] a w' := by
  cases he with
  | pollReady hs => exact take_exec h hi hs
  | pollPending _ =>
    exact ⟨enqueue_keeping hi (h.1.spare (Nat.zero_le _)), h.1.enqueue, h.2⟩

theorem wake_exec {a : Wake} (hi : w.Inv) (h : Inside t held id s [s] [] [s] w)
    (he : LockExec t (.wake s) w a w') : Keeping t w w' ∧ woken t held id s a w' := by
  cases he with
  | woken hs => exact ⟨keeping_refl hi, h.1.woken hs, h.2⟩
  | elapsed => exact ⟨keeping_refl hi, h⟩
  | cancelled => exact ⟨keeping_refl hi, h⟩

theorem abandon_exec {a : Unit} (hi : w.Inv) (h : Inside t held id s [s] [] [s] w)
    (he : LockExec t (.abandon s) w a w') : Keeping t w w' ∧ Inside t held id s [s] [] [] w' := by
  cases he
  unfold Heap.abandon
  by_cases hs : (t, s) ∈ w.waiters
  · rw [if_pos hs]
    exact ⟨leave_keeping hi, h.1.leave hs, h.2⟩
  · rw [if_neg hs]
    have hown := h.1.woken hs
    refine ⟨hown.releasing hi, hown.release, ?_⟩
    exact (congrFun (handOver_handedOver _ s).key s).trans h.2

/-- Dropping a reference that backs nothing. -/
theorem dropArc_exec {a : Unit} (hn : (ps ++ ws).count s ≤ as.count s) (hi : w.Inv)
    (h : Owns t held (s :: as) ps ws w) (he : LockExec t (.dropArc s) w a w') :
    Keeping t w w' ∧ Owns t held as ps ws w' := by
  cases he
  exact ⟨dropArc_keeping hi h.mem_arcs (h.spare hn), h.dropArc⟩

theorem removeIfIdle_exec {a : Unit} (hi : w.Inv) (h : Held t held w)
    (he : LockExec t (.removeIfIdle id) w a w') : Keeping t w w' ∧ Held t held w' := by
  cases he with
  | removeIfIdle =>
    refine ⟨removeIfIdle_keeping hi, ?_⟩
    unfold Heap.removeIfIdle
    split
    · split
      · exact ⟨h.arcs, h.guards, h.tokens, h.waiters⟩
      · exact h
    · exact h
  | removePoisoned => exact ⟨keeping_refl hi, h⟩

/-- The permit's own reference stays. -/
theorem dropClone_exec {a : Unit} (hi : w.Inv) (h : Inside t held id s [s] [s] [] w)
    (he : LockExec t (.dropArc s) w a w') : Keeping t w w' ∧ Inside t held id s [] [s] [] w' := by
  cases he
  refine ⟨dropArc_keeping hi h.1.mem_arcs (h.1.spare ?_), h.1.dropArc, h.2⟩
  simp

theorem issue_exec {a : Unit} (hi : w.Inv) (h : Inside t held id s [] [s] [] w)
    (he : LockExec t (.issue ⟨id, s⟩) w a w') :
    Keeping t w w' ∧ Held t (⟨id, s⟩ :: held) w' := by
  cases he
  refine ⟨issue_keeping hi h.2 ?_, h.1.issue⟩
  rw [h.1.guards_count, h.1.permits, List.count_singleton_self]
  exact Nat.lt_succ_self _

theorem retire_exec {a : Unit} (hi : w.Inv) (h : Held t (g :: held) w)
    (he : LockExec t (.retire g) w a w') :
    Keeping t w w' ∧ Owns t held [g.semaphore] [g.semaphore] [] w' := by
  cases he
  exact ⟨retire_keeping hi, h.retire⟩

theorem release_exec {a : Unit} (hi : w.Inv) (h : Owns t held [s] [s] [] w)
    (he : LockExec t (.release s) w a w') : Keeping t w w' ∧ Owns t held [s] [] [] w' := by
  cases he
  exact ⟨h.releasing hi, h.release⟩

theorem isLocked_exec {a : Bool} (hi : w.Inv) (h : Held t held w)
    (he : LockExec t (.isLocked id) w a w') : Keeping t w w' ∧ Held t held w' := by
  cases he
  exact ⟨keeping_refl hi, h⟩

/-! ### The programs -/

abbrev Spec (t : Nat) {α : Type} (P : Heap → Prop) (p : Prog LockSig α) (Q : α → Heap → Prop) :
    Prop :=
  Triple machine Heap.Inv Keeps t P p Q

variable {Q : α → Heap → Prop}

theorem entry_spec {k : Option Nat → Prog LockSig α} (hnone : Spec t (Held t held) (k none) Q)
    (hsome : ∀ s, Spec t (Inside t held id s [] [] []) (k (some s)) Q) :
    Spec t (Held t held) (.step (.entry id) k) Q := by
  refine Triple.step (entered t held id) owns_stable (fun _ _ _ => entry_exec) fun a => ?_
  cases a with
  | none => exact hnone
  | some s => exact hsome s

theorem cloneArc_spec {p : Prog LockSig α} (hp : Spec t (Inside t held id s [s] [] []) p Q) :
    Spec t (Inside t held id s [] [] []) (.step (.cloneArc s) fun _ => p) Q :=
  Triple.step (fun _ => Inside t held id s [s] [] []) inside_stable (fun _ _ _ => cloneArc_exec)
    fun _ => hp

/-- Waiting for a permit: it is there at once, or the task joins the queue. -/
theorem poll_spec {k : Bool → Prog LockSig α}
    (hready : Spec t (Inside t held id s [s] [s] []) (k true) Q)
    (hpending : Spec t (Inside t held id s [s] [] [s]) (k false) Q) :
    Spec t (Inside t held id s [s] [] []) (.step (.poll s) k) Q := by
  refine Triple.step (taken t held id s [s]) inside_stable (fun _ _ _ => poll_exec) fun a => ?_
  cases a with
  | true => exact hready
  | false => exact hpending

theorem wake_spec {k : Wake → Prog LockSig α}
    (hpermit : Spec t (Inside t held id s [s] [s] []) (k .permit) Q)
    (hother : ∀ a, a ≠ .permit → a ≠ .closed → Spec t (Inside t held id s [s] [] [s]) (k a) Q) :
    Spec t (Inside t held id s [s] [] [s]) (.step (.wake s) k) Q := by
  refine Triple.step (woken t held id s) inside_stable (fun _ _ _ => wake_exec) fun a => ?_
  cases a with
  | permit => exact hpermit
  | closed => exact fun _ h => h.elim
  | elapsed => exact hother _ (by simp) (by simp)
  | cancelled => exact hother _ (by simp) (by simp)

theorem abandon_spec {p : Prog LockSig α} (hp : Spec t (Inside t held id s [s] [] []) p Q) :
    Spec t (Inside t held id s [s] [] [s]) (.step (.abandon s) fun _ => p) Q :=
  Triple.step (fun _ => Inside t held id s [s] [] []) inside_stable (fun _ _ _ => abandon_exec)
    fun _ => hp

theorem dropArc_spec {p : Prog LockSig α} (hn : (ps ++ ws).count s ≤ as.count s)
    (hp : Spec t (Owns t held as ps ws) p Q) :
    Spec t (Owns t held (s :: as) ps ws) (.step (.dropArc s) fun _ => p) Q :=
  Triple.step (fun _ => Owns t held as ps ws) owns_stable (fun _ _ _ => dropArc_exec hn)
    fun _ => hp

theorem dropArcs_spec {p : Prog LockSig α} (hp : Spec t (Held t held) p Q) :
    Spec t (Inside t held id s [s] [] []) (dropArcs s p) Q :=
  (dropArc_spec (Nat.zero_le _) (dropArc_spec (Nat.zero_le _) hp)).weaken (fun _ h => h.1)
    fun _ _ h => h

theorem removeIfIdle_spec {p : Prog LockSig α} (hp : Spec t (Held t held) p Q) :
    Spec t (Held t held) (.step (.removeIfIdle id) fun _ => p) Q :=
  Triple.step (fun _ => Held t held) owns_stable (fun _ _ _ => removeIfIdle_exec) fun _ => hp

/-- A task with a permit ends up with a guard and the permit's reference. -/
theorem withRelease_spec {f : Guard → α} (hf : ∀ g w, Held t (g :: held) w → Q (f g) w) :
    Spec t (Inside t held id s [s] [s] []) ((withRelease id s).bind fun g => .done (f g)) Q :=
  Triple.step (fun _ => Inside t held id s [] [s] []) inside_stable
    (fun _ _ _ => dropClone_exec) fun _ =>
      Triple.step (fun _ => Held t (⟨id, s⟩ :: held)) inside_stable (fun _ _ _ => issue_exec)
        fun _ => Triple.done fun w h => hf _ w h

/-- The guards held after a call that may have returned one. -/
def acquiredBy (t : Nat) (held : List Guard) : Option Guard → Heap → Prop
  | some g, w => Held t (g :: held) w
  | none, w => Held t held w

theorem lock_spec (id : String) :
    Spec t (Held t held) (lock id)
      (fun r => acquiredBy t held (r.bind Except.toOption)) := by
  refine entry_spec (Triple.done fun w h => h) fun s =>
    cloneArc_spec (poll_spec (withRelease_spec fun _ _ h => h) ?_)
  refine wake_spec (withRelease_spec fun _ _ h => h) fun a hp hc => ?_
  cases a with
  | permit => exact absurd rfl hp
  | closed => exact absurd rfl hc
  | elapsed => exact abandon_spec (dropArcs_spec (removeIfIdle_spec (Triple.done fun w h => h)))
  | cancelled => exact abandon_spec (dropArcs_spec (Triple.done fun w h => h))

theorem tryLock_spec (id : String) :
    Spec t (Held t held) (tryLock id)
      (fun r => acquiredBy t held (r.toOption.bind fun g => g)) := by
  refine entry_spec (Triple.done fun w h => h) fun s => cloneArc_spec ?_
  refine Triple.step (taken t held id s []) inside_stable (fun _ _ _ => tryAcquire_exec)
    fun a => ?_
  cases a with
  | true => exact withRelease_spec fun _ _ h => h
  | false => exact dropArcs_spec (removeIfIdle_spec (Triple.done fun w h => h))

/-- Dropping the first of the held guards returns its permit. -/
theorem dropGuard_spec : Spec t (Held t (g :: held)) (dropGuard g) (fun _ => Held t held) :=
  Triple.step (fun _ => Owns t held [g.semaphore] [g.semaphore] []) owns_stable
    (fun _ _ _ => retire_exec) fun _ =>
      Triple.step (fun _ => Owns t held [g.semaphore] [] []) owns_stable
        (fun _ _ _ => release_exec) fun _ =>
          dropArc_spec (Nat.zero_le _) (removeIfIdle_spec (Triple.done fun _ h => h))

theorem held_of_getElem? {n : Nat} (hg : held[n]? = some g) (w : Heap) (h : Held t held w) :
    Held t (g :: held.eraseIdx n) w := by
  have hperm : List.Perm held (g :: held.eraseIdx n) := by
    obtain ⟨hn, rfl⟩ := List.getElem?_eq_some_iff.mp hg
    exact (List.getElem_cons_eraseIdx_perm hn).symm
  have hmap := hperm.map Guard.semaphore
  refine ⟨fun s => ?_, fun g' => ?_, fun s => ?_, h.waiters⟩
  · rw [← hmap.count_eq]
    exact h.arcs s
  · rw [← hperm.count_eq]
    exact h.guards g'
  · rw [← hmap.count_eq]
    exact h.tokens s

theorem perform_spec (c : Call) : Spec t (Held t held) (c.perform held) (fun r => Held t r.2) := by
  cases c with
  | lock id =>
    refine Triple.bind _ (lock_spec id) fun r => ?_
    match r with
    | some (.ok g) => exact Triple.done fun w h => h
    | some (.error e) => exact Triple.done fun w h => h
    | none => exact Triple.done fun w h => h
  | tryLock id =>
    refine Triple.bind _ (tryLock_spec id) fun r => ?_
    match r with
    | .ok (some g) => exact Triple.done fun w h => h
    | .ok none => exact Triple.done fun w h => h
    | .error e => exact Triple.done fun w h => h
  | isLocked id =>
    exact Triple.step (fun _ => Held t held) owns_stable (fun _ _ _ => isLocked_exec) fun _ =>
      Triple.done fun w h => h
  | drop n =>
    simp only [Call.perform]
    split
    · next g hg =>
      refine Triple.bind _ (dropGuard_spec.weaken (held_of_getElem? hg) fun _ _ h => h) fun _ => ?_
      exact Triple.done fun w h => h
    · exact Triple.done fun w h => h

theorem dropAll_spec : Spec t (Held t held) (dropAll held) (fun _ => Held t []) := by
  induction held with
  | nil => exact Triple.done fun w h => h
  | cons g gs ih => exact Triple.bind _ dropGuard_spec fun _ => ih

theorem run_spec (c : Client) (held : List Guard) :
    Spec t (Held t held) (c.run held) (fun _ => Held t []) := by
  induction c generalizing held with
  | stop => exact dropAll_spec
  | call c k ih => exact Triple.bind _ (perform_spec c) fun r => ih r.1 r.2

/-! ## Mutual exclusion -/

/-- The permits of an id's semaphores are at most one. -/
theorem Heap.Inv.permit_unique (hi : w.Inv) (id : String) :
    w.permits.countP (fun x => w.key x.2 = id) ≤ 1 := by
  have hmapped : ∀ x ∈ w.permits, w.key x.2 = id → w.map id = some x.2 := by
    intro x hx hk
    have hpos := List.count_pos_iff.mpr hx
    have hb := hi.backed x
    have harc : x ∈ w.arcs := List.count_pos_iff.mp (by omega)
    rw [← hk]
    exact hi.mapped x.1 x.2 harc
  cases hid : w.map id with
  | none =>
    refine Nat.le_trans (Nat.le_of_eq (List.countP_eq_zero.mpr ?_)) (Nat.zero_le 1)
    intro x hx hk
    rw [hmapped x hx (by simpa using hk)] at hid
    cases hid
  | some s =>
    have hp := hi.permit id s hid
    refine Nat.le_trans (List.countP_mono_left ?_) (by omega : w.permits.countP (fun x => x.2 = s) ≤ 1)
    intro x hx hk
    have hm := hmapped x hx (by simpa using hk)
    rw [hid] at hm
    simpa using (Option.some.inj hm).symm

/-- The live guards of an id are at most its permits. -/
theorem Heap.Inv.guards_le (hi : w.Inv) (id : String) :
    w.guards.countP (fun x => x.2.uploadId = id) ≤ w.permits.countP (fun x => w.key x.2 = id) := by
  have hsub : (w.guards.map fun y => (y.1, y.2.semaphore)).Subperm w.permits :=
    List.subperm_ext_iff.mpr fun x _ => hi.held x
  refine Nat.le_trans ?_ (hsub.countP_le _)
  rw [List.countP_map]
  refine List.countP_mono_left ?_
  intro x hx hid
  simp only [decide_eq_true_eq] at hid
  simpa [hid] using hi.guarded x.1 x.2 hx

/-- Any number of tasks before they use a locker that is new. -/
def start (tasks : Nat → Option Client) : Interaction.Config LockSig Heap Unit :=
  ⟨⟨⟨fun _ => none, fun _ => 0, fun _ => 0, [], [], [], [], fun _ => ""⟩, []⟩,
    fun t => (tasks t).map (Client.run [])⟩

theorem inv_start (tasks : Nat → Option Client) : (start tasks).snap.world.Inv :=
  ⟨nofun, nofun, nofun, nofun, fun _ => Nat.le_refl _, nofun, fun _ => Nat.le_refl _⟩

theorem held_start (tasks : Nat → Option Client) (t : Nat) :
    Held t [] (start tasks).snap.world :=
  ⟨fun _ => rfl, fun _ => rfl, fun _ => rfl, fun _ => Nat.le_refl _⟩

/-- In every state that any number of tasks can reach, each upload id has at most one live
guard, at most one task has a permit for it, and whoever waits for it or has a permit does so
on the entry that the map gives to newcomers. -/
theorem one_holder_per_id (tasks : Nat → Option Client) (c : Interaction.Config LockSig Heap Unit)
    (hr : Reach machine (start tasks) c) :
    (∀ id, c.snap.world.guards.countP (fun x => x.2.uploadId = id) ≤ 1) ∧
    (∀ id, c.snap.world.permits.countP (fun x => c.snap.world.key x.2 = id) ≤ 1) ∧
    ∀ t s, (t, s) ∈ c.snap.world.waiters ∨ (t, s) ∈ c.snap.world.permits →
      c.snap.world.map (c.snap.world.key s) = some s := by
  have hi : c.snap.world.Inv := by
    refine Triple.reach (P := fun t => Held t []) (Q := fun t _ => Held t []) lawful
      (inv_start tasks) ?_ hr
    intro t p hp
    obtain ⟨client, -, rfl⟩ := Option.map_eq_some_iff.mp hp
    exact ⟨held_start tasks t, run_spec client []⟩
  refine ⟨fun id => Nat.le_trans (hi.guards_le id) (hi.permit_unique id), hi.permit_unique, ?_⟩
  intro t s h
  have hpos : 0 < c.snap.world.permits.count (t, s) + c.snap.world.waiters.count (t, s) := by
    rcases h with h | h
    · exact Nat.add_pos_right _ (List.count_pos_iff.mpr h)
    · exact Nat.add_pos_left (List.count_pos_iff.mpr h) _
  have hb := hi.backed (t, s)
  exact hi.mapped t s (List.count_pos_iff.mp (by omega))

/-- Two tasks lock the upload `a`: the first holds it while the second waits. -/
theorem one_holder_while_another_waits :
    ∃ c, Reach machine (start fun _ => some (.call (.lock "a") fun _ => .stop)) c ∧
      c.snap.world.guards = [(1, ⟨"a", 7⟩)] ∧ c.snap.world.waiters = [(2, 7)] ∧
      c.snap.world.guards.countP (fun x => x.2.uploadId = "a") ≤ 1 := by
  have h := Reach.run (M := machine)
    (c := start fun _ => some (.call (.lock "a") fun _ => .stop)) .refl
    1 (.entry "a") (some 7) rfl (.entryNew rfl ⟨fun _ => nofun, fun _ => nofun⟩)
  have h := h.run 1 (.cloneArc 7) () rfl .cloneArc
  have h := h.run 1 (.poll 7) true rfl (.pollReady (by decide))
  have h := h.run 1 (.dropArc 7) () rfl .dropArc
  have h := h.run 1 (.issue ⟨"a", 7⟩) () rfl .issue
  have h := h.run 2 (.entry "a") (some 7) rfl (.entryFound rfl)
  have h := h.run 2 (.cloneArc 7) () rfl .cloneArc
  have h := h.run 2 (.poll 7) false rfl (.pollPending rfl)
  exact ⟨_, h, rfl, rfl, (one_holder_per_id _ _ h).1 "a"⟩

end MemoryLocker

end TusRs
