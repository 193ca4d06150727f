import Mathlib.Data.List.Perm.Basic
import TusRs.Interaction.Discipline
import TusRs.Protocol.UploadId

/-!
# The file locker

`locking/file.rs`: a lock on an upload is an advisory lock on the inode that the upload's
lock file names. The file is unlinked on release while the lock is still held, so a lock
can land on an inode without a name; the identity check after `flock` rejects those.

Results:

* `tryAcquire_spec`: an acquired descriptor holds the inode its path names.
* `guard_unique`: at every moment of every run at most one guard per upload id is live.
-/

namespace TusRs

open Interaction

namespace FileLocker

/-! ## The file operations -/

/-- The operations on the lock directory, one per system call. `issue` and `retire` mark
where a `LockGuard` is built and where its drop begins; `unfinished` stands where a run
has not come to the next round of a loop, and nothing follows it. -/
inductive FsOp where
  | openCreate (path : String)
  | openExisting (path : String)
  | tryLockExclusive (fd : Nat)
  | fstat (fd : Nat)
  | stat (path : String)
  | removeFile (path : String)
  | unlock (fd : Nat)
  | close (fd : Nat)
  | now
  | sleep (duration : Nat)
  | issue (uploadId : String) (fd : Nat)
  | retire (fd : Nat)
  | unfinished

/-- The operations and their answers; an inode number stands for the pair of device and
inode that the identity check compares. -/
def FsSig : Sig where
  Op := FsOp
  Ans
    | .openCreate _ => Except IoError Nat
    | .openExisting _ => Except IoError Nat
    | .tryLockExclusive _ => Except IoError Unit
    | .fstat _ => Except IoError Nat
    | .stat _ => Except IoError Nat
    | .removeFile _ => Except IoError Unit
    | .unlock _ => Except IoError Unit
    | .close _ => Unit
    | .now => Nat
    | .sleep _ => Unit
    | .issue _ _ => Unit
    | .retire _ => Unit
    | .unfinished => Empty

/-- A lock directory: the names, the open descriptors with the task that opened them, the
advisory lock of each inode, and the live guards by the descriptor they captured. A
descriptor without owner is left over from a task that died. -/
structure Fs where
  dir : String → Option Nat
  file : Nat → Option Nat
  owner : Nat → Option Nat
  flock : Nat → Option Nat
  guards : Nat → Option String

namespace Fs

/-- Task `t` opens the inode `i` as the descriptor `fd`. -/
def openAs (w : Fs) (t fd i : Nat) : Fs :=
  { w with
    file := Function.update w.file fd (some i)
    owner := Function.update w.owner fd (some t) }

def link (w : Fs) (path : String) (i : Nat) : Fs :=
  { w with dir := Function.update w.dir path (some i) }

def unlink (w : Fs) (path : String) : Fs :=
  { w with dir := Function.update w.dir path none }

def lockBy (w : Fs) (i fd : Nat) : Fs :=
  { w with flock := Function.update w.flock i (some fd) }

/-- The advisory locks without those of `fd`. -/
def unlocked (w : Fs) (fd : Nat) : Fs :=
  { w with flock := fun i => if w.flock i = some fd then none else w.flock i }

/-- Closing a descriptor releases its lock. -/
def closed (w : Fs) (fd : Nat) : Fs :=
  { w.unlocked fd with file := Function.update w.file fd none }

def issued (w : Fs) (uploadId : String) (fd : Nat) : Fs :=
  { w with guards := Function.update w.guards fd (some uploadId) }

def retired (w : Fs) (fd : Nat) : Fs :=
  { w with guards := Function.update w.guards fd none }

/-- The guards of a task that dies are gone with it; its descriptors stay open until the
kernel closes them. -/
def orphaned (w : Fs) (t : Nat) : Fs :=
  { w with
    owner := fun fd => if w.owner fd = some t then none else w.owner fd
    guards := fun fd => if w.owner fd = some t then none else w.guards fd }

/-- An inode nothing refers to may be given to a new file. -/
def Free (w : Fs) (i : Nat) : Prop :=
  (∀ path, w.dir path ≠ some i) ∧ ∀ fd, w.file fd ≠ some i

end Fs

/-- What a file operation of task `t` may answer and do. Every call may also fail without
effect. -/
inductive FsExec (t : Nat) : (o : FsOp) → Fs → FsSig.Ans o → Fs → Prop
  | openFound {path : String} {w : Fs} {fd i : Nat} :
      w.dir path = some i → w.file fd = none →
      FsExec t (.openCreate path) w (.ok fd) (w.openAs t fd i)
  | openNew {path : String} {w : Fs} {fd i : Nat} :
      w.dir path = none → w.Free i → w.file fd = none →
      FsExec t (.openCreate path) w (.ok fd) ((w.link path i).openAs t fd i)
  | openFailed {path : String} {w : Fs} {e : IoError} :
      FsExec t (.openCreate path) w (.error e) w
  | openExisting {path : String} {w : Fs} {fd i : Nat} :
      w.dir path = some i → w.file fd = none →
      FsExec t (.openExisting path) w (.ok fd) (w.openAs t fd i)
  | openExistingFailed {path : String} {w : Fs} {e : IoError} :
      FsExec t (.openExisting path) w (.error e) w
  | locked {w : Fs} {fd i : Nat} :
      w.file fd = some i → w.flock i = none →
      FsExec t (.tryLockExclusive fd) w (.ok ()) (w.lockBy i fd)
  | lockFailed {w : Fs} {fd : Nat} {e : IoError} :
      FsExec t (.tryLockExclusive fd) w (.error e) w
  | fstat {w : Fs} {fd i : Nat} :
      w.file fd = some i → FsExec t (.fstat fd) w (.ok i) w
  | fstatFailed {w : Fs} {fd : Nat} {e : IoError} : FsExec t (.fstat fd) w (.error e) w
  | stat {path : String} {w : Fs} {i : Nat} :
      w.dir path = some i → FsExec t (.stat path) w (.ok i) w
  | statFailed {path : String} {w : Fs} {e : IoError} : FsExec t (.stat path) w (.error e) w
  | removed {path : String} {w : Fs} : FsExec t (.removeFile path) w (.ok ()) (w.unlink path)
  | removeFailed {path : String} {w : Fs} {e : IoError} :
      FsExec t (.removeFile path) w (.error e) w
  | unlock {w : Fs} {fd : Nat} : FsExec t (.unlock fd) w (.ok ()) (w.unlocked fd)
  | unlockFailed {w : Fs} {fd : Nat} {e : IoError} : FsExec t (.unlock fd) w (.error e) w
  | close {w : Fs} {fd : Nat} : FsExec t (.close fd) w () (w.closed fd)
  | now {w : Fs} {n : Nat} : FsExec t .now w n w
  | sleep {w : Fs} {d : Nat} : FsExec t (.sleep d) w () w
  | issue {w : Fs} {id : String} {fd : Nat} : FsExec t (.issue id fd) w () (w.issued id fd)
  | retire {w : Fs} {fd : Nat} : FsExec t (.retire fd) w () (w.retired fd)

/-- The lock directory as a machine: a task may die anywhere, and the kernel closes the
descriptors it leaves in any order and at any later time. -/
def machine : Machine FsSig Fs where
  exec := FsExec
  env w w' := ∃ fd, w.owner fd = none ∧ w' = w.closed fd
  halt t w w' := w' = w.orphaned t

/-! ## The locker -/

def maxLockFileNameLen : Nat := 255

def validateUploadId (id : String) : Except Error Unit :=
  match UploadId.parse id with
  | .error e => .error e
  | .ok _ =>
    let len := id.utf8ByteSize + ".lock".utf8ByteSize
    if len > maxLockFileNameLen then
      .error (.invalidUploadId s!"id plus .lock suffix is {len} bytes; max {maxLockFileNameLen}")
    else .ok ()

/-- The name of an id's lock file in the lock directory. -/
def lockName (id : String) : String := id ++ ".lock"

def lockPath (id : String) : Except Error String :=
  match validateUploadId id with
  | .error e => .error e
  | .ok _ => .ok (lockName id)

/-- A `LockGuard` of this locker: what its release closure captured. -/
structure Guard where
  uploadId : String
  path : String
  fd : Nat

def openLockFile (path : String) : Attempt FsSig Error Nat :=
  Prog.step (.openCreate path) fun
    | .ok fd => .done (.ok fd)
    | .error e => .done (.error (.io e))

/-- Whether the locked descriptor still refers to the file at `path`. -/
def isCurrentLockFile (path : String) (fd : Nat) : Attempt FsSig Error Bool :=
  Prog.step (.fstat fd) fun
    | .error e => .done (.error (.io e))
    | .ok held => .step (.stat path) fun
      | .ok current => .done (.ok (current == held))
      | .error .notFound => .done (.ok false)
      | .error e => .done (.error (.io e))

/-- Dropping a `File` that is not needed, before going on with `p`. -/
def dropFile (fd : Nat) {α : Type} (p : Prog FsSig α) : Prog FsSig α :=
  .step (.close fd) fun _ => p

/-- `try_acquire`: the first `n` rounds of its loop. -/
def tryAcquire : Nat → String → Attempt FsSig Error (Option Nat)
  | 0, _ => Prog.step .unfinished nofun
  | n + 1, path => Prog.bind (openLockFile path) fun
    | .error e => .done (.error e)
    | .ok fd => .step (.tryLockExclusive fd) fun
      | .ok () => Prog.bind (isCurrentLockFile path fd) fun
        | .error e => dropFile fd (.done (.error e))
        | .ok true => .done (.ok (some fd))
        -- a stale inode: the file was unlinked or replaced between open and flock
        | .ok false => .step (.unlock fd) fun _ => dropFile fd (tryAcquire n path)
      | .error .wouldBlock => dropFile fd (.done (.ok none))
      | .error e => dropFile fd (.done (.error (.io e)))

/-- `release_lock_file`: unlink while the lock is held, then unlock. -/
def releaseLockFile (path : String) (fd : Nat) : Prog FsSig Unit :=
  .step (.removeFile path) fun _ => .step (.unlock fd) fun _ => dropFile fd (.done ())

/-- `LockGuard::drop` with the release closure of this locker. -/
def dropGuard (g : Guard) : Prog FsSig Unit :=
  .step (.retire g.fd) fun _ => releaseLockFile g.path g.fd

/-- `LockGuard::with_release` with the release closure of this locker. -/
def withRelease (uploadId path : String) (fd : Nat) : Prog FsSig Guard :=
  .step (.issue uploadId fd) fun _ => .done ⟨uploadId, path, fd⟩

/-- The loop of `lock`: its first `n` rounds, each with `m` rounds of `try_acquire`. -/
def lockLoop (retryInterval deadline m : Nat) (uploadId path : String) :
    Nat → Attempt FsSig Error Guard
  | 0 => Prog.step .unfinished nofun
  | n + 1 => Prog.bind (tryAcquire m path) fun
    | .error e => .done (.error e)
    | .ok (some fd) => (withRelease uploadId path fd).bind fun g => .done (.ok g)
    | .ok none => .step .now fun (now : Nat) =>
      if now ≥ deadline then .done (.error (.lockTimeout uploadId))
      else .step .now fun (now' : Nat) =>
        .step (.sleep (min (deadline - now') retryInterval)) fun _ =>
          lockLoop retryInterval deadline m uploadId path n

def lock (retryInterval timeout n m : Nat) (uploadId : String) : Attempt FsSig Error Guard :=
  match lockPath uploadId with
  | .error e => Prog.done (.error e)
  | .ok path => Prog.step .now fun (now : Nat) =>
    lockLoop retryInterval (now + timeout) m uploadId path n

def tryLock (m : Nat) (uploadId : String) : Attempt FsSig Error (Option Guard) :=
  match lockPath uploadId with
  | .error e => Prog.done (.error e)
  | .ok path => Prog.bind (tryAcquire m path) fun
    | .error e => .done (.error e)
    | .ok (some fd) => (withRelease uploadId path fd).bind fun g => .done (.ok (some g))
    | .ok none => .done (.ok none)

def isLocked (uploadId : String) : Attempt FsSig Error Bool :=
  match lockPath uploadId with
  | .error e => Prog.done (.error e)
  | .ok path => Prog.step (.openExisting path) fun
    | .error .notFound => .done (.ok false)
    | .error e => .done (.error (.io e))
    | .ok fd => .step (.tryLockExclusive fd) fun
      | .ok () => .step (.unlock fd) fun _ => dropFile fd (.done (.ok false))
      | .error .wouldBlock => dropFile fd (.done (.ok true))
      | .error e => dropFile fd (.done (.error (.io e)))

/-! ## Tasks that use the locker -/

/-- One use of the locker by a task; `drop n` drops the `n`-th guard it holds. -/
inductive Call where
  | lock (retryInterval timeout n m : Nat) (uploadId : String)
  | tryLock (m : Nat) (uploadId : String)
  | isLocked (uploadId : String)
  | drop (n : Nat)

/-- What a task sees of a call's outcome. -/
inductive Reply where
  | acquired
  | contended
  | probed (locked : Bool)
  | dropped
  | failed (e : Error)

/-- A task: any sequence of calls, each chosen from the replies so far. -/
inductive Client where
  | stop
  | call (c : Call) (k : Reply → Client)

/-- Perform a call with the guards `held`; the result is the guards held afterwards. -/
def Call.perform (held : List Guard) : Call → Prog FsSig (Reply × List Guard)
  | .lock retryInterval timeout n m id =>
    Prog.bind (FileLocker.lock retryInterval timeout n m id) fun
      | .ok g => .done (.acquired, g :: held)
      | .error e => .done (.failed e, held)
  | .tryLock m id => Prog.bind (FileLocker.tryLock m id) fun
    | .ok (some g) => .done (.acquired, g :: held)
    | .ok none => .done (.contended, held)
    | .error e => .done (.failed e, held)
  | .isLocked id => Prog.bind (FileLocker.isLocked id) fun
    | .ok b => .done (.probed b, held)
    | .error e => .done (.failed e, held)
  | .drop n => match held[n]? with
    | some g => (dropGuard g).bind fun _ => .done (.dropped, held.eraseIdx n)
    | none => .done (.dropped, held)

/-- A task at its end drops the guards it still holds. -/
def dropAll : List Guard → Prog FsSig Unit
  | [] => .done ()
  | g :: gs => (dropGuard g).bind fun _ => dropAll gs

def Client.run (held : List Guard) : Client → Prog FsSig Unit
  | .stop => dropAll held
  | .call c k => (c.perform held).bind fun r => (k r.1).run r.2

/-! ## The invariant and what a task relies on -/

/-- A lock is held by a descriptor open on its inode; a live guard's descriptor has an
owner and holds the inode that the guard's lock file names. -/
structure Fs.Inv (w : Fs) : Prop where
  lock_open : ∀ i fd, w.flock i = some fd → w.file fd = some i
  guard_lock : ∀ fd id, w.guards fd = some id →
    w.owner fd ≠ none ∧ ∃ i, w.flock i = some fd ∧ w.dir (lockName id) = some i

/-- Task `t` has `fd` open on `i`. -/
def Fs.Mine (t : Nat) (w : Fs) (fd i : Nat) : Prop :=
  w.owner fd = some t ∧ w.file fd = some i

/-- What `t` relies on: its descriptors, guards and locks stay, and a name of an inode it
has locked stays. -/
def Keeps (t : Nat) (w w' : Fs) : Prop :=
  ∀ fd i, w.Mine t fd i →
    w'.Mine t fd i ∧ w'.guards fd = w.guards fd ∧
    (w.flock i = some fd → w'.flock i = some fd ∧
      ∀ path, w.dir path = some i → w'.dir path = some i)

abbrev Keeping (t : Nat) (w w' : Fs) : Prop := Safe Fs.Inv Keeps t w w'

variable {t : Nat} {w w' : Fs} {fd i : Nat}

theorem keeps_refl (t : Nat) (w : Fs) : Keeps t w w :=
  fun _ _ h => ⟨h, rfl, fun hl => ⟨hl, fun _ hp => hp⟩⟩

theorem keeps_trans (t : Nat) (w₁ w₂ w₃ : Fs) (h₁ : Keeps t w₁ w₂) (h₂ : Keeps t w₂ w₃) :
    Keeps t w₁ w₃ := by
  intro fd i hm
  obtain ⟨hm₂, hg₂, hl₂⟩ := h₁ fd i hm
  obtain ⟨hm₃, hg₃, hl₃⟩ := h₂ fd i hm₂
  refine ⟨hm₃, hg₃.trans hg₂, fun hl => ?_⟩
  obtain ⟨hf₂, hd₂⟩ := hl₂ hl
  obtain ⟨hf₃, hd₃⟩ := hl₃ hf₂
  exact ⟨hf₃, fun path hp => hd₃ path (hd₂ path hp)⟩

theorem keeping_refl (hi : w.Inv) : Keeping t w w := ⟨hi, fun u _ => keeps_refl u w⟩

/-- A guard's descriptor is open. -/
theorem guard_open (hi : w.Inv) {id : String} (hg : w.guards fd = some id) :
    ∃ i, w.file fd = some i ∧ w.flock i = some fd ∧ w.dir (lockName id) = some i := by
  obtain ⟨-, i, hl, hd⟩ := hi.guard_lock fd id hg
  exact ⟨i, hi.lock_open i fd hl, hl, hd⟩

theorem guards_none_of_closed (hi : w.Inv) (hf : w.file fd = none) : w.guards fd = none := by
  cases hg : w.guards fd with
  | none => rfl
  | some id =>
    obtain ⟨i, hopen, -⟩ := guard_open hi hg
    rw [hf] at hopen
    cases hopen

theorem ne_of_guards {fd' : Nat} {id : String} (hg : w.guards fd = none)
    (hg' : w.guards fd' = some id) : fd' ≠ fd := by
  rintro rfl
  rw [hg] at hg'
  cases hg'

theorem ne_of_owner {u fd' : Nat} (ho : w.owner fd ≠ some u) (hm : w.Mine u fd' i) :
    fd' ≠ fd := by
  rintro rfl
  exact ho hm.1

theorem ne_of_other {u fd' : Nat} (ho : w.owner fd = some t) (hu : u ≠ t)
    (hm : w.Mine u fd' i) : fd' ≠ fd := by
  refine ne_of_owner ?_ hm
  rw [ho]
  exact fun h => hu (Option.some.inj h).symm

/-! ### Each change of the directory keeps the invariant and what others rely on -/

theorem openAs_keeping (hi : w.Inv) (hf : w.file fd = none) : Keeping t w (w.openAs t fd i) := by
  have hne : ∀ {fd' j}, w.file fd' = some j → fd' ≠ fd := by
    rintro fd' j hj rfl
    rw [hf] at hj
    cases hj
  refine ⟨⟨fun j fd' hl => ?_, fun fd' id hg => ?_⟩, fun u hu fd' j hm => ?_⟩
  · have hopen := hi.lock_open j fd' hl
    simpa [Fs.openAs, hne hopen] using hopen
  · obtain ⟨ho, j, hl, hd⟩ := hi.guard_lock fd' id hg
    refine ⟨?_, j, hl, hd⟩
    simpa [Fs.openAs, hne (hi.lock_open j fd' hl)] using ho
  · refine ⟨?_, rfl, fun hl => ⟨hl, fun _ hp => hp⟩⟩
    simpa [Fs.Mine, Fs.openAs, hne hm.2] using hm

theorem link_keeping {path : String} (hi : w.Inv) (hd : w.dir path = none) :
    Keeping t w (w.link path i) := by
  have hne : ∀ {path' j}, w.dir path' = some j → path' ≠ path := by
    rintro path' j hj rfl
    rw [hd] at hj
    cases hj
  refine ⟨⟨hi.lock_open, fun fd id hg => ?_⟩, fun u _ fd j hm => ?_⟩
  · obtain ⟨ho, j, hl, hd'⟩ := hi.guard_lock fd id hg
    exact ⟨ho, j, hl, by simpa [Fs.link, hne hd'] using hd'⟩
  · refine ⟨hm, rfl, fun hl => ⟨hl, fun path' hp => ?_⟩⟩
    simpa [Fs.link, hne hp] using hp

theorem lockBy_keeping (hi : w.Inv) (hf : w.file fd = some i) (hl : w.flock i = none) :
    Keeping t w (w.lockBy i fd) := by
  have hne : ∀ {j fd'}, w.flock j = some fd' → j ≠ i := by
    rintro j fd' hj rfl
    rw [hl] at hj
    cases hj
  refine ⟨⟨fun j fd' hj => ?_, fun fd' id hg => ?_⟩, fun u _ fd' j hm => ?_⟩
  · by_cases hji : j = i
    · subst hji
      simp only [Fs.lockBy, Function.update_self, Option.some.injEq] at hj
      exact hj ▸ hf
    · exact hi.lock_open j fd' (by simpa [Fs.lockBy, hji] using hj)
  · obtain ⟨ho, j, hj, hd⟩ := hi.guard_lock fd' id hg
    exact ⟨ho, j, by simpa [Fs.lockBy, hne hj] using hj, hd⟩
  · refine ⟨hm, rfl, fun hj => ⟨?_, fun _ hp => hp⟩⟩
    simpa [Fs.lockBy, hne hj] using hj

theorem unlocked_inv (hi : w.Inv) (hg : w.guards fd = none) : (w.unlocked fd).Inv := by
  refine ⟨fun j fd' hj => ?_, fun fd' id hg' => ?_⟩
  · simp only [Fs.unlocked] at hj
    split at hj
    · cases hj
    · exact hi.lock_open j fd' hj
  · obtain ⟨ho, j, hj, hd⟩ := hi.guard_lock fd' id hg'
    refine ⟨ho, j, ?_, hd⟩
    simpa [Fs.unlocked, hj] using ne_of_guards hg hg'

theorem unlocked_keeps {u : Nat} (hne : w.owner fd ≠ some u) : Keeps u w (w.unlocked fd) := by
  intro fd' j hm
  have hfd := ne_of_owner hne hm
  refine ⟨hm, rfl, fun hj => ⟨?_, fun _ hp => hp⟩⟩
  simpa [Fs.unlocked, hj] using hfd

theorem closed_inv (hi : w.Inv) (hg : w.guards fd = none) : (w.closed fd).Inv := by
  have hi' := unlocked_inv hi hg
  refine ⟨fun j fd' hj => ?_, hi'.guard_lock⟩
  have hopen : w.file fd' = some j := hi'.lock_open j fd' hj
  have hne : fd' ≠ fd := by
    rintro rfl
    simp only [Fs.closed, Fs.unlocked] at hj
    split at hj
    · cases hj
    · next hcond => exact hcond hj
  simpa [Fs.closed, hne] using hopen

theorem closed_keeps {u : Nat} (hne : w.owner fd ≠ some u) : Keeps u w (w.closed fd) := by
  intro fd' j hm
  obtain ⟨-, hg, hl⟩ := unlocked_keeps hne fd' j hm
  have hfd := ne_of_owner hne hm
  exact ⟨by simpa [Fs.Mine, Fs.closed, Fs.unlocked, hfd] using hm, hg, hl⟩

/-- Whoever holds the lock on the inode a path names may unlink the path. -/
theorem unlink_keeping {path : String} (hi : w.Inv) (ho : w.owner fd = some t)
    (hg : w.guards fd = none) (hl : w.flock i = some fd) (hd : w.dir path = some i) :
    Keeping t w (w.unlink path) := by
  have hne : ∀ {path' j fd'}, w.flock j = some fd' → w.dir path' = some j → fd' ≠ fd →
      path' ≠ path := by
    rintro path' j fd' hj hp hfd rfl
    rw [hd, Option.some.injEq] at hp
    subst hp
    rw [hl, Option.some.injEq] at hj
    exact hfd hj.symm
  refine ⟨⟨hi.lock_open, fun fd' id hg' => ?_⟩, fun u hu fd' j hm => ?_⟩
  · obtain ⟨ho', j, hj, hp⟩ := hi.guard_lock fd' id hg'
    have hfd := ne_of_guards hg hg'
    exact ⟨ho', j, hj, by simpa [Fs.unlink, hne hj hp hfd] using hp⟩
  · have hfd := ne_of_other ho hu hm
    refine ⟨hm, rfl, fun hj => ⟨hj, fun path' hp => ?_⟩⟩
    simpa [Fs.unlink, hne hj hp hfd] using hp

theorem issued_keeping {id : String} (hi : w.Inv) (ho : w.owner fd = some t)
    (hl : w.flock i = some fd) (hd : w.dir (lockName id) = some i) :
    Keeping t w (w.issued id fd) := by
  refine ⟨⟨hi.lock_open, fun fd' id' hg => ?_⟩, fun u hu fd' j hm => ?_⟩
  · by_cases hfd : fd' = fd
    · subst hfd
      simp only [Fs.issued, Function.update_self, Option.some.injEq] at hg
      subst hg
      exact ⟨by simp [Fs.issued, ho], i, hl, hd⟩
    · exact hi.guard_lock fd' id' (by simpa [Fs.issued, hfd] using hg)
  · have hfd := ne_of_other ho hu hm
    exact ⟨hm, by simp [Fs.issued, hfd], fun hj => ⟨hj, fun _ hp => hp⟩⟩

theorem retired_keeping (hi : w.Inv) (ho : w.owner fd = some t) :
    Keeping t w (w.retired fd) := by
  refine ⟨⟨hi.lock_open, fun fd' id' hg => ?_⟩, fun u hu fd' j hm => ?_⟩
  · by_cases hfd : fd' = fd
    · subst hfd
      simp [Fs.retired] at hg
    · exact hi.guard_lock fd' id' (by simpa [Fs.retired, hfd] using hg)
  · have hfd := ne_of_other ho hu hm
    exact ⟨hm, by simp [Fs.retired, hfd], fun hj => ⟨hj, fun _ hp => hp⟩⟩

theorem orphaned_keeping (hi : w.Inv) : Keeping t w (w.orphaned t) := by
  refine ⟨⟨hi.lock_open, fun fd id hg => ?_⟩, fun u hu fd j hm => ?_⟩
  · simp only [Fs.orphaned] at hg
    split at hg
    · cases hg
    · next hne =>
      obtain ⟨ho, hrest⟩ := hi.guard_lock fd id hg
      exact ⟨by simpa [Fs.orphaned, hne] using ho, hrest⟩
  · have hne : w.owner fd ≠ some t := by
      rw [hm.1]
      simpa using hu
    refine ⟨⟨by simp [Fs.orphaned, hm.1, hu], hm.2⟩, by simp [Fs.orphaned, hne], ?_⟩
    exact fun hj => ⟨hj, fun _ hp => hp⟩

theorem lawful : (Discipline.mutual Fs.Inv Keeps : Discipline FsSig Fs).Lawful machine := by
  refine Discipline.mutual_lawful keeps_refl keeps_trans ?_ ?_
  · rintro w w' hi ⟨fd, ho, rfl⟩
    have hg : w.guards fd = none := by
      cases hg : w.guards fd with
      | none => rfl
      | some id => exact absurd ho (hi.guard_lock fd id hg).1
    exact ⟨closed_inv hi hg, fun u => closed_keeps (by simp [ho])⟩
  · rintro t w w' hi rfl
    exact orphaned_keeping hi

/-! ### What a task knows between its operations -/

/-- Task `t` holds the guards `held`, on distinct descriptors. -/
def Held (t : Nat) (held : List Guard) (w : Fs) : Prop :=
  (held.map Guard.fd).Nodup ∧
  ∀ g ∈ held, w.guards g.fd = some g.uploadId ∧ g.path = lockName g.uploadId ∧
    ∃ i, w.Mine t g.fd i

/-- Task `t` has `fd` open, without a guard. -/
def Opened (t fd : Nat) (w : Fs) : Prop :=
  w.guards fd = none ∧ ∃ i, w.Mine t fd i

/-- Task `t` has locked the inode of `fd`, whether or not it still has a name. -/
def Locked (t fd : Nat) (w : Fs) : Prop :=
  w.guards fd = none ∧ ∃ i, w.Mine t fd i ∧ w.flock i = some fd

/-- Task `t` has locked the inode that `path` names, without a guard yet or any more. -/
def Acquired (t fd : Nat) (path : String) (w : Fs) : Prop :=
  w.guards fd = none ∧ ∃ i, w.Mine t fd i ∧ w.flock i = some fd ∧ w.dir path = some i

theorem held_stable (t : Nat) (held : List Guard) : Stable Keeps t (Held t held) := by
  rintro w w' ⟨hn, h⟩ hk
  refine ⟨hn, fun g hg => ?_⟩
  obtain ⟨hgd, hpath, i, hm⟩ := h g hg
  obtain ⟨hm', hgd', -⟩ := hk g.fd i hm
  exact ⟨hgd'.trans hgd, hpath, i, hm'⟩

theorem opened_stable (t fd : Nat) : Stable Keeps t (Opened t fd) := by
  rintro w w' ⟨hg, i, hm⟩ hk
  obtain ⟨hm', hg', -⟩ := hk fd i hm
  exact ⟨hg'.trans hg, i, hm'⟩

theorem locked_stable (t fd : Nat) : Stable Keeps t (Locked t fd) := by
  rintro w w' ⟨hg, i, hm, hl⟩ hk
  obtain ⟨hm', hg', hl'⟩ := hk fd i hm
  exact ⟨hg'.trans hg, i, hm', (hl' hl).1⟩

theorem acquired_stable (t fd : Nat) (path : String) :
    Stable Keeps t (Acquired t fd path) := by
  rintro w w' ⟨hg, i, hm, hl, hd⟩ hk
  obtain ⟨hm', hg', hl'⟩ := hk fd i hm
  obtain ⟨hlock, hdir⟩ := hl' hl
  exact ⟨hg'.trans hg, i, hm', hlock, hdir path hd⟩

abbrev Spec (t : Nat) {α : Type} (P : Fs → Prop) (p : Prog FsSig α) (Q : α → Fs → Prop) :
    Prop :=
  Triple machine Fs.Inv Keeps t P p Q

variable {held : List Guard} {α : Type}

/-- Opening a file leaves an unguarded descriptor and the guards as they were. -/
theorem openAs_opened (hi : w.Inv) (hh : Held t held w) (hf : w.file fd = none) :
    Held t held (w.openAs t fd i) ∧ Opened t fd (w.openAs t fd i) := by
  have hg : w.guards fd = none := guards_none_of_closed hi hf
  refine ⟨⟨hh.1, fun g hg => ?_⟩, hg, i, ?_⟩
  · obtain ⟨hgd, hpath, j, hm⟩ := hh.2 g hg
    have hne : g.fd ≠ fd := by
      intro h
      rw [← h, hm.2] at hf
      cases hf
    exact ⟨hgd, hpath, j, by simpa [Fs.Mine, Fs.openAs, hne] using hm⟩
  · simp [Fs.Mine, Fs.openAs]

theorem held_closed (hh : Held t held w) (hg : w.guards fd = none) :
    Held t held (w.closed fd) := by
  refine ⟨hh.1, fun g hg' => ?_⟩
  obtain ⟨hgd, hpath, i, hm⟩ := hh.2 g hg'
  have hne := ne_of_guards hg hgd
  exact ⟨hgd, hpath, i, by simpa [Fs.Mine, Fs.closed, Fs.unlocked, hne] using hm⟩

theorem unlocked_keeping (hi : w.Inv) (ho : Opened t fd w) : Keeping t w (w.unlocked fd) := by
  obtain ⟨hg, i, hm⟩ := ho
  refine ⟨unlocked_inv hi hg, fun u hu => unlocked_keeps ?_⟩
  rw [hm.1]
  exact fun h => hu (Option.some.inj h).symm

theorem closed_keeping (hi : w.Inv) (ho : Opened t fd w) : Keeping t w (w.closed fd) := by
  obtain ⟨hg, i, hm⟩ := ho
  refine ⟨closed_inv hi hg, fun u hu => closed_keeps ?_⟩
  rw [hm.1]
  exact fun h => hu (Option.some.inj h).symm

/-! ### The programs -/

theorem dropFile_spec {p : Prog FsSig α} {Q : α → Fs → Prop}
    (hp : Spec t (Held t held) p Q) :
    Spec t (fun w => Held t held w ∧ Opened t fd w) (dropFile fd p) Q := by
  refine Triple.step (fun _ => Held t held)
    ((held_stable t held).and (opened_stable t fd)) ?_ fun _ => hp
  rintro w _ w' hi ⟨hh, ho⟩ ⟨⟩
  exact ⟨closed_keeping hi ho, held_closed hh ho.1⟩

/-- The result of opening a lock file. -/
def openedBy (t : Nat) (held : List Guard) {ε : Type} : Except ε Nat → Fs → Prop
  | .ok fd, w => Held t held w ∧ Opened t fd w
  | .error _, w => Held t held w

theorem openCreate_spec {path : String} {k : Except IoError Nat → Prog FsSig α}
    {Q : α → Fs → Prop} (hk : ∀ r, Spec t (openedBy t held r) (k r) Q) :
    Spec t (Held t held) (.step (.openCreate path) k) Q := by
  refine Triple.step (openedBy t held) (held_stable t held) ?_ hk
  rintro w a w' hi hh he
  cases he with
  | openFound hd hf => exact ⟨openAs_keeping hi hf, openAs_opened hi hh hf⟩
  | @openNew _ _ fd i hd hfree hf =>
    have hlink : Keeping t w (w.link path i) := link_keeping hi hd
    refine ⟨⟨(openAs_keeping (t := t) hlink.1 hf).1, fun u hu => ?_⟩, openAs_opened hlink.1 hh hf⟩
    exact keeps_trans u _ _ _ (hlink.2 u hu) ((openAs_keeping hlink.1 hf).2 u hu)
  | openFailed => exact ⟨keeping_refl hi, hh⟩

theorem openExisting_spec {path : String} {k : Except IoError Nat → Prog FsSig α}
    {Q : α → Fs → Prop} (hk : ∀ r, Spec t (openedBy t held r) (k r) Q) :
    Spec t (Held t held) (.step (.openExisting path) k) Q := by
  refine Triple.step (openedBy t held) (held_stable t held) ?_ hk
  rintro w a w' hi hh he
  cases he with
  | openExisting hd hf => exact ⟨openAs_keeping hi hf, openAs_opened hi hh hf⟩
  | openExistingFailed => exact ⟨keeping_refl hi, hh⟩

/-- `flock` on an own descriptor: on success its inode is locked by it. -/
theorem tryLockExclusive_spec {k : Except IoError Unit → Prog FsSig α} {Q : α → Fs → Prop}
    (hok : Spec t (fun w => Held t held w ∧ Locked t fd w) (k (.ok ())) Q)
    (herr : ∀ e, Spec t (fun w => Held t held w ∧ Opened t fd w) (k (.error e)) Q) :
    Spec t (fun w => Held t held w ∧ Opened t fd w) (.step (.tryLockExclusive fd) k) Q := by
  refine Triple.step (fun
    | .ok (), w => Held t held w ∧ Locked t fd w
    | .error _, w => Held t held w ∧ Opened t fd w)
    ((held_stable t held).and (opened_stable t fd)) ?_ ?_
  · rintro w a w' hi ⟨hh, hg, i, hm⟩ he
    cases he with
    | @locked _ _ j hf hl =>
      obtain rfl : j = i := Option.some.inj (hf.symm.trans hm.2)
      exact ⟨lockBy_keeping hi hf hl, hh, hg, j, hm, by simp [Fs.lockBy]⟩
    | lockFailed => exact ⟨keeping_refl hi, hh, hg, i, hm⟩
  · rintro (e | ⟨⟩)
    · exact herr e
    · exact hok

theorem opened_of_locked (w : Fs) (h : Held t held w ∧ Locked t fd w) :
    Held t held w ∧ Opened t fd w :=
  ⟨h.1, h.2.1, h.2.2.imp fun _ hl => hl.1⟩

theorem unlock_spec {p : Prog FsSig α} {Q : α → Fs → Prop}
    (hp : Spec t (fun w => Held t held w ∧ Opened t fd w) p Q) :
    Spec t (fun w => Held t held w ∧ Opened t fd w) (.step (.unlock fd) fun _ => p) Q := by
  refine Triple.step (fun _ w => Held t held w ∧ Opened t fd w)
    ((held_stable t held).and (opened_stable t fd)) ?_ fun _ => hp
  rintro w a w' hi ⟨hh, ho⟩ he
  cases he with
  | unlock => exact ⟨unlocked_keeping hi ho, hh, ho⟩
  | unlockFailed => exact ⟨keeping_refl hi, hh, ho⟩

/-- An operation that changes nothing, from a stable assertion. -/
theorem query_spec {P : Fs → Prop} {o : FsOp} {k : FsSig.Ans o → Prog FsSig α}
    {Q : α → Fs → Prop} (hP : Stable Keeps t P)
    (hq : ∀ w a w', FsExec t o w a w' → w' = w) (hk : ∀ a, Spec t P (k a) Q) :
    Spec t P (.step o k) Q := by
  refine Triple.step (fun _ => P) hP ?_ hk
  rintro w a w' hi hp he
  obtain rfl := hq w a w' he
  exact ⟨keeping_refl hi, hp⟩

/-- The identity check accepts only a descriptor whose inode the path names. -/
theorem isCurrentLockFile_spec {path : String} :
    Spec t (fun w => Held t held w ∧ Locked t fd w) (isCurrentLockFile path fd) (fun
      | .ok true, w => Held t held w ∧ Acquired t fd path w
      | _, w => Held t held w ∧ Locked t fd w) := by
  have hst := (held_stable t held).and (locked_stable t fd)
  refine Triple.step (fun
    | .ok i, w => (Held t held w ∧ Locked t fd w) ∧ w.Mine t fd i
    | .error _, w => Held t held w ∧ Locked t fd w) hst ?_ ?_
  · rintro w a w' hi ⟨hh, hl⟩ he
    cases he with
    | @fstat _ _ i hf =>
      obtain ⟨j, hm, -⟩ := hl.2
      exact ⟨keeping_refl hi, ⟨hh, hl⟩, hm.1, hf⟩
    | fstatFailed => exact ⟨keeping_refl hi, hh, hl⟩
  · rintro (e | i)
    · exact Triple.done fun w h => h
    · refine Triple.step (fun
        | .ok j, w => (Held t held w ∧ Locked t fd w) ∧ (j = i → Acquired t fd path w)
        | .error _, w => Held t held w ∧ Locked t fd w)
        (hst.and fun w w' hm hk => (hk fd i hm).1) ?_ ?_
      · rintro w a w' hi ⟨⟨hh, hl⟩, hm⟩ he
        cases he with
        | @stat _ _ j hd =>
          refine ⟨keeping_refl hi, ⟨hh, hl⟩, ?_⟩
          rintro rfl
          obtain ⟨hg, i', hm', hlock⟩ := hl
          obtain rfl : i' = j := Option.some.inj (hm'.2.symm.trans hm.2)
          exact ⟨hg, i', hm, hlock, hd⟩
        | statFailed => exact ⟨keeping_refl hi, hh, hl⟩
      · rintro (e | j)
        · cases e <;> exact Triple.done fun w h => h
        · refine Triple.done fun w h => ?_
          by_cases hji : j = i
          · simp only [hji, beq_self_eq_true]
            exact ⟨h.1.1, h.2 hji⟩
          · simp only [beq_eq_false_iff_ne.mpr hji]
            exact h.1

/-- What `try_acquire` returns is a descriptor that holds the inode its path names; on
every other outcome it leaves nothing open. -/
theorem tryAcquire_spec (n : Nat) (path : String) :
    Spec t (Held t held) (tryAcquire n path) (fun
      | .ok (some fd), w => Held t held w ∧ Acquired t fd path w
      | _, w => Held t held w) := by
  induction n with
  | zero => exact Triple.step (fun a => nomatch a) (held_stable t held) (fun _ a => nomatch a) nofun
  | succ n ih =>
    refine Triple.bind (openedBy t held) ?_ ?_
    · refine openCreate_spec fun r => ?_
      cases r <;> exact Triple.done fun w h => h
    · rintro (e | fd)
      · exact Triple.done fun w h => h
      · refine tryLockExclusive_spec ?_ fun e => ?_
        · refine Triple.bind _ isCurrentLockFile_spec ?_
          rintro (e | ⟨⟩ | ⟨⟩)
          · exact (dropFile_spec (Triple.done fun w h => h)).weaken opened_of_locked fun _ _ h => h
          · exact (unlock_spec (dropFile_spec ih)).weaken opened_of_locked fun _ _ h => h
          · exact Triple.done fun w h => h
        · cases e <;> exact dropFile_spec (Triple.done fun w h => h)

theorem withRelease_spec {uploadId : String} {β : Type} {f : Guard → β} :
    Spec t (fun w => Held t held w ∧ Acquired t fd (lockName uploadId) w)
      ((withRelease uploadId (lockName uploadId) fd).bind fun g => .done (f g))
      (fun b w => ∃ g, b = f g ∧ Held t (g :: held) w) := by
  refine Triple.step (fun _ => Held t (⟨uploadId, lockName uploadId, fd⟩ :: held))
    ((held_stable t held).and (acquired_stable t fd _)) ?_ fun _ =>
      Triple.done fun w h => ⟨_, rfl, h⟩
  rintro w a w' hi ⟨hh, hg, i, hm, hl, hd⟩ ⟨⟩
  refine ⟨issued_keeping hi hm.1 hl hd, ?_, fun g hg' => ?_⟩
  · rw [List.map_cons, List.nodup_cons]
    refine ⟨fun hmem => ?_, hh.1⟩
    obtain ⟨g, hgm, hfd⟩ := List.mem_map.mp hmem
    exact ne_of_guards hg (hh.2 g hgm).1 hfd
  · rcases List.mem_cons.mp hg' with rfl | hgm
    · exact ⟨by simp [Fs.issued], rfl, i, hm⟩
    · obtain ⟨hgd, hrest⟩ := hh.2 g hgm
      exact ⟨by simpa [Fs.issued, ne_of_guards hg hgd] using hgd, hrest⟩

theorem releaseLockFile_spec {path : String} :
    Spec t (fun w => Held t held w ∧ Acquired t fd path w) (releaseLockFile path fd)
      (fun _ => Held t held) := by
  refine Triple.step (fun _ w => Held t held w ∧ Opened t fd w)
    ((held_stable t held).and (acquired_stable t fd path)) ?_ fun _ =>
      unlock_spec (dropFile_spec (Triple.done fun w h => h))
  rintro w a w' hi ⟨hh, hg, i, hm, hl, hd⟩ he
  cases he with
  | removed => exact ⟨unlink_keeping hi hm.1 hg hl hd, hh, hg, i, hm⟩
  | removeFailed => exact ⟨keeping_refl hi, hh, hg, i, hm⟩

/-- Dropping the first of the held guards releases its lock. -/
theorem dropGuard_spec {g : Guard} :
    Spec t (Held t (g :: held)) (dropGuard g) (fun _ => Held t held) := by
  refine Triple.step (fun _ w => Held t held w ∧ Acquired t g.fd g.path w)
    (held_stable t _) ?_ fun _ => releaseLockFile_spec
  rintro w a w' hi hh ⟨⟩
  obtain ⟨hgd, hpath, i, hm⟩ := hh.2 g List.mem_cons_self
  refine ⟨retired_keeping hi hm.1, ⟨(List.nodup_cons.mp hh.1).2, fun g' hg' => ?_⟩,
    by simp [Fs.retired], ?_⟩
  · obtain ⟨hgd', hrest⟩ := hh.2 g' (List.mem_cons_of_mem g hg')
    have hne : g'.fd ≠ g.fd := by
      intro h
      exact (List.nodup_cons.mp hh.1).1 (h ▸ List.mem_map_of_mem hg')
    exact ⟨by simpa [Fs.retired, hne] using hgd', hrest⟩
  · obtain ⟨j, hopen, hl, hd⟩ := guard_open hi hgd
    exact ⟨j, ⟨hm.1, hopen⟩, hl, hpath ▸ hd⟩

/-- The guards held after an acquisition. -/
def acquiredBy (t : Nat) (held : List Guard) : Except Error (Option Guard) → Fs → Prop
  | .ok (some g), w => Held t (g :: held) w
  | _, w => Held t held w

theorem lockLoop_spec (retryInterval deadline m n : Nat) (uploadId : String) :
    Spec t (Held t held) (lockLoop retryInterval deadline m uploadId (lockName uploadId) n)
      (fun r => acquiredBy t held (r.map some)) := by
  induction n with
  | zero => exact Triple.step (fun a => nomatch a) (held_stable t held) (fun _ a => nomatch a) nofun
  | succ n ih =>
    refine Triple.bind _ (tryAcquire_spec m _) ?_
    rintro (e | _ | fd)
    · exact Triple.done fun w h => h
    · refine query_spec (held_stable t held) (by rintro w a w' ⟨⟩; rfl) fun now => ?_
      split
      · exact Triple.done fun w h => h
      · refine query_spec (held_stable t held) (by rintro w a w' ⟨⟩; rfl) fun now' => ?_
        exact query_spec (held_stable t held) (by rintro w a w' ⟨⟩; rfl) fun _ => ih
    · refine withRelease_spec.weaken (fun _ h => h) ?_
      rintro _ w ⟨g, rfl, h⟩
      exact h

theorem lockPath_eq {id path : String} (h : lockPath id = .ok path) : path = lockName id := by
  unfold lockPath at h
  split at h
  · cases h
  · exact (Except.ok.inj h).symm

theorem lock_spec (retryInterval timeout n m : Nat) (uploadId : String) :
    Spec t (Held t held) (lock retryInterval timeout n m uploadId)
      (fun r => acquiredBy t held (r.map some)) := by
  unfold lock
  split
  · exact Triple.done fun w h => h
  · next path hpath =>
    rw [lockPath_eq hpath]
    exact query_spec (held_stable t held) (by rintro w a w' ⟨⟩; rfl) fun now =>
      lockLoop_spec _ _ _ _ _

theorem tryLock_spec (m : Nat) (uploadId : String) :
    Spec t (Held t held) (tryLock m uploadId) (acquiredBy t held) := by
  unfold tryLock
  split
  · exact Triple.done fun w h => h
  · next path hpath =>
    rw [lockPath_eq hpath]
    refine Triple.bind _ (tryAcquire_spec m _) ?_
    rintro (e | _ | fd)
    · exact Triple.done fun w h => h
    · exact Triple.done fun w h => h
    · refine withRelease_spec.weaken (fun _ h => h) ?_
      rintro _ w ⟨g, rfl, h⟩
      exact h

/-- The probe leaves nothing behind. -/
theorem isLocked_spec (uploadId : String) :
    Spec t (Held t held) (isLocked uploadId) (fun _ => Held t held) := by
  unfold isLocked
  split
  · exact Triple.done fun w h => h
  · refine openExisting_spec ?_
    rintro (e | fd)
    · cases e <;> exact Triple.done fun w h => h
    · refine tryLockExclusive_spec ?_ fun e => ?_
      · have hclose : Spec t (fun w => Held t held w ∧ Opened t fd w)
            (dropFile fd (.done (.ok false : Except Error Bool))) (fun _ => Held t held) :=
          dropFile_spec (Triple.done fun w h => h)
        exact (unlock_spec hclose).weaken opened_of_locked fun _ _ h => h
      · cases e <;> exact dropFile_spec (Triple.done fun w h => h)

theorem held_of_getElem? {n : Nat} {g : Guard} (hg : held[n]? = some g) (w : Fs)
    (hh : Held t held w) : Held t (g :: held.eraseIdx n) w := by
  have hperm : List.Perm held (g :: held.eraseIdx n) := by
    obtain ⟨hn, rfl⟩ := List.getElem?_eq_some_iff.mp hg
    exact (List.getElem_cons_eraseIdx_perm hn).symm
  exact ⟨(hperm.map Guard.fd).nodup_iff.mp hh.1, fun g' hg' => hh.2 g' (hperm.mem_iff.mpr hg')⟩

theorem perform_spec (c : Call) :
    Spec t (Held t held) (c.perform held) (fun r => Held t r.2) := by
  cases c with
  | lock retryInterval timeout n m id =>
    refine Triple.bind _ (lock_spec retryInterval timeout n m id) ?_
    rintro (e | g) <;> exact Triple.done fun w h => h
  | tryLock m id =>
    refine Triple.bind _ (tryLock_spec m id) ?_
    rintro (e | _ | g) <;> exact Triple.done fun w h => h
  | isLocked id =>
    refine Triple.bind _ (isLocked_spec id) ?_
    rintro (e | b) <;> exact Triple.done fun w h => h
  | drop n =>
    simp only [Call.perform]
    split
    · next g hg =>
      refine Triple.bind _ (dropGuard_spec.weaken (held_of_getElem? hg) fun _ _ h => h) fun _ => ?_
      exact Triple.done fun w h => h
    · exact Triple.done fun w h => h

theorem dropAll_spec : Spec t (Held t held) (dropAll held) (fun _ => Held t []) := by
  induction held with
  | nil => exact Triple.done fun w h => h
  | cons g gs ih => exact Triple.bind _ dropGuard_spec fun _ => ih

theorem run_spec (c : Client) (held : List Guard) :
    Spec t (Held t held) (c.run held) (fun _ => Held t []) := by
  induction c generalizing held with
  | stop => exact dropAll_spec
  | call c k ih => exact Triple.bind _ (perform_spec c) fun r => ih r.1 r.2

/-! ## Mutual exclusion -/

/-- Two live guards of one upload are the same guard. -/
theorem Fs.Inv.guard_unique (hi : w.Inv) {id : String} {fd fd' : Nat}
    (h : w.guards fd = some id) (h' : w.guards fd' = some id) : fd = fd' := by
  obtain ⟨-, i, hl, hd⟩ := hi.guard_lock fd id h
  obtain ⟨-, j, hl', hd'⟩ := hi.guard_lock fd' id h'
  obtain rfl : i = j := Option.some.inj (hd.symm.trans hd')
  exact Option.some.inj (hl.symm.trans hl')

/-- A lock directory before any task uses it: there may be lock files, but nothing is
open, locked or guarded. -/
def Fs.Idle (w : Fs) : Prop :=
  (∀ fd, w.file fd = none) ∧ (∀ i, w.flock i = none) ∧ ∀ fd, w.guards fd = none

/-- The start of a run: an idle directory and any number of tasks. -/
def start (w : Fs) (tasks : Nat → Option Client) : Interaction.Config FsSig Fs Unit :=
  ⟨⟨w, []⟩, fun t => (tasks t).map (Client.run [])⟩

/-- In every state that any number of tasks can reach, each upload has at most one live
guard. -/
theorem live_guard_unique (w : Fs) (hw : w.Idle) (tasks : Nat → Option Client)
    (c : Interaction.Config FsSig Fs Unit) (hr : Reach machine (start w tasks) c) (id : String)
    (fd fd' : Nat) (h : c.snap.world.guards fd = some id)
    (h' : c.snap.world.guards fd' = some id) : fd = fd' := by
  have hinit : w.Inv :=
    ⟨fun i fd hl => by simp [hw.2.1] at hl, fun fd id hg => by simp [hw.2.2] at hg⟩
  have hheld : ∀ t, Held t [] w := fun t => ⟨List.nodup_nil, fun g hg => nomatch hg⟩
  have hinv : c.snap.world.Inv := by
    refine Triple.reach (P := fun t => Held t []) (Q := fun t _ => Held t []) lawful hinit ?_ hr
    intro t p hp
    obtain ⟨client, -, rfl⟩ := Option.map_eq_some_iff.mp hp
    exact ⟨hheld t, run_spec client []⟩
  exact hinv.guard_unique h h'

/-- Tasks that each try to lock the upload `a` once, in an empty directory. -/
theorem live_guard_unique_contended :
    ∃ c, Reach machine
        (start ⟨fun _ => none, fun _ => none, fun _ => none, fun _ => none, fun _ => none⟩
          fun _ => some (.call (.tryLock 1 "a") fun _ => .stop)) c ∧
      c.snap.world.guards 7 = some "a" ∧ ∀ fd, c.snap.world.guards fd = some "a" → 7 = fd := by
  have h := Reach.run (M := machine) (c := start
      ⟨fun _ => none, fun _ => none, fun _ => none, fun _ => none, fun _ => none⟩
      fun _ => some (.call (.tryLock 1 "a") fun _ => .stop)) .refl
    3 (.openCreate "a.lock") (.ok 7) rfl (.openNew (i := 5) rfl (by simp [Fs.Free, start]) rfl)
  have h := h.run 3 (.tryLockExclusive 7) (.ok ()) rfl (.locked (i := 5) rfl rfl)
  have h := h.run 3 (.fstat 7) (.ok 5) rfl (.fstat rfl)
  have h := h.run 3 (.stat "a.lock") (.ok 5) rfl (.stat rfl)
  have h := h.run 3 (.issue "a" 7) () rfl .issue
  refine ⟨_, h, rfl, fun fd hfd => ?_⟩
  exact live_guard_unique _ ⟨fun _ => rfl, fun _ => rfl, fun _ => rfl⟩ _ _ h "a" 7 fd rfl hfd

end FileLocker

end TusRs
