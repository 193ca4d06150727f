import TusRs.System.Runs

/-!
# What a request has done before

What a request may perform depends on what it has performed: locks are taken while nothing
is held, effects come after the hook that gates them, announcements after the effects, and
the record of a final upload after the concatenation it describes. `Earned` says so for
each operation, over the log of the request.

* `Steady`, `Settled`: assertions on logs that later calls do not change.
* `Does`: specifications of attempts that keep an assertion, and their rules.
* `Uses`: the same for attempts that may use up a part of what holds before them.
-/

namespace TusRs

open Interaction

open Protocol

namespace System.Requests

/-- What a request has performed, newest first. -/
abbrev Log := List (Call (Host ObjectSig))

/-! ## Logs -/

/-- The locks held after one more call. -/
def holdAfter (ids : List String) : Call (Host ObjectSig) → List String
  | ⟨.lock id, (r : Except Error Unit)⟩ =>
    match r with
    | .ok _ => id :: ids
    | .error _ => ids
  | ⟨.tryLock id, (r : Except Error Bool)⟩ =>
    match r with
    | .ok true => id :: ids
    | _ => ids
  | ⟨.unlock id, _⟩ => ids.erase id
  | _ => ids

/-- The locks a request holds. -/
def held : Log → List String
  | [] => []
  | c :: φ => holdAfter (held φ) c

/-- The upload whose completion a PreFinish hook has accepted and no PostFinish announced. -/
def pending : Log → Option String
  | [] => none
  | ⟨.hookPre .preFinish state, (r : Except Error PreHookResult)⟩ :: φ =>
    match r with
    | .ok result => if result.proceed then some state.id else pending φ
    | .error _ => pending φ
  | ⟨.hookPost .postFinish _, _⟩ :: _ => none
  | _ :: φ => pending φ

/-- The call that found the record. -/
def got (id : String) (state : UploadState) : Call (Host ObjectSig) :=
  ⟨.stateGet id, .ok (some state)⟩

/-- The call that wrote the record. -/
def wrote (mode : WriteMode) (state : UploadState) : Call (Host ObjectSig) :=
  ⟨.stateSet state mode, .ok ()⟩

/-- The call that made an object. -/
def made (id : String) (h : StorageHandle) : Call (Host ObjectSig) :=
  ⟨.storage (.create id), .ok h⟩

/-- The call that removed an object. -/
def erased (h : StorageHandle) : Call (Host ObjectSig) :=
  ⟨.storage (.delete h), .ok ()⟩

/-- The request saw `c` after `c₀`. -/
def After (c₀ c : Call (Host ObjectSig)) (φ : Log) : Prop :=
  ∃ recent earlier, φ = recent ++ c :: earlier ∧ c₀ ∈ earlier

/-- A hook accepted the upload as it was presented. -/
def Accepted (event : HookEvent) (state : UploadState) (φ : Log) : Prop :=
  ∃ result : PreHookResult, result.proceed = true ∧
    (⟨.hookPre event state, .ok result⟩ : Call (Host ObjectSig)) ∈ φ

/-- The request has written the first record of an upload. -/
def Began (id : String) (φ : Log) : Prop :=
  ∃ state, state.id = id ∧ wrote .createNew state ∈ φ

/-- No response of the request has left. -/
def Unannounced (φ : Log) : Prop :=
  ∀ id, (⟨.respond id, ()⟩ : Call (Host ObjectSig)) ∉ φ

/-- Storage gave out the handle in this request. -/
def GivenOut (h : StorageHandle) : Call (Host ObjectSig) → Prop
  | ⟨.storage (.create _), (r : Except Error StorageHandle)⟩ => r = .ok h
  | ⟨.storage (.append _ _ _ _), (r : Except Error StorageHandle)⟩ => r = .ok h
  | ⟨.storage (.concat _ _), (r : Except Error StorageHandle)⟩ => r = .ok h
  | _ => False

/-- The handle is that of a record that a PATCH has read, or of an object that the request has
made and not announced. -/
def HandleOf (request : Request) (id : String) (h : StorageHandle) (φ : Log) : Prop :=
  ((∃ headers target body, request = .patch headers target body) ∧
    ∃ key state, got key state ∈ φ ∧ state.id = id ∧ state.handle = some h) ∨
  made id h ∈ φ ∧ Unannounced φ

/-! ## Final uploads -/

/-- The handles are those of records the request has read for `ids`, in their order. -/
def SourcesRead (ids : List String) (sources : List StorageHandle) (φ : Log) : Prop :=
  List.Forall₂ (fun id source => ∃ part, got id part ∈ φ ∧ part.handle = some source) ids sources

/-- The handle is that of the record, or storage answered it when it replaced the object. -/
def HandleFrom (old : UploadState) (h : StorageHandle) (φ : Log) : Prop :=
  old.handle = some h ∨ ∃ target sources, old.handle = some target ∧
    (⟨.storage (.concat target sources), .ok h⟩ : Call (Host ObjectSig)) ∈ φ

/-- The object `h` is that of a final upload `id` made of `ids`: the request has made it and not
answered, or has read its record. -/
def TargetOf (id : String) (ids : List String) (h : StorageHandle) (φ : Log) : Prop :=
  made id h ∈ φ ∧ Unannounced φ ∨
    ∃ key old, got key old ∈ φ ∧ old.id = id ∧ old.handle = some h ∧ old.parts = some ids

/-- The last call joined the objects of `ids` and answered the handle of `state`. -/
def JustJoined (state : UploadState) (ids : List String) (φ : Log) : Prop :=
  ∃ target sources h earlier,
    φ = ⟨.storage (.concat target sources), .ok h⟩ :: earlier ∧ state.handle = some h ∧
      SourcesRead ids sources earlier

/-- The last call made the object of `state`. -/
def JustMade (state : UploadState) (φ : Log) : Prop :=
  ∃ h earlier, φ = made state.id h :: earlier ∧ state.handle = some h

/-- The record counts parts that are not ready to be joined. -/
structure Counts (parts : List UploadState) (state : UploadState) : Prop where
  unready : (statusOf parts).readyToMaterialize = false
  offset : state.offset = (statusOf parts).expectedOffset
  length : ∀ l, (statusOf parts).totalLength = some l → state.length = some l

/-- What precedes the first record of a final upload. -/
def FinalBegins (state : UploadState) (φ : Log) : Prop :=
  ∃ ids, state.parts = some ids ∧ (JustJoined state ids φ ∨
    JustMade state φ ∧ ∃ parts, List.Forall₂ (fun id part => got id part ∈ φ) ids parts ∧
      (∀ part ∈ parts, part.isPartial = true) ∧ Counts parts state ∧
      ((statusOf parts).totalLength = none → state.length = none))

/-- Storage has reported the recorded length; only hooks ran since. -/
def Measured (state : UploadState) (φ : Log) : Prop :=
  ∃ recent h earlier, ∃ n : Option Nat, φ = recent ++ ⟨.storage (.size h), .ok n⟩ :: earlier ∧
    (∀ c ∈ recent, ∃ event s, c.op = .hookPre event s) ∧ state.handle = some h ∧
    state.length = some (n.getD 0)

/-- The record continues one that was read, and counts parts read after it. -/
def CountsParts (state : UploadState) (φ : Log) : Prop :=
  ∃ id old ids parts, state.id = old.id ∧ old.isFinal = true ∧ old.parts = some ids ∧
    List.Forall₂ (fun partId part => After (got id old) (got partId part) φ) ids parts ∧
    Counts parts state ∧ ((statusOf parts).totalLength = none → state.length = old.length)

/-- What precedes a later record of a final upload. -/
def FinalContinues (state : UploadState) (φ : Log) : Prop :=
  state.handle = none ∨ Measured state φ ∨ (∃ ids, JustJoined state ids φ) ∨ CountsParts state φ

/-! ## What is earned -/

/-- The bytes of the record went in the last call. -/
def JustErased (state : UploadState) (φ : Log) : Prop :=
  ∀ h, state.handle = some h → ∃ earlier, φ = erased h :: earlier

/-- The request may remove the upload whose record it has read: the hook accepted it, or this
is a reclamation. -/
def MayRemove (request : Request) (state : UploadState) (φ : Log) : Prop :=
  (∃ before, request = .reclaim before) ∨ Accepted .preTerminate state φ

/-- What precedes the announcement of an event. -/
def Announced (state : UploadState) (φ : Log) : HookEvent → Prop
  | .postCreate => Began state.id φ
  | .postReceive => wrote .update state ∈ φ ∧ ∃ h offset data completes h',
      (⟨.storage (.append h offset data completes), .ok h'⟩ : Call (Host ObjectSig)) ∈ φ ∧
        state.handle = some h'
  | .postFinish => pending φ = some state.id ∧ state.isComplete = true ∧
      ∃ mode, wrote mode state ∈ φ
  | .postTerminate => Accepted .preTerminate state φ ∧
      (⟨.stateDelete state.id, .ok ()⟩ : Call (Host ObjectSig)) ∈ φ
  | _ => False

/-- What a request has done before it performs an operation. -/
def Earned (request : Request) (φ : Log) : HostOp ObjectSig → Prop
  | .lock _ => held φ = []
  | .unlock id => id ∈ held φ
  | .stateSet state .createNew => (∃ s, s.id = state.id ∧ Accepted .preCreate s φ) ∧
      (∃ h, made state.id h ∈ φ) ∧ (state.isFinal = true → FinalBegins state φ)
  | .stateSet state .update => state.isFinal = true → FinalContinues state φ
  | .stateDelete id => (Began id φ ∧ Unannounced φ) ∨ ∃ key state, got key state ∈ φ ∧
      state.id = id ∧ JustErased state φ ∧ MayRemove request state φ
  | .hookPost event state => Announced state φ event
  | .respond id => Began id φ
  | .storage (.create id) => ∃ s, s.id = id ∧ Accepted .preCreate s φ
  | .storage (.append h _ _ _) => ∃ s, Accepted .preReceive s φ ∧
      HandleOf request s.id h φ
  | .storage (.concat h sources) => ∃ id ids, pending φ = some id ∧ TargetOf id ids h φ ∧
      SourcesRead ids sources φ
  | .storage (.delete h) => (∃ id h', made id h' ∈ φ ∧ ∃ c ∈ φ, GivenOut h c) ∨
      ∃ key state, got key state ∈ φ ∧ state.handle = some h ∧ MayRemove request state φ
  | _ => True

/-! ## Facts about logs -/

/-- Operations on locks, and the response to a creation. -/
def OnLock : HostOp ObjectSig → Prop
  | .lock _ | .tryLock _ | .unlock _ | .respond _ => True
  | _ => False

/-- The same, and the hooks of a completion. -/
def OnFinish : HostOp ObjectSig → Prop
  | .hookPre .preFinish _ | .hookPost .postFinish _ => True
  | o => OnLock o

/-- The assertion lasts, whatever operations outside `E` are performed. -/
def Steady (E : HostOp ObjectSig → Prop) (P : Log → Prop) : Prop :=
  ∀ φ c, ¬E c.op → P φ → P (c :: φ)

/-- A fact about a log that no later call changes. -/
def Settled (K : Log → Prop) : Prop := ∀ φ c, K φ → K (c :: φ)

variable {E E' : HostOp ObjectSig → Prop} {P P' K K' : Log → Prop}

theorem Steady.and_settled (hP : Steady E P) (hK : Settled K) : Steady E fun φ => P φ ∧ K φ :=
  fun φ c hc h => ⟨hP φ c hc h.1, hK φ c h.2⟩

theorem Steady.and (hP : Steady E P) (hP' : Steady E P') : Steady E fun φ => P φ ∧ P' φ :=
  fun φ c hc h => ⟨hP φ c hc h.1, hP' φ c hc h.2⟩

theorem Steady.mono (hP : Steady E P) (h : ∀ o, E o → E' o) : Steady E' P :=
  fun φ c hc => hP φ c fun he => hc (h _ he)

theorem onLock_onFinish {o : HostOp ObjectSig} (h : OnLock o) : OnFinish o := by
  unfold OnFinish
  split
  · trivial
  · trivial
  · exact h

theorem Steady.finish (hP : Steady OnLock P) : Steady OnFinish P :=
  hP.mono fun _ => onLock_onFinish

theorem settled_mem (c : Call (Host ObjectSig)) : Settled fun φ => c ∈ φ :=
  fun _ _ h => List.mem_cons_of_mem _ h

theorem settled_const (c : Prop) : Settled fun _ => c := fun _ _ h => h

theorem Settled.and (hK : Settled K) (hK' : Settled K') : Settled fun φ => K φ ∧ K' φ :=
  fun φ c h => ⟨hK φ c h.1, hK' φ c h.2⟩

theorem settled_exists {β : Type} {K : β → Log → Prop} (hK : ∀ b, Settled (K b)) :
    Settled fun φ => ∃ b, K b φ :=
  fun φ c h => h.imp fun b hb => hK b φ c hb

theorem settled_accepted (event : HookEvent) (state : UploadState) :
    Settled (Accepted event state) :=
  settled_exists fun _ => (settled_const _).and (settled_mem _)

theorem settled_began (id : String) : Settled (Began id) :=
  settled_exists fun _ => (settled_const _).and (settled_mem _)

theorem settled_after (c₀ c : Call (Host ObjectSig)) : Settled (After c₀ c) := by
  rintro φ c' ⟨recent, earlier, rfl, h⟩
  exact ⟨c' :: recent, earlier, rfl, h⟩

theorem After.mem {c₀ c : Call (Host ObjectSig)} {φ : Log} (h : After c₀ c φ) : c ∈ φ := by
  obtain ⟨recent, earlier, rfl, _⟩ := h
  exact List.mem_append_right _ (List.mem_cons_self ..)

theorem settled_forall₂ {α β : Type} {R : α → β → Log → Prop} (hR : ∀ a b, Settled (R a b))
    (as : List α) (bs : List β) : Settled fun φ => List.Forall₂ (fun a b => R a b φ) as bs :=
  fun φ c h => h.imp fun a b hab => hR a b φ c hab

theorem Settled.steady (hK : Settled K) : Steady E K := fun φ c _ h => hK φ c h

theorem steady_held (ids : List String) : Steady OnLock fun φ => held φ = ids := by
  rintro φ ⟨o, a⟩ ho h
  cases o with
  | lock id => exact absurd trivial ho
  | tryLock id => exact absurd trivial ho
  | unlock id => exact absurd trivial ho
  | _ => exact h

theorem steady_unannounced : Steady OnLock Unannounced := by
  rintro φ ⟨o, a⟩ ho h id hmem
  cases List.mem_cons.mp hmem with
  | inl heq =>
    cases heq
    exact ho trivial
  | inr hmem => exact h id hmem

theorem steady_pending (r : Option String) : Steady OnFinish fun φ => pending φ = r := by
  rintro φ ⟨o, a⟩ ho h
  cases o with
  | hookPre event state =>
    cases event with
    | preFinish => exact absurd trivial ho
    | _ => exact h
  | hookPost event state =>
    cases event with
    | postFinish => exact absurd trivial ho
    | _ => exact h
  | _ => exact h

/-! ## Rules -/

section Rules

variable {request : Request} {α β : Type} {Q : α → Log → Prop} {A : α → Log → Prop}
  {B : β → Log → Prop}

/-- From a log in `P` the program performs only what is earned and ends in `Q`. -/
abbrev Keeps (request : Request) (P : Log → Prop) (p : Prog (Host ObjectSig) α)
    (Q : α → Log → Prop) : Prop :=
  (Watch.log (Earned request)).Habit P p Q

/-- The attempt keeps `P`, and its values are in `A`. -/
def Does (request : Request) (P : Log → Prop) (p : HostM ObjectSig α) (A : α → Log → Prop) :
    Prop :=
  Keeps request P p fun r φ => P φ ∧ ∀ a, r = .ok a → A a φ

/-- One operation outside `E`, which is earned. -/
theorem Keeps.perform {o : HostOp ObjectSig}
    {k : (Host ObjectSig).Ans o → Prog (Host ObjectSig) α} (hP : Steady E P) (ho : ¬E o)
    (hearned : ∀ φ, P φ → Earned request φ o)
    (hk : ∀ a, Keeps request (fun φ => P φ ∧ ⟨o, a⟩ ∈ φ) (k a) Q) :
    Keeps request P (.step o k) Q :=
  .step (fun a φ => P φ ∧ ⟨o, a⟩ ∈ φ) hearned
    (fun φ a h => ⟨hP φ ⟨o, a⟩ ho h, List.mem_cons_self ..⟩) hk

namespace Does

theorem weaken {A' : α → Log → Prop} {p : HostM ObjectSig α} (h : Does request P p A)
    (hA : ∀ a φ, P φ → A a φ → A' a φ) : Does request P p A' :=
  Watch.Habit.weaken h (fun _ h => h) fun _ φ h => ⟨h.1, fun a ha => hA a φ h.1 (h.2 a ha)⟩

/-- The same assertion in other words. -/
theorem reframe {R : Log → Prop} {p : HostM ObjectSig α} (h : Does request R p A)
    (hpre : ∀ φ, P φ → R φ) (hpost : ∀ φ, R φ → P φ) : Does request P p A :=
  Watch.Habit.weaken h hpre fun _ φ h => ⟨hpost φ h.1, h.2⟩

theorem pure {a : α} (h : ∀ φ, P φ → A a φ) : Does request P (pure a) A :=
  .done fun φ hφ => ⟨hφ, fun _ ha => Except.ok.inj ha ▸ h φ hφ⟩

theorem error (e : Error) : Does request P (Prog.done (.error e)) A :=
  .done fun _ hφ => ⟨hφ, fun _ ha => nomatch ha⟩

theorem throw (e : Error) : Does request P (throw e) A := error e

theorem lift {r : Except Error α} (h : ∀ a φ, r = .ok a → P φ → A a φ) :
    Does request P (Attempt.lift r) A :=
  .done fun φ hφ => ⟨hφ, fun a ha => h a φ ha hφ⟩

/-- The rest runs after a value; what is known of it is kept. -/
theorem seq {p : HostM ObjectSig α} {f : α → HostM ObjectSig β} (hp : Does request P p A)
    (hf : ∀ a, Does request (fun φ => P φ ∧ A a φ) (f a) B) : Does request P (p >>= f) B :=
  Watch.Habit.andThen _ hp
    (fun a => Watch.Habit.weaken (hf a) (fun _ h => ⟨h.1, h.2 a rfl⟩) fun _ _ h => ⟨h.1.1, h.2⟩)
    fun _ _ h => ⟨h.1, fun _ ha => nomatch ha⟩

theorem ite {p q : HostM ObjectSig α} {c : Prop} [Decidable c] (hp : c → Does request P p A)
    (hq : ¬c → Does request P q A) : Does request P (if c then p else q) A :=
  Watch.Habit.ite hp hq

/-- One operation outside `E`, which is earned. -/
theorem perform {o : HostOp ObjectSig}
    {k : (Host ObjectSig).Ans o → Prog (Host ObjectSig) (Except Error α)} (hP : Steady E P)
    (ho : ¬E o) (hearned : ∀ φ, P φ → Earned request φ o)
    (hk : ∀ a, Does request (fun φ => P φ ∧ ⟨o, a⟩ ∈ φ) (k a : HostM ObjectSig α) A) :
    Does request P (Prog.step o k) A :=
  Keeps.perform hP ho hearned fun a =>
    Watch.Habit.weaken (hk a) (fun _ h => h) fun _ _ h => ⟨h.1.1, h.2⟩

/-- The error of an attempt becomes a value. -/
theorem outcome {p : HostM ObjectSig α} (hp : Does request P p A) :
    Does request P (Attempt.outcome p) fun r φ => ∀ a, r = .ok a → A a φ :=
  Watch.Habit.bind _ hp fun _ => .done fun _ h => ⟨h.1, fun _ ha => Except.ok.inj ha ▸ h.2⟩

/-- A fact about the start does not depend on the log. -/
theorem assume {c : Prop} {p : HostM ObjectSig α} (h : c → Does request P p A) :
    Does request (fun φ => P φ ∧ c) p A :=
  fun φ hφ => Watch.Habit.weaken (h hφ.2) (fun _ h => h) (fun _ _ h => ⟨⟨h.1, hφ.2⟩, h.2⟩) φ hφ.1

/-- The rest sees a value or an error. -/
theorem tried {p : HostM ObjectSig α} {f : Except Error α → HostM ObjectSig β}
    (hp : Does request P p A) (hok : ∀ a, Does request (fun φ => P φ ∧ A a φ) (f (.ok a)) B)
    (herror : ∀ e, Does request P (f (.error e)) B) :
    Does request P (Attempt.outcome p >>= f) B := by
  refine Watch.Habit.andThen (fun r φ => P φ ∧ ∀ x, r = .ok x → ∀ a, x = .ok a → A a φ)
    hp.outcome (fun x => ?_) fun _ _ h => ⟨h.1, nofun⟩
  cases x with
  | ok a => exact Watch.Habit.weaken (hok a) (fun _ h => ⟨h.1, h.2 _ rfl a rfl⟩) fun _ _ h => ⟨h.1.1, h.2⟩
  | error e => exact Watch.Habit.weaken (herror e) (fun _ h => h.1) fun _ _ h => h

/-- What follows from the start may be used. -/
theorem knowing {c : Prop} {p : HostM ObjectSig α} (hc : ∀ φ, P φ → c)
    (h : c → Does request P p A) : Does request P p A :=
  fun φ hφ => h (hc φ hφ) φ hφ

theorem given {c : Prop} {p : HostM ObjectSig α} (h : c → Does request (fun φ => P φ ∧ K φ) p A) :
    Does request (fun φ => P φ ∧ c ∧ K φ) p A :=
  fun φ hφ => Watch.Habit.weaken (h hφ.2.1) (fun _ h => h)
    (fun _ _ h => ⟨⟨h.1.1, hφ.2.1, h.1.2⟩, h.2⟩) φ ⟨hφ.1, hφ.2.2⟩

end Does

/-- The attempt keeps `P` but may use up `K`. -/
def Uses (request : Request) (P K : Log → Prop) (p : HostM ObjectSig α) (A : α → Log → Prop) :
    Prop :=
  Keeps request (fun φ => P φ ∧ K φ) p fun r φ => P φ ∧ ∀ a, r = .ok a → A a φ

namespace Uses

theorem does {p : HostM ObjectSig α} (h : Uses request P K p A) (hK : ∀ φ, P φ → K φ) :
    Does request P p A :=
  Watch.Habit.weaken h (fun φ hφ => ⟨hφ, hK φ hφ⟩) fun _ _ h => h

theorem of_does {p : HostM ObjectSig α} (h : Does request P p A) : Uses request P K p A :=
  Watch.Habit.weaken h (fun _ h => h.1) fun _ _ h => h

theorem pure {a : α} (h : ∀ φ, P φ → K φ → A a φ) : Uses request P K (pure a) A :=
  .done fun φ hφ => ⟨hφ.1, fun _ ha => Except.ok.inj ha ▸ h φ hφ.1 hφ.2⟩

theorem ite {p q : HostM ObjectSig α} {c : Prop} [Decidable c] (hp : c → Uses request P K p A)
    (hq : ¬c → Uses request P K q A) : Uses request P K (if c then p else q) A :=
  Watch.Habit.ite hp hq

/-- One operation outside `E`, which is earned by what it uses up. -/
theorem perform {o : HostOp ObjectSig}
    {k : (Host ObjectSig).Ans o → Prog (Host ObjectSig) (Except Error α)} (hP : Steady E P)
    (ho : ¬E o) (hearned : ∀ φ, P φ → K φ → Earned request φ o)
    (hk : ∀ a, Does request (fun φ => P φ ∧ ⟨o, a⟩ ∈ φ) (k a : HostM ObjectSig α) A) :
    Uses request P K (Prog.step o k) A :=
  .step (fun a φ => P φ ∧ ⟨o, a⟩ ∈ φ) (fun φ h => hearned φ h.1 h.2)
    (fun φ a h => ⟨hP φ ⟨o, a⟩ ho h.1, List.mem_cons_self ..⟩)
    fun a => Watch.Habit.weaken (hk a) (fun _ h => h) fun _ _ h => ⟨h.1.1, h.2⟩

/-- What the first part keeps the rest may use up. -/
theorem seq {p : HostM ObjectSig α} {f : α → HostM ObjectSig β}
    (hp : Does request (fun φ => P φ ∧ K φ) p A)
    (hf : ∀ a, Uses request P (fun φ => K φ ∧ A a φ) (f a) B) : Uses request P K (p >>= f) B :=
  Watch.Habit.andThen _ hp
    (fun a => Watch.Habit.weaken (hf a) (fun _ h => ⟨h.1.1, h.1.2, h.2 a rfl⟩) fun _ _ h => h)
    fun _ _ h => ⟨h.1.1, nofun⟩

/-- After it has been used up the rest only keeps. -/
theorem after {p : HostM ObjectSig α} {f : α → HostM ObjectSig β} (hp : Uses request P K p A)
    (hf : ∀ a, Does request (fun φ => P φ ∧ A a φ) (f a) B) : Uses request P K (p >>= f) B :=
  Watch.Habit.andThen _ hp
    (fun a => Watch.Habit.weaken (hf a) (fun _ h => ⟨h.1, h.2 a rfl⟩) fun _ _ h => ⟨h.1.1, h.2⟩)
    fun _ _ h => ⟨h.1, nofun⟩

/-- The first part may use up `K`; what it keeps and leaves the rest may use up. -/
theorem chain {L : Log → Prop} {p : HostM ObjectSig α} {f : α → HostM ObjectSig β}
    (hp : Uses request (fun φ => P φ ∧ L φ) K p A)
    (hf : ∀ a, Uses request P (fun φ => L φ ∧ A a φ) (f a) B) :
    Uses request P (fun φ => L φ ∧ K φ) (p >>= f) B :=
  Watch.Habit.andThen (fun r φ => (P φ ∧ L φ) ∧ ∀ a, r = .ok a → A a φ)
    (Watch.Habit.weaken hp (fun _ h => ⟨⟨h.1, h.2.1⟩, h.2.2⟩) fun _ _ h => h)
    (fun a => Watch.Habit.weaken (hf a) (fun _ h => ⟨h.1.1, h.1.2, h.2 a rfl⟩) fun _ _ h => h)
    fun _ _ h => ⟨h.1.1, nofun⟩

/-- What the first part leaves the rest uses up. -/
theorem intro {p : HostM ObjectSig α} {f : α → HostM ObjectSig β} (hp : Does request P p A)
    (hf : ∀ a, Uses request P (A a) (f a) B) : Does request P (p >>= f) B :=
  Watch.Habit.andThen _ hp
    (fun a => Watch.Habit.weaken (hf a) (fun _ h => ⟨h.1, h.2 a rfl⟩) fun _ _ h => h)
    fun _ _ h => ⟨h.1, nofun⟩

/-- The rest sees a value, with what may be used up, or an error. -/
theorem tried {p : HostM ObjectSig α} {f : Except Error α → HostM ObjectSig β}
    (hp : Does request P p A) (hok : ∀ a, Uses request P (A a) (f (.ok a)) B)
    (herror : ∀ e, Does request P (f (.error e)) B) :
    Does request P (Attempt.outcome p >>= f) B := by
  refine Watch.Habit.andThen (fun r φ => P φ ∧ ∀ x, r = .ok x → ∀ a, x = .ok a → A a φ)
    hp.outcome (fun x => ?_) fun _ _ h => ⟨h.1, nofun⟩
  cases x with
  | ok a => exact Watch.Habit.weaken (hok a) (fun _ h => ⟨h.1, h.2 _ rfl a rfl⟩) fun _ _ h => h
  | error e => exact Watch.Habit.weaken (herror e) (fun _ h => h.1) fun _ _ h => h

/-- The first part may use up `K` and leaves `L` to the rest. -/
theorem attempt {L : Log → Prop} {p : HostM ObjectSig α} {f : Except Error α → HostM ObjectSig β}
    (hp : Uses request (fun φ => P φ ∧ L φ) K p A)
    (hok : ∀ a, Uses request P (fun φ => L φ ∧ A a φ) (f (.ok a)) B)
    (herror : ∀ e, Does request P (f (.error e)) B) :
    Uses request P (fun φ => L φ ∧ K φ) (Attempt.outcome p >>= f) B := by
  refine Watch.Habit.andThen (fun r φ => P φ ∧ L φ ∧ ∀ x, r = .ok x → ∀ a, x = .ok a → A a φ)
    (Watch.Habit.bind (fun r φ => (P φ ∧ L φ) ∧ ∀ a, r = .ok a → A a φ)
      (Watch.Habit.weaken hp (fun _ h => ⟨⟨h.1, h.2.1⟩, h.2.2⟩) fun _ _ h => h)
      fun _ => .done fun _ h => ⟨h.1.1, h.1.2, fun _ hx => Except.ok.inj hx ▸ h.2⟩)
    (fun x => ?_) fun _ _ h => ⟨h.1, nofun⟩
  cases x with
  | ok a => exact Watch.Habit.weaken (hok a) (fun _ h => ⟨h.1, h.2.1, h.2.2 _ rfl a rfl⟩) fun _ _ h => h
  | error e => exact Watch.Habit.weaken (herror e) (fun _ h => h.1) fun _ _ h => h

theorem assume {c : Prop} {p : HostM ObjectSig α} (hc : ∀ φ, P φ → K φ → c)
    (h : c → Uses request P K p A) : Uses request P K p A :=
  fun φ hφ => h (hc φ hφ.1 hφ.2) φ hφ

/-- More is kept meanwhile, and then forgotten. -/
theorem keep {R L : Log → Prop} {p : HostM ObjectSig α} (h : Uses request R L p A)
    (hpre : ∀ φ, P φ → K φ → R φ ∧ L φ) (hpost : ∀ φ, R φ → P φ) : Uses request P K p A :=
  Watch.Habit.weaken h (fun φ h => hpre φ h.1 h.2) fun _ φ h => ⟨hpost φ h.1, h.2⟩

theorem gives {A' : α → Log → Prop} {p : HostM ObjectSig α} (h : Uses request P K p A)
    (hA : ∀ a φ, P φ → A a φ → A' a φ) : Uses request P K p A' :=
  Watch.Habit.weaken h (fun _ h => h) fun _ φ h => ⟨h.1, fun a ha => hA a φ h.1 (h.2 a ha)⟩

theorem weaken {K' : Log → Prop} {p : HostM ObjectSig α} (h : Uses request P K p A)
    (hK : ∀ φ, P φ → K' φ → K φ) : Uses request P K' p A :=
  Watch.Habit.weaken h (fun φ h => ⟨h.1, hK φ h.1 h.2⟩) fun _ _ h => h

end Uses

end Rules

end System.Requests

end TusRs
