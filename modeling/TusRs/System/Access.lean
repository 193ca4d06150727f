import TusRs.System.Ownership

/-!
# Access to one upload

What the steps of `lifecycle/recovery.rs` and `receive.rs` do to an upload that the thread
has to itself. `F` is whatever else the caller keeps: locks it holds and ids it hides.

Results:

* `prepareRegularUploadAccess_spec`: an admitted request sees a record whose offset is the
  number of stored bytes.
* `receivePatch_spec`: a successful PATCH leaves a record that counts the bytes it added.
-/

namespace TusRs

open Interaction

open Protocol

namespace System

variable {hooks : HookEvent → UploadState → Except Error PreHookResult → Prop}
  {config : Config} {requests : Nat → Option Request} {t : Nat} {α β : Type}

/-- Specifications of the handlers' programs. -/
abbrev HostSpec (hooks : HookEvent → UploadState → Except Error PreHookResult → Prop)
    (config : Config) (requests : Nat → Option Request) (t : Nat)
    (P : Snap (Host ObjectSig) World → Prop) (p : Prog (Host ObjectSig) α)
    (Q : α → Snap (Host ObjectSig) World → Prop) : Prop :=
  Spec (host hooks) (discipline hooks config requests) t P p Q

/-- Others do not disturb `P`. -/
def Lasting (t : Nat) (P : Snap (Host ObjectSig) World → Prop) : Prop :=
  ∀ s s', P s → Rely t s.world s'.world → s.hist <:+ s'.hist → P s'

/-- What neither others disturb nor this thread's own work on the upload `id`. -/
structure Frame (t : Nat) (id : String) (F : Snap (Host ObjectSig) World → Prop) : Prop where
  lasting : Lasting t F
  keeps : ∀ s s', F s → Within id s.world s'.world → s.hist <:+ s'.hist → F s'

theorem Frame.and {id : String} {F F' : Snap (Host ObjectSig) World → Prop} (h : Frame t id F)
    (h' : Frame t id F') : Frame t id fun s => F s ∧ F' s where
  lasting s s' hs hr hh := ⟨h.lasting s s' hs.1 hr hh, h'.lasting s s' hs.2 hr hh⟩
  keeps s s' hs ha hh := ⟨h.keeps s s' hs.1 ha hh, h'.keeps s s' hs.2 ha hh⟩

theorem frame_true {id : String} : Frame t id fun _ => True :=
  ⟨fun _ _ _ _ _ => trivial, fun _ _ _ _ _ => trivial⟩

theorem frame_locked {id id' : String} : Frame t id' fun s => s.world.locks id = some t where
  lasting _ _ hs hr _ := hr.locks id hs
  keeps _ _ hs ha _ := by rw [ha.locks]; exact hs

theorem frame_hidden {id id' : String} : Frame t id' fun s => s.world.hidden id = some t where
  lasting _ _ hs hr _ := hr.hidden id hs
  keeps _ _ hs ha _ := by rw [ha.hidden]; exact hs

theorem frame_live {id id' : String} {state : UploadState} :
    Frame t id' fun s => Live t s.world id state where
  lasting s s' hs hr _ := by
    rcases hs with hs | ⟨hl, n, hn, he⟩
    · exact .inl (hr.hidden id hs)
    · exact .inr ⟨hr.locks id hl, n, by rw [hr.since id hl]; exact hn, he⟩
  keeps _ _ hs ha _ := by
    unfold Live
    rw [ha.locks, ha.hidden, ha.since]
    exact hs

theorem Lasting.and {P P' : Snap (Host ObjectSig) World → Prop} (h : Lasting t P)
    (h' : Lasting t P') : Lasting t fun s => P s ∧ P' s :=
  fun s s' hs hr hh => ⟨h s s' hs.1 hr hh, h' s s' hs.2 hr hh⟩

theorem lasting_own {id k : String} {x : Option UploadState} {o : Option Bytes} :
    Lasting t fun s => Own t id x k o s.world :=
  fun _ _ hs hr _ => hs.rely hr

theorem Lasting.push {P : Snap (Host ObjectSig) World → Prop} (h : Lasting t P)
    {s : Snap (Host ObjectSig) World} {u : Nat} {o : HostOp ObjectSig}
    {a : (Host ObjectSig).Ans o} (hs : P s) : P (s.push u o a s.world) :=
  h s _ hs (Rely.refl t _) (List.suffix_cons _ _)

theorem Frame.push {id : String} {F : Snap (Host ObjectSig) World → Prop} (h : Frame t id F)
    {s : Snap (Host ObjectSig) World} {u : Nat} {o : HostOp ObjectSig}
    {a : (Host ObjectSig).Ans o} {w' : World} (hs : F s) (hw : Within id s.world w') :
    F (s.push u o a w') :=
  h.keeps s _ hs hw (List.suffix_cons _ _)

/-! ## Rules for single operations -/

section Rules

variable {P : Snap (Host ObjectSig) World → Prop} {p : Prog (Host ObjectSig) α}
  {Q : α → Snap (Host ObjectSig) World → Prop}

/-- A fact that does not depend on the snapshot is a hypothesis. -/
theorem assume {c : Prop} (h : c → HostSpec hooks config requests t P p Q) :
    HostSpec hooks config requests t (fun s => P s ∧ c) p Q :=
  fun s hs => h hs.2 s hs.1

theorem assumeExists {γ : Type} {P : γ → Snap (Host ObjectSig) World → Prop}
    (h : ∀ x, HostSpec hooks config requests t (P x) p Q) :
    HostSpec hooks config requests t (fun s => ∃ x, P x s) p Q :=
  fun s hs => by
    obtain ⟨x, hx⟩ := hs
    exact h x s hx

/-- An operation under its guard. -/
theorem perform {o : HostOp ObjectSig} {k : (Host ObjectSig).Ans o → Prog (Host ObjectSig) α}
    (P' : (Host ObjectSig).Ans o → Snap (Host ObjectSig) World → Prop) (hP : Lasting t P)
    (hG : ∀ s, WellFormed s.world → P s → Guard config requests t o s)
    (hexec : ∀ s a w', WellFormed s.world → P s → HostExec hooks t o s.world a w' →
      Later s.world w' → P' a (s.push t o a w'))
    (hk : ∀ a, HostSpec hooks config requests t (P' a) (k a) Q) :
    HostSpec hooks config requests t P (.step o k) Q :=
  Spec.perform P' (fun s s' hs hr => hP s s' hs hr.1 hr.2) hG
    (fun s a w' hw hs he => hexec s a w' hw hs he (exec_sound hw he (hG s hw hs)).2.1) hk

/-- An operation that only reads. -/
theorem query {o : HostOp ObjectSig} {k : (Host ObjectSig).Ans o → Prog (Host ObjectSig) α}
    (A : (Host ObjectSig).Ans o → Prop) (hP : Lasting t P)
    (hG : ∀ s, Guard config requests t o s)
    (hexec : ∀ s a w', WellFormed s.world → P s → HostExec hooks t o s.world a w' →
      w' = s.world ∧ A a)
    (hk : ∀ a, A a → HostSpec hooks config requests t P (k a) Q) :
    HostSpec hooks config requests t P (.step o k) Q := by
  refine perform (fun a s => P s ∧ A a) hP (fun s _ _ => hG s) ?_ fun a => assume (hk a)
  intro s a w' hw hs he _
  obtain ⟨rfl, ha⟩ := hexec s a w' hw hs he
  exact ⟨hP.push hs, ha⟩

theorem now_spec {k : Nat → Prog (Host ObjectSig) α} (hP : Lasting t P)
    (hk : ∀ n, HostSpec hooks config requests t P (k n) Q) :
    HostSpec hooks config requests t P (.step .now k) Q := by
  refine query (fun _ => True) hP (fun _ => trivial) ?_ fun n _ => hk n
  intro s a w' _ _ he
  cases he
  exact ⟨rfl, trivial⟩

theorem hookPre_spec {event : HookEvent} {state : UploadState}
    {k : Except Error PreHookResult → Prog (Host ObjectSig) α} (hP : Lasting t P)
    (hk : ∀ r, hooks event state r → HostSpec hooks config requests t P (k r) Q) :
    HostSpec hooks config requests t P (.step (.hookPre event state) k) Q := by
  refine query (hooks event state) hP (fun _ => trivial) ?_ hk
  intro s a w' _ _ he
  cases he with
  | hookPre h => exact ⟨rfl, h⟩

theorem hookPost_spec {event : HookEvent} {state : UploadState}
    {k : Unit → Prog (Host ObjectSig) α} (hP : Lasting t P)
    (hk : ∀ r, HostSpec hooks config requests t P (k r) Q) :
    HostSpec hooks config requests t P (.step (.hookPost event state) k) Q := by
  refine query (fun _ => True) hP (fun _ => trivial) ?_ fun r _ => hk r
  intro s a w' _ _ he
  cases he
  exact ⟨rfl, trivial⟩

end Rules

/-! ## Attempts -/

/-- The outcomes of an attempt: a value in `A`, or an error in `E`. -/
def outcomes (E : Snap (Host ObjectSig) World → Prop)
    (A : α → Snap (Host ObjectSig) World → Prop) :
    Except Error α → Snap (Host ObjectSig) World → Prop
  | .ok a, s => A a s
  | .error _, s => E s

section Attempts

variable {P E : Snap (Host ObjectSig) World → Prop} {A : α → Snap (Host ObjectSig) World → Prop}
  {B : β → Snap (Host ObjectSig) World → Prop}

theorem andThen {p : HostM ObjectSig α} {f : α → HostM ObjectSig β}
    (hp : HostSpec hooks config requests t P p (outcomes E A))
    (hf : ∀ a, HostSpec hooks config requests t (A a) (f a) (outcomes E B)) :
    HostSpec hooks config requests t P (p >>= f : HostM ObjectSig β) (outcomes E B) :=
  Spec.andThen (outcomes E A) hp hf fun _ _ h => h

theorem pure_spec {a : α} (h : ∀ s, P s → A a s) :
    HostSpec hooks config requests t P (pure a : HostM ObjectSig α) (outcomes E A) :=
  Spec.done h

theorem throw_spec {e : Error} (h : ∀ s, P s → E s) :
    HostSpec hooks config requests t P (throw e : HostM ObjectSig α) (outcomes E A) :=
  Spec.done h

theorem lift_spec {r : Except Error α} (hE : ∀ s, P s → E s)
    (hA : ∀ a s, r = .ok a → P s → A a s) :
    HostSpec hooks config requests t P (Attempt.lift r : HostM ObjectSig α) (outcomes E A) := by
  refine Spec.done ?_
  intro s hs
  cases r with
  | ok a => exact hA a s rfl hs
  | error e => exact hE s hs

/-- The outcome of an attempt as a value: this cannot fail. -/
theorem outcome_spec {X : Snap (Host ObjectSig) World → Prop} {p : HostM ObjectSig α}
    (hp : HostSpec hooks config requests t P p (outcomes E A)) :
    HostSpec hooks config requests t P (Attempt.outcome p)
      (outcomes X fun r s => outcomes E A r s) :=
  Spec.bind _ hp fun _ => Spec.done fun _ h => h

/-- The thread that holds the lock of an upload knows whether it is active. -/
theorem ensureActive_live {state : UploadState} (hP : Lasting t P) (hE : ∀ s, P s → E s)
    (hl : ∀ s, P s → s.world.locks state.id = some t) :
    HostSpec hooks config requests t P (ensureActive state)
      (outcomes E fun _ s => P s ∧ Live t s.world state.id state) := by
  refine perform (o := .now)
    (fun (n : Nat) s => P s ∧ s.world.since state.id ≤ n) hP (fun _ _ _ => trivial) ?_ ?_
  · intro s a w' hw hs he _
    cases he
    exact ⟨hP.push hs, hw.clock state.id⟩
  · intro n
    refine Spec.ite (fun _ => Spec.done fun s hs => hE s hs.1) fun hexp => Spec.done ?_
    intro s hs
    exact ⟨hs.1, .inr ⟨hl s hs.1, n, hs.2, by simpa using hexp⟩⟩

theorem ensureActive_spec {state : UploadState} (hP : Lasting t P) (hE : ∀ s, P s → E s) :
    HostSpec hooks config requests t P (ensureActive state) (outcomes E fun _ => P) := by
  refine now_spec hP fun n => ?_
  exact Spec.ite (fun _ => Spec.done hE) fun _ => Spec.done fun _ h => h

theorem isExpired_spec {state : UploadState} (hP : Lasting t P) :
    HostSpec hooks config requests t P (isExpired state) (outcomes E fun _ => P) :=
  now_spec hP fun _ => Spec.done fun _ h => h

/-- An accepting hook may change the metadata and add response headers. -/
theorem gate_spec {gate : PreHookGate} {state : UploadState} (hP : Lasting t P)
    (hE : ∀ s, P s → E s) :
    HostSpec hooks config requests t P (gate.run state)
      (outcomes E fun a s => P s ∧ ∃ r, hooks gate.event state (.ok r) ∧
        a = gate.outcome state r) := by
  refine hookPre_spec hP fun r hr => ?_
  cases r with
  | error e => exact Spec.done hE
  | ok result =>
    exact Spec.ite (fun _ => Spec.done fun s hs => ⟨hs, result, hr, rfl⟩) fun _ => Spec.done hE

theorem finishGate_spec {state : UploadState} (hP : Lasting t P) (hE : ∀ s, P s → E s) :
    HostSpec hooks config requests t P (finishGate state) (outcomes E fun _ => P) :=
  andThen (gate_spec hP hE) fun _ => pure_spec fun _ h => h.1

theorem runPostEvent_spec {event : HookEvent} {state : UploadState} (hP : Lasting t P) :
    HostSpec hooks config requests t P (runPostEvent event state) (outcomes E fun _ => P) :=
  hookPost_spec hP fun _ => Spec.done fun _ h => h

theorem afterCommit_spec {state : UploadState} (hP : Lasting t P) :
    HostSpec hooks config requests t P (afterCommit state) (outcomes E fun _ => P) :=
  runPostEvent_spec hP

theorem when_spec {c : Bool} {p : HostM ObjectSig Unit}
    (hp : HostSpec hooks config requests t P p (outcomes E fun _ => P)) :
    HostSpec hooks config requests t P (if c then p else pure () : HostM ObjectSig Unit)
      (outcomes E fun _ => P) :=
  Spec.ite (fun _ => hp) fun _ => pure_spec fun _ h => h

/-- The size of an object the thread has to itself. -/
theorem size_spec {id : String} {x : Option UploadState} {h : StorageHandle} {o : Option Bytes}
    (hP : Lasting t P) (hE : ∀ s, P s → E s) (hown : ∀ s, P s → Own t id x h.key o s.world) :
    HostSpec hooks config requests t P (contract.size h)
      (outcomes E fun n s => P s ∧ n = o.map List.length) := by
  refine query (o := .storage (.size h))
    (fun (r : Except Error (Option Nat)) => ∀ n, r = .ok n → n = o.map List.length)
    hP (fun _ => trivial) ?_ ?_
  · intro s a w' _ hs he
    cases he with
    | size =>
      refine ⟨rfl, ?_⟩
      rintro n hn
      cases hn
      rw [(hown s hs).object]
    | sizeFailed => exact ⟨rfl, fun n hn => nomatch hn⟩
  · intro r hr
    refine Spec.done fun s hs => ?_
    cases r with
    | ok n => exact ⟨hs, hr n rfl⟩
    | error e => exact hE s hs

end Attempts

/-! ## Changes to an upload the thread has to itself -/

section Changes

variable {F : Snap (Host ObjectSig) World → Prop} {id : String} {h : StorageHandle}
  {o : Option Bytes}

/-- The record and the object of an upload, and what the caller keeps. -/
def Holding (F : Snap (Host ObjectSig) World → Prop) (t : Nat) (id : String)
    (x : Option UploadState) (h : StorageHandle) (o : Option Bytes)
    (s : Snap (Host ObjectSig) World) : Prop :=
  F s ∧ Own t id x h.key o s.world

theorem lasting_holding (hF : Frame t id F) {x : Option UploadState} :
    Lasting t (Holding F t id x h o) :=
  hF.lasting.and lasting_own

theorem own_setState {k : String} {x : Option UploadState} {state : UploadState} {w : World}
    (hown : Own t state.id x k o w) : Own t state.id (some state) k o (w.setState state) where
  holds := hown.holds
  state := Function.update_self _ _ _
  owner := hown.owner
  object := hown.object

theorem own_put {k : String} {x : Option UploadState} {bytes : Bytes} {w : World}
    (hown : Own t id x k o w) : Own t id x k (some bytes) (w.put k bytes) where
  holds := hown.holds
  state := hown.state
  owner := hown.owner
  object := Function.update_self _ _ _

/-- An update of the record, whatever follows. The new record may have a new handle for the
same key. -/
theorem update_step (hF : Frame t id F) {state old : UploadState} {h' : StorageHandle}
    {k : Except Error Unit → Prog (Host ObjectSig) α}
    {Q : α → Snap (Host ObjectSig) World → Prop} (hid : state.id = id) (hkey : h'.key = h.key)
    (hG : ∀ s, WellFormed s.world → Own t state.id (some old) h'.key o s.world → F s →
      UpdateGuard config t state h' old o s)
    (hk : ∀ r, HostSpec hooks config requests t (outcomes (Holding F t id (some old) h o)
      (fun _ => Holding F t id (some state) h o) r) (k r) Q) :
    HostSpec hooks config requests t (Holding F t id (some old) h o)
      (.step (.stateSet state .update) k) Q := by
  subst hid
  refine perform (o := .stateSet state .update) (fun (r : Except Error Unit) s =>
      outcomes (Holding F t state.id (some old) h o)
        (fun _ => Holding F t state.id (some state) h o) r s)
    (lasting_holding hF)
    (fun s hw hs => ⟨h', old, o, hG s hw (by rw [hkey]; exact hs.2) hs.1⟩) ?_ hk
  intro s a w' hw hs he hl
  cases he with
  | stateUpdate => exact ⟨hF.push hs.1 (.setState hl), own_setState hs.2⟩
  | stateSetFailed => exact (lasting_holding hF).push hs

/-- An update of the record. -/
theorem update_spec {E : Snap (Host ObjectSig) World → Prop} (state old : UploadState)
    (hF : Frame t state.id F) (hE : ∀ s, Holding F t state.id (some old) h o s → E s)
    (hG : ∀ s, WellFormed s.world → Holding F t state.id (some old) h o s →
      UpdateGuard config t state h old o s) :
    HostSpec hooks config requests t (Holding F t state.id (some old) h o)
      (setState state .update) (outcomes E fun _ => Holding F t state.id (some state) h o) := by
  refine update_step hF rfl rfl (fun s hw hown hs => hG s hw ⟨hs, hown⟩) fun r => ?_
  refine Spec.done fun s hs => ?_
  cases r with
  | ok _ => exact hs
  | error e => exact hE s hs

end Changes

/-- What a thread learns about a record it reads under the lock. -/
structure Read (id : String) (h : StorageHandle) (state : UploadState) : Prop where
  id_eq : state.id = id
  handle : state.handle = some h
  role : state.isPartial = true → state.isFinal = false
  within : state.isFinal = false → ∀ l, state.length = some l → state.offset ≤ l

/-- What the record of a final upload says about its parts. -/
def Planning (state : UploadState) (s : Snap (Host ObjectSig) World) : Prop :=
  state.isFinal = true → ∃ ids, PartsPlanned s.world state ids

theorem frame_planning {id : String} {state : UploadState} : Frame t id (Planning state) where
  lasting s s' hs hr _ hf := by
    obtain ⟨ids, hplan⟩ := hs hf
    exact ⟨ids, hplan.later hr.later⟩
  keeps s s' hs hw _ hf := by
    obtain ⟨ids, hplan⟩ := hs hf
    exact ⟨ids, hplan.later hw.later⟩

/-- Reading the record of an upload whose lock the thread holds. -/
theorem get_step {F : Snap (Host ObjectSig) World → Prop} {id : String} (hF : Frame t id F)
    {k : Except Error (Option UploadState) → Prog (Host ObjectSig) α}
    {Q : α → Snap (Host ObjectSig) World → Prop}
    (hlock : ∀ s, F s → s.world.locks id = some t)
    (herr : ∀ e, HostSpec hooks config requests t F (k (.error e)) Q)
    (hnone : HostSpec hooks config requests t F (k (.ok none)) Q)
    (hsome : ∀ state h o, Read id h state →
      HostSpec hooks config requests t (Holding (fun s => F s ∧ Planning state s) t id (some state)
        h o) (k (.ok (some state))) Q) :
    HostSpec hooks config requests t F (.step (.stateGet id) k) Q := by
  refine perform (o := .stateGet id)
    (fun (r : Except Error (Option UploadState)) s => F s ∧ ∀ state, r = .ok (some state) →
      ∃ h o, Holding (fun s => F s ∧ Planning state s) t id (some state) h o s ∧
        Read id h state)
    hF.lasting (fun _ _ _ => trivial) ?_ fun r => ?_
  · intro s a w' hw hs he _
    cases he with
    | stateGet _ =>
      refine ⟨hF.lasting.push hs, ?_⟩
      intro state hst
      have hst : s.world.states id = some state := Except.ok.inj hst
      have hrec := hw.records id state hst
      obtain ⟨h, hh, hown⟩ := hrec.handle
      exact ⟨h, s.world.objects h.key, ⟨⟨hF.lasting.push hs, hrec.planned⟩,
        .inl (hlock s hs), hst, hown, rfl⟩, hrec.id_eq, hh, hrec.role, hrec.within⟩
    | stateGetFailed => exact ⟨hF.lasting.push hs, fun _ h => nomatch h⟩
  · match r with
    | .error e => exact (herr e).weaken (fun s hs => hs.1) fun _ _ h => h
    | .ok none => exact hnone.weaken (fun s hs => hs.1) fun _ _ h => h
    | .ok (some state) =>
      intro s hs
      obtain ⟨h, o, hs, hread⟩ := hs.2 state rfl
      exact hsome state h o hread s hs

/-! ## Recovery -/

section Recovery

variable {F : Snap (Host ObjectSig) World → Prop} {state : UploadState} {h : StorageHandle}
  {o : Option Bytes} {P E : Snap (Host ObjectSig) World → Prop}

/-- A detected completion is that of the stored bytes. -/
structure Detected (state : UploadState) (o : Option Bytes) (length : Nat) : Prop where
  length_eq : state.length = some length
  stored : sizeOfObject o = length
  incomplete : state.isComplete = false
  isPartial : state.isPartial = false

/-- What the detection says about the stored bytes. -/
structure Detection (state : UploadState) (o : Option Bytes) (r : Option Nat) : Prop where
  found : ∀ l, r = some l → Detected state o l
  missed : r = none → state.isComplete = false → state.isPartial = false →
    ∀ l, state.length = some l → sizeOfObject o ≠ l

theorem detectStoredCompletion_spec {id : String} {x : Option UploadState} (hP : Lasting t P)
    (hE : ∀ s, P s → E s) (hown : ∀ s, P s → Own t id x h.key o s.world)
    (hh : state.handle = some h) :
    HostSpec hooks config requests t P (detectStoredCompletion contract state)
      (outcomes E fun r s => P s ∧ Detection state o r) := by
  unfold detectStoredCompletion
  refine Spec.ite (fun hc => pure_spec fun s hs => ⟨hs, (fun l hl => nomatch hl), ?_⟩) fun hc => ?_
  · intro _ hcomplete hpartial
    simp [hcomplete, hpartial] at hc
  simp only [Bool.or_eq_true, not_or, Bool.not_eq_true] at hc
  cases hlen : state.length with
  | none =>
    refine pure_spec fun s hs => ⟨hs, (fun l hl => nomatch hl), ?_⟩
    intro _ _ _ l hl
    rw [hlen] at hl
    cases hl
  | some length =>
    simp only [hh]
    refine andThen (size_spec hP hE hown) fun n => assume fun hn => ?_
    subst hn
    refine Spec.ite (fun _ => throw_spec hE) fun _ => ?_
    refine Spec.ite (fun hne => pure_spec fun s hs => ⟨hs, (fun l hl => nomatch hl), ?_⟩)
      fun hne => pure_spec fun s hs => ⟨hs, ?_, (fun hr => nomatch hr)⟩
    · intro _ _ _ l hl
      rw [hlen] at hl
      cases hl
      exact hne
    · rintro l hl
      cases hl
      exact ⟨hlen, not_not.mp hne, hc.1, hc.2⟩

/-- A record of an upload that is not final may be set to count the stored bytes. -/
theorem recount_guard {old : UploadState} {s : Snap (Host ObjectSig) World}
    (hs : Holding F t old.id (some old) h o s) (hh : old.handle = some h)
    (hf : old.isFinal = false) (hl : ∀ l, old.length = some l → sizeOfObject o ≤ l)
    (hlive : Live t s.world old.id old ∨
      old.isPartial = false ∧ old.length = some (sizeOfObject o)) :
    UpdateGuard config t (old.setOffset (sizeOfObject o)) h old o s where
  handle := hh
  handle_old := ⟨h, hh, rfl⟩
  own := hs.2
  isPartial := rfl
  isFinal := rfl
  parts := rfl
  createdAt := rfl
  expiresAt := rfl
  length _ hl := hl
  live := hlive
  regular _ := ⟨rfl, hl, fun _ h => .inl h⟩
  final hfin := by
    rw [show (old.setOffset (sizeOfObject o)).isFinal = old.isFinal from rfl, hf] at hfin
    cases hfin

theorem reconcileStoredCompletion_spec (hF : Frame t state.id F) (hh : state.handle = some h)
    (hf : state.isFinal = false) :
    HostSpec hooks config requests t (Holding F t state.id (some state) h o)
      (reconcileStoredCompletion contract state)
      (outcomes F fun state' s => Holding F t state.id (some state') h o s ∧
        (state' = state ∨ state' = state.setOffset (sizeOfObject o))) := by
  have hP : Lasting t (Holding F t state.id (some state) h o) := lasting_holding hF
  have hE : ∀ s, Holding F t state.id (some state) h o s → F s := fun s hs => hs.1
  refine andThen (detectStoredCompletion_spec hP hE (fun s hs => hs.2) hh) fun r =>
    assume fun hr => ?_
  cases r with
  | none => exact pure_spec fun s hs => ⟨hs, .inl rfl⟩
  | some length =>
    obtain ⟨hlen, hsize, _, hpart⟩ := hr.found length rfl
    subst hsize
    refine andThen (finishGate_spec hP hE) fun _ => ?_
    refine andThen (update_spec (state.setOffset (sizeOfObject o)) state hF hE ?_) fun _ => ?_
    · intro s _ hs
      refine recount_guard hs hh hf ?_ (.inr ⟨hpart, hlen⟩)
      intro l hl
      rw [hlen] at hl
      cases hl
      exact Nat.le_refl _
    refine andThen (afterCommit_spec (lasting_holding hF)) fun _ => ?_
    exact pure_spec fun s hs => ⟨hs, .inr rfl⟩

/-- Afterwards the record counts the stored bytes. -/
theorem reconcileStorageOffset_spec {id : String} (hF : Frame t id F) (state : UploadState)
    (hid : state.id = id) (hh : state.handle = some h) (hf : state.isFinal = false)
    (hlive : ∀ s, F s → Live t s.world id state) :
    HostSpec hooks config requests t (Holding F t id (some state) h o)
      (reconcileStorageOffset contract state)
      (outcomes F fun state' s => Holding F t id (some state') h o s ∧
        state' = state.setOffset (sizeOfObject o)) := by
  subst hid
  have hP : Lasting t (Holding F t state.id (some state) h o) := lasting_holding hF
  have hE : ∀ s, Holding F t state.id (some state) h o s → F s := fun s hs => hs.1
  unfold reconcileStorageOffset
  simp only [hh]
  refine andThen (size_spec hP hE fun s hs => hs.2) fun n => assume fun hn => ?_
  subst hn
  have hupdate : (∀ l, state.length = some l → sizeOfObject o ≤ l) →
      HostSpec hooks config requests t (Holding F t state.id (some state) h o)
        (do setState (state.setOffset (sizeOfObject o)) .update
            pure (state.setOffset (sizeOfObject o)) : HostM ObjectSig UploadState)
        (outcomes F fun state' s => Holding F t state.id (some state') h o s ∧
          state' = state.setOffset (sizeOfObject o)) := by
    intro hl
    refine andThen (update_spec (state.setOffset (sizeOfObject o)) state hF hE ?_) fun _ => ?_
    · exact fun s _ hs => recount_guard hs hh hf hl (.inl (hlive s hs.1))
    · exact pure_spec fun s hs => ⟨hs, rfl⟩
  refine Spec.ite (fun heq => ?_) fun _ => ?_
  · -- the record already counts them
    have hst : state.setOffset (sizeOfObject o) = state := by
      show { state with offset := sizeOfObject o } = state
      rw [show sizeOfObject o = state.offset from heq]
    exact pure_spec fun s hs => ⟨hs, hst.symm⟩
  · cases hlen : state.length with
    | none =>
      refine hupdate ?_
      intro l hl
      rw [hlen] at hl
      cases hl
    | some length =>
      refine Spec.ite (fun _ => throw_spec hE) fun hgt => ?_
      refine hupdate ?_
      intro l hl
      rw [hlen] at hl
      cases hl
      exact Nat.not_lt.mp hgt

/-- An admitted request on an upload that is not final sees a record that counts the stored
bytes. -/
theorem prepareRegularUploadAccess_spec (hF : Frame t state.id F) (hh : state.handle = some h)
    (hf : state.isFinal = false) (hlock : ∀ s, F s → s.world.locks state.id = some t) :
    HostSpec hooks config requests t (Holding F t state.id (some state) h o)
      (prepareRegularUploadAccess contract state)
      (outcomes F fun state' s => Holding F t state.id (some state') h o s ∧
        state' = state.setOffset (sizeOfObject o)) := by
  refine andThen (reconcileStoredCompletion_spec hF hh hf) fun state' => assume fun hst => ?_
  have hsame : state'.id = state.id ∧ state'.handle = some h ∧ state'.isFinal = false ∧
      state'.setOffset (sizeOfObject o) = state.setOffset (sizeOfObject o) := by
    rcases hst with rfl | rfl
    · exact ⟨rfl, hh, hf, rfl⟩
    · exact ⟨rfl, hh, hf, rfl⟩
  obtain ⟨hid, hh', hf', hset⟩ := hsame
  rw [← hset]
  refine andThen (ensureActive_live (lasting_holding hF) (fun s hs => hs.1)
    fun s hs => hid ▸ hlock s hs.1) fun _ => ?_
  -- from here on the thread also knows that the upload is active
  refine (reconcileStorageOffset_spec (F := fun s => F s ∧ Live t s.world state.id state') (o := o)
    (hF.and frame_live) state' hid hh' hf' fun s hs => hs.2).weaken ?_ ?_
  · intro s hs
    rw [hid] at hs
    exact ⟨⟨hs.1.1, hs.2⟩, hs.1.2⟩
  · rintro (e | a) s hs
    · exact hs.1
    · exact ⟨⟨hs.1.1.1, hs.1.2⟩, hs.2⟩

end Recovery

/-! ## Receiving -/

section Receive

variable {F : Snap (Host ObjectSig) World → Prop} {id : String} {h : StorageHandle}
  {o : Option Bytes} {server : Server ObjectSig}

/-- A working copy of a record: a length may have been declared and the metadata replaced. -/
structure Draft (config : Config) (old cur : UploadState) : Prop where
  id_eq : cur.id = old.id
  offset : cur.offset = old.offset
  handle : cur.handle = old.handle
  isPartial : cur.isPartial = old.isPartial
  isFinal : cur.isFinal = old.isFinal
  parts : cur.parts = old.parts
  createdAt : cur.createdAt = old.createdAt
  expiresAt : cur.expiresAt = old.expiresAt
  length : ∀ l, old.length = some l → cur.length = some l
  bounded : ∀ l, cur.length = some l →
    old.length = some l ∨ ∀ m, config.maxSize = some m → l ≤ m

theorem Draft.refl (state : UploadState) : Draft config state state :=
  ⟨rfl, rfl, rfl, rfl, rfl, rfl, rfl, rfl, fun _ h => h, fun _ h => .inl h⟩

theorem Draft.outcome {old cur : UploadState} (h : Draft config old cur) (gate : PreHookGate)
    (r : PreHookResult) : Draft config old (gate.outcome cur r).1 := by
  unfold PreHookGate.outcome
  dsimp only
  split
  · split
    · exact ⟨h.id_eq, h.offset, h.handle, h.isPartial, h.isFinal, h.parts, h.createdAt,
        h.expiresAt, h.length, h.bounded⟩
    · exact h
  · exact h

/-- An accepting hook leaves a draft. -/
theorem gate_draft {P E : Snap (Host ObjectSig) World → Prop} {gate : PreHookGate}
    {old cur : UploadState} (hd : Draft config old cur) (hP : Lasting t P)
    (hE : ∀ s, P s → E s) :
    HostSpec hooks config requests t P (gate.run cur)
      (outcomes E fun a s => P s ∧ (Draft config old a.1 ∧
        ∃ result, hooks gate.event cur (.ok result) ∧ a = gate.outcome cur result)) := by
  refine (gate_spec hP hE).weaken (fun _ h => h) ?_
  rintro (e | a) s hs
  · exact hs
  · obtain ⟨hs, result, hr, rfl⟩ := hs
    exact ⟨hs, hd.outcome gate result, result, hr, rfl⟩

/-- What intake and projection have established about a body. -/
structure Admits (config : Config) (body : RequestBody) (cur : UploadState)
    (prepared : PreparedReceiveBody) : Prop where
  content : ∀ bytes, prepared.data.collect = some bytes → bytes = body.content
  projected : ∀ bytes, prepared.data.collect = some bytes → cur.offset + bytes.length ≤ u64Max →
    prepared.projection.projectedOffset = cur.offset + bytes.length
  within_max : ∀ m, config.maxSize = some m → prepared.projection.projectedOffset ≤ m
  within_length : ∀ l, cur.length = some l → prepared.projection.projectedOffset ≤ l

theorem intake_admits {headers : Headers} {cur : UploadState} {body : RequestBody}
    {kind : ReceiveBodyKind} {collected : IntakeBody} {projection : ReceiveProjection}
    (hi : intake server headers cur body kind = .ok (collected, projection))
    (responseHeaders : List (String × String)) :
    Admits server.config body cur
      ⟨collected.data, projection, responseHeaders, collected.deferred⟩ := by
  obtain ⟨collected', hprep, hi⟩ := except_bind_ok hi
  obtain ⟨projection', hval, hi⟩ := except_bind_ok hi
  cases hi
  have hp := validateBodyForReceive_ok hval
  refine ⟨?_, ?_, hp.within_max, hp.within_length⟩
  · intro bytes hc
    exact (prepare_ok hprep hc).1.content
  · intro bytes hc hfit
    rw [← (prepare_ok hprep hc).1.size (by omega)] at hp
    exact hp.offset_eq.trans (satAdd_eq hfit)

theorem prepareReceive_spec {request : ReceiveRequest} (state : UploadState)
    (hF : Frame t state.id F)
    (hlock : ∀ s, F s → s.world.locks state.id = some t) :
    HostSpec hooks config requests t (Holding F t state.id (some state) h o)
      (prepareReceive config state request)
      (outcomes F fun cur s => Holding (fun s => F s ∧ Live t s.world state.id state) t state.id
        (some state) h o s ∧ (Draft config state cur ∧ state.isFinal = false ∧
          request.clientOffset = state.offset)) := by
  refine andThen (ensureActive_live (lasting_holding hF) (fun s hs => hs.1)
    fun s hs => hlock s hs.1) fun _ => ?_
  refine Spec.ite (fun _ => throw_spec fun s hs => hs.1.1) fun hf => ?_
  refine Spec.ite (fun _ => throw_spec fun s hs => hs.1.1) fun _ => ?_
  refine Spec.ite (fun _ => throw_spec fun s hs => hs.1.1) fun hoff => ?_
  refine andThen (A := fun l s => (Holding F t state.id (some state) h o s ∧
      Live t s.world state.id state) ∧
      resolveLength config state.length request.uploadLength = .ok l)
    (lift_spec (fun s hs => hs.1.1) fun l s hl hs => ⟨hs, hl⟩) fun l => assume fun hl => ?_
  refine pure_spec fun s hs => ⟨⟨⟨hs.1.1, hs.2⟩, hs.1.2⟩, ?_, by simpa using hf, not_not.mp hoff⟩
  refine ⟨rfl, rfl, rfl, rfl, rfl, rfl, rfl, rfl, ?_, ?_⟩
  · exact fun n hn => resolveLength_known hl hn
  · intro n hn
    rcases resolveLength_declared hl hn with hold | ⟨_, _, hmax⟩
    · exact .inl hold
    · exact .inr hmax

theorem prepareReceiveBody_spec {P E : Snap (Host ObjectSig) World → Prop} {headers : Headers}
    {old cur : UploadState} {body : RequestBody} {kind : ReceiveBodyKind}
    (hcfg : server.config = config) (hP : Lasting t P) (hE : ∀ s, P s → E s)
    (hd : Draft config old cur) :
    HostSpec hooks config requests t P (prepareReceiveBody server headers cur body kind)
      (outcomes E fun r s => P s ∧ (Draft config old r.1 ∧ Admits config body r.1 r.2 ∧
        ∃ result, hooks .preReceive cur (.ok result) ∧
          r.2.responseHeaders = result.responseHeaders)) := by
  refine andThen (gate_draft hd hP hE) fun a => assume fun ha => ?_
  obtain ⟨cur', responseHeaders⟩ := a
  obtain ⟨hd', result, hr, heq⟩ := ha
  refine andThen (A := fun r s => P s ∧ intake server headers cur' body kind = .ok r)
    (lift_spec hE fun r s h hs => ⟨hs, h⟩) fun r => assume fun hi => ?_
  refine pure_spec fun s hs => ⟨hs, hd', ?_, result, hr, (Prod.mk.inj heq).2⟩
  rw [← hcfg]
  exact intake_admits hi _

/-- An append at the end of the stored bytes adds the body or leaves everything as it is. -/
theorem append_spec (hF : Frame t id F) {old : UploadState} {offset : Nat} {data : ChunkStream}
    {completes : Bool}
    (hG : ∀ s, Holding F t id (some old) h o s →
      AppendGuard config requests t h offset data id old o s.world) :
    HostSpec hooks config requests t (Holding F t id (some old) h o)
      (contract.append h offset data completes)
      (outcomes (Holding F t id (some old) h o) fun h' s => ∃ bytes,
        Holding F t id (some old) h (some (o.getD [] ++ bytes)) s ∧ (h'.key = h.key ∧
          data.collect = some bytes ∧ offset + bytes.length ≤ u64Max)) := by
  refine perform (o := .storage (.append h offset data completes))
    (fun (r : Except Error StorageHandle) s => outcomes (Holding F t id (some old) h o)
      (fun h' s => ∃ bytes, Holding F t id (some old) h (some (o.getD [] ++ bytes)) s ∧
        (h'.key = h.key ∧ data.collect = some bytes ∧ offset + bytes.length ≤ u64Max)) r s)
    (lasting_holding hF) (fun s _ hs => ⟨id, old, o, hG s hs⟩) ?_ fun r => Spec.done fun _ h => h
  intro s a w' hw hs he _
  cases he with
  | @append _ _ _ _ c bytes _ hobj hc hfit =>
    rw [hs.2.object] at hobj
    subst hobj
    exact ⟨bytes, ⟨hF.push hs.1 (.objects_update hs.2.owner), own_put hs.2⟩, rfl, hc, hfit⟩
  | appendFailed => exact (lasting_holding hF).push hs

/-- The record as a commit leaves it: it counts the stored bytes. -/
structure Committed (old cur : UploadState) (h : StorageHandle) (o : Option Bytes) : Prop where
  regular : cur.isFinal = false
  offset : cur.offset = sizeOfObject o
  isPartial : cur.isPartial = old.isPartial

/-- The working copy still belongs to the upload. -/
def Belongs (id : String) (h : StorageHandle) (cur : UploadState) : Prop :=
  cur.id = id ∧ ∃ h', cur.handle = some h' ∧ h'.key = h.key

theorem sizeOfObject_getD (o : Option Bytes) : sizeOfObject o = (o.getD []).length := by
  cases o with
  | none => rfl
  | some c => rfl

theorem commitReceiveBody_spec (hF : Frame t id F) {old cur : UploadState} {body : RequestBody}
    {prepared : PreparedReceiveBody} (hlive : ∀ s, F s → Live t s.world id old)
    (hd : Draft config old cur) (ha : Admits config body cur prepared) (hid : old.id = id)
    (hh : old.handle = some h) (hf : old.isFinal = false) (hoff : old.offset = sizeOfObject o)
    (horigin : (∀ bytes, prepared.data.collect = some bytes → bytes = body.content) →
      Origin requests t id cur.offset prepared.data) :
    HostSpec hooks config requests t (Holding F t id (some old) h o)
      (commitReceiveBody contract cur prepared)
      fun r s => (∃ x o', Holding F t id x h o' s ∧ (x = some old ∨ x = some r.1) ∧
        (r.2 = .ok () → x = some r.1 ∧ Committed old r.1 h o')) ∧ Belongs id h r.1 := by
  have hcur : cur.handle = some h := hd.handle.trans hh
  have hbel : Belongs id h cur := ⟨hd.id_eq.trans hid, h, hcur, rfl⟩
  unfold commitReceiveBody UploadState.requireStorageHandle
  simp only [hcur]
  refine Spec.bind _ (append_spec hF ?_) fun r => ?_
  · intro s hs
    refine ⟨hs.2, ⟨h, hh, rfl⟩, hlive s hs.1, hf, hd.offset.symm, hd.offset.trans hoff,
      horigin ha.content, ?_⟩
    intro bytes hc hfit
    rw [← ha.projected bytes hc hfit]
    exact ⟨ha.within_max, fun l hl => ha.within_length l (hd.length l hl)⟩
  · cases r with
    | error e =>
      have hfail : ∀ e' s, Holding F t id (some old) h o s →
          (∃ x o', Holding F t id x h o' s ∧ (x = some old ∨ x = some cur) ∧
            ((.error e' : Except Error Unit) = .ok () → x = some cur ∧ Committed old cur h o')) ∧
            Belongs id h cur :=
        fun e' s hs => ⟨⟨some old, o, hs, .inl rfl, fun h => nomatch h⟩, hbel⟩
      cases e <;> exact Spec.done (hfail _)
    | ok h' =>
      refine assumeExists fun bytes => assume fun hb => ?_
      obtain ⟨hkey, hc, hfit⟩ := hb
      cases hdef : prepared.deferredError with
      | some e =>
        exact Spec.done fun s hs => ⟨⟨some old, _, hs, .inl rfl, fun h => nomatch h⟩, hbel⟩
      | none =>
        -- the record may be written: it counts the bytes that were just added
        have hcount : prepared.projection.projectedOffset =
            sizeOfObject (some (o.getD [] ++ bytes)) := by
          rw [ha.projected bytes hc hfit, hd.offset, hoff, sizeOfObject_getD]
          exact (List.length_append).symm
        refine update_step hF hbel.1 hkey ?_ fun r => Spec.done fun s hs => ⟨?_, hbel.1, h', rfl, hkey⟩
        · intro s _ hown hs
          exact {
            handle := rfl
            handle_old := ⟨h, hh, hkey.symm⟩
            own := hown
            isPartial := hd.isPartial
            isFinal := hd.isFinal
            parts := hd.parts
            createdAt := hd.createdAt
            expiresAt := hd.expiresAt
            length := hd.length
            live := .inl (hbel.1.symm ▸ hlive s hs)
            regular := fun _ => ⟨hcount, ha.within_length, hd.bounded⟩
            final := fun hfin => absurd (hfin.symm.trans (hd.isFinal.trans hf)) (by decide) }
        · cases r with
          | ok _ =>
            exact ⟨_, _, hs, .inr rfl, fun _ => ⟨rfl, hd.isFinal.trans hf, hcount, hd.isPartial⟩⟩
          | error e => exact ⟨_, _, hs, .inl rfl, fun h => nomatch h⟩

/-- The response headers are those of a hook that accepted. -/
def FromHooks (hooks : HookEvent → UploadState → Except Error PreHookResult → Prop)
    (headers : List (String × String)) : Prop :=
  ∃ event state result, hooks event state (.ok result) ∧ headers = result.responseHeaders

theorem always_spec {P E : Snap (Host ObjectSig) World → Prop} {p : Prog (Host ObjectSig) α}
    {Q : α → Snap (Host ObjectSig) World → Prop}
    (hp : HostSpec hooks config requests t P p Q) :
    HostSpec hooks config requests t P (Attempt.always p : HostM ObjectSig α) (outcomes E Q) :=
  Spec.bind Q hp fun _ => Spec.done fun _ h => h

/-- A successful PATCH leaves a record that counts the bytes it added. -/
theorem receivePatch_spec {headers : Headers} {clientOffset : Nat} {body : RequestBody}
    {state : UploadState} {digests : Digests} (hF : Frame t state.id F)
    (hlock : ∀ s, F s → s.world.locks state.id = some t) (hh : state.handle = some h)
    (hoff : state.offset = sizeOfObject o)
    (hreq : requests t = some (.patch headers state.id body))
    (hclient : headers.uploadOffset = some clientOffset) :
    HostSpec hooks config requests t (Holding F t state.id (some state) h o)
      (receivePatch ⟨config, digests, contract⟩ headers state ⟨clientOffset, headers.uploadLength⟩
        body)
      (outcomes F fun r s => (∃ o', Holding F t state.id (some r.1) h o' s ∧
        Committed state r.1 h o') ∧ (Belongs state.id h r.1 ∧ FromHooks hooks r.2)) := by
  refine andThen (prepareReceive_spec state hF hlock) fun cur => assume fun hcur => ?_
  obtain ⟨hd, hf, hoffset⟩ := hcur
  have hF' : Frame t state.id fun s => F s ∧ Live t s.world state.id state := hF.and frame_live
  refine andThen (prepareReceiveBody_spec rfl (lasting_holding hF') (fun s hs => hs.1.1) hd)
    fun r => assume fun hr => ?_
  obtain ⟨cur', prepared⟩ := r
  obtain ⟨hd', ha, result, hres, hheaders⟩ := hr
  refine andThen (always_spec (commitReceiveBody_spec hF' (fun s hs => hs.2) hd' ha rfl hh hf hoff
    ?_)) fun r => assume fun hbel => ?_
  · intro hcontent
    refine .patch hreq ?_ hcontent
    rw [hclient, hd'.offset]
    exact congrArg some hoffset
  obtain ⟨committed, outcome⟩ := r
  refine andThen (A := fun _ s => ∃ o', Holding F t state.id (some committed) h o' s ∧
      Committed state committed h o') ?_ fun _ => ?_
  · refine lift_spec (fun s hs => ?_) fun _ s hok hs => ?_
    · obtain ⟨x, o', hx, _⟩ := hs
      exact hx.1.1
    · obtain ⟨x, o', hx, _, hdone⟩ := hs
      obtain ⟨rfl, hcom⟩ := hdone hok
      exact ⟨o', ⟨hx.1.1, hx.2⟩, hcom⟩
  refine assumeExists fun o' => assume fun hcom => ?_
  have hP : Lasting t (Holding F t state.id (some committed) h o') := lasting_holding hF
  have hE : ∀ s, Holding F t state.id (some committed) h o' s → F s := fun s hs => hs.1
  have hdone : ∀ s, Holding F t state.id (some committed) h o' s →
      (∃ o', Holding F t state.id (some committed) h o' s ∧ Committed state committed h o') ∧
        (Belongs state.id h committed ∧ FromHooks hooks prepared.responseHeaders) :=
    fun s hs => ⟨⟨o', hs, hcom⟩, hbel, _, _, result, hres, hheaders⟩
  refine andThen (runPostEvent_spec hP) fun _ => ?_
  refine Spec.ite (fun _ => ?_) fun _ => pure_spec hdone
  refine andThen (finishGate_spec hP hE) fun _ => ?_
  exact andThen (afterCommit_spec hP) fun _ => pure_spec hdone

end Receive

end System

end TusRs
