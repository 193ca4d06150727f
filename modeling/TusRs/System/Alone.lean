import TusRs.Interaction.Lone
import TusRs.System.FinalUploads

/-!
# Handlers that run alone

Specifications of the handlers' programs while no other thread performs an operation and the
clock moves.

* `AboutStores`, `Quiet`: what reading operations leave as it is.
* `withLock_lone`: a run under a lock, cut after the first part of its body.
-/

namespace TusRs

open Interaction

open Protocol

namespace System

variable {hooks : HookEvent → UploadState → Except Error PreHookResult → Prop} {t : Nat}
  {α β : Type} {s₀ : Snap (Host ObjectSig) World}

/-- Both stores are as they were in `s₀`. -/
structure Untouched (s₀ s : Snap (Host ObjectSig) World) : Prop where
  states : s.world.states = s₀.world.states
  objects : s.world.objects = s₀.world.objects
  owner : s.world.owner = s₀.world.owner
  hist : s₀.hist <:+ s.hist

theorem Untouched.refl (s : Snap (Host ObjectSig) World) : Untouched s s :=
  ⟨rfl, rfl, rfl, List.suffix_refl _⟩

/-- The two worlds have the same stores. -/
structure SameStores (w w' : World) : Prop where
  states : w'.states = w.states
  objects : w'.objects = w.objects
  owner : w'.owner = w.owner

theorem Untouched.later {s s' : Snap (Host ObjectSig) World} (h : Untouched s₀ s)
    (hw : SameStores s.world s'.world) (hh : s.hist <:+ s'.hist) : Untouched s₀ s' :=
  ⟨hw.states.trans h.states, hw.objects.trans h.objects, hw.owner.trans h.owner, h.hist.trans hh⟩

/-- The specifications of a handler that runs alone. -/
abbrev AloneSpec (hooks : HookEvent → UploadState → Except Error PreHookResult → Prop) (t : Nat)
    (P : Snap (Host ObjectSig) World → Prop) (p : Prog (Host ObjectSig) α)
    (Q : α → Snap (Host ObjectSig) World → Prop) : Prop :=
  Spec (host hooks) (.lone (host hooks)) t P p Q

/-- The assertion speaks of nothing but the stores and what has happened. -/
def AboutStores (P : Snap (Host ObjectSig) World → Prop) : Prop :=
  ∀ s s', P s → SameStores s.world s'.world → s.hist <:+ s'.hist → P s'

theorem AboutStores.undrifted {P : Snap (Host ObjectSig) World → Prop} (h : AboutStores P) :
    Undrifted (host hooks) P := by
  rintro s _ hs ⟨n, _, rfl⟩
  exact h s _ hs ⟨rfl, rfl, rfl⟩ (List.suffix_refl _)

theorem aboutStores_untouched : AboutStores (Untouched s₀) :=
  fun _ _ hs hw hh => hs.later hw hh

/-- One operation of a handler that runs alone. -/
theorem alone_step {o : HostOp ObjectSig} {k : (Host ObjectSig).Ans o → Prog (Host ObjectSig) α}
    {P : Snap (Host ObjectSig) World → Prop} {Q : α → Snap (Host ObjectSig) World → Prop}
    (P' : (Host ObjectSig).Ans o → Snap (Host ObjectSig) World → Prop)
    (hP : Undrifted (host hooks) P)
    (hexec : ∀ s a w', P s → HostExec hooks t o s.world a w' → P' a (s.push t o a w'))
    (hk : ∀ a, AloneSpec hooks t (P' a) (k a) Q) : AloneSpec hooks t P (.step o k) Q :=
  Spec.alone P' hP hexec hk

/-- An operation that writes to neither store, whatever it answers. -/
def Quiet (hooks : HookEvent → UploadState → Except Error PreHookResult → Prop) (t : Nat)
    (o : HostOp ObjectSig) : Prop :=
  ∀ w a w', HostExec hooks t o w a w' → SameStores w w'

theorem quiet_now : Quiet hooks t .now := by
  intro w a w' h
  cases h
  exact ⟨rfl, rfl, rfl⟩

theorem quiet_stateGet {id : String} : Quiet hooks t (.stateGet id) := by
  intro w a w' h
  cases h <;> exact ⟨rfl, rfl, rfl⟩

theorem quiet_tryLock {id : String} : Quiet hooks t (.tryLock id) := by
  intro w a w' h
  cases h <;> exact ⟨rfl, rfl, rfl⟩

theorem quiet_unlock {id : String} : Quiet hooks t (.unlock id) := by
  intro w a w' h
  cases h
  exact ⟨rfl, rfl, rfl⟩

theorem quiet_hookPre {event : HookEvent} {state : UploadState} :
    Quiet hooks t (.hookPre event state) := by
  intro w a w' h
  cases h
  exact ⟨rfl, rfl, rfl⟩

theorem quiet_spec {o : HostOp ObjectSig} {k : (Host ObjectSig).Ans o → Prog (Host ObjectSig) α}
    {P : Snap (Host ObjectSig) World → Prop} {Q : α → Snap (Host ObjectSig) World → Prop}
    (hP : AboutStores P) (ho : Quiet hooks t o) (hk : ∀ a, AloneSpec hooks t P (k a) Q) :
    AloneSpec hooks t P (.step o k) Q := by
  refine alone_step (fun _ => P) hP.undrifted ?_ hk
  intro s a w' hs he
  exact hP s _ hs (ho _ _ _ he) (List.suffix_cons _ _)

/-- The gate only asks the hooks, and keeps the id. -/
theorem gate_quiet {P : Snap (Host ObjectSig) World → Prop} (hP : AboutStores P)
    (gate : PreHookGate) (state : UploadState) :
    AloneSpec hooks t P (gate.run state) fun r s => P s ∧ ∀ a, r = .ok a → a.1.id = state.id := by
  refine quiet_spec hP quiet_hookPre fun r => ?_
  match r with
  | .error e => exact Spec.done fun _ hs => ⟨hs, fun _ h => nomatch h⟩
  | .ok result =>
    refine Spec.ite (fun _ => Spec.done fun _ hs => ⟨hs, ?_⟩)
      fun _ => Spec.done fun _ hs => ⟨hs, fun _ h => nomatch h⟩
    rintro _ ha
    cases ha
    obtain h | ⟨m, h⟩ := outcome_cases gate state result
    · rw [h]
    · rw [h]
      rfl

theorem ensureActive_quiet {P : Snap (Host ObjectSig) World → Prop} (hP : AboutStores P)
    (state : UploadState) : AloneSpec hooks t P (ensureActive state) fun _ => P :=
  quiet_spec hP quiet_now fun _ =>
    Spec.ite (fun _ => Spec.done fun _ hs => hs) fun _ => Spec.done fun _ hs => hs

/-! ## Parts -/

section Parts

variable {P : Snap (Host ObjectSig) World → Prop} {config : Config}

theorem loadPart_quiet (hP : AboutStores P) (url : String) :
    AloneSpec hooks t P (loadPart config url) fun _ => P := by
  unfold loadPart
  cases extractPartialId url config.basePath with
  | none => exact Spec.done fun _ hs => hs
  | some id =>
    refine quiet_spec hP quiet_stateGet fun r => ?_
    match r with
    | .error e => exact Spec.done fun _ hs => hs
    | .ok none => exact Spec.done fun _ hs => hs
    | .ok (some part) =>
      refine Spec.ite (fun _ => Spec.done fun _ hs => hs) fun _ => ?_
      refine Spec.ite (fun _ => Spec.done fun _ hs => hs) fun _ => ?_
      refine quiet_spec hP quiet_now fun n => ?_
      exact Spec.ite (fun _ => Spec.done fun _ hs => hs) fun _ => Spec.done fun _ hs => hs

theorem loadParts_quiet (hP : AboutStores P) (urls : List String) :
    AloneSpec hooks t P (loadParts config urls) fun _ => P := by
  induction urls with
  | nil => exact Spec.done fun _ hs => hs
  | cons url urls ih =>
    refine Spec.andThen _ (loadPart_quiet hP url) (fun _ => ?_) fun _ _ hs => hs
    exact Spec.andThen _ ih (fun _ => Spec.done fun _ hs => hs) fun _ _ hs => hs

theorem summarizeFrom_quiet (hP : AboutStores P) (summary : PartsSummary)
    (parts : List UploadState) :
    AloneSpec hooks t P (summarizeFrom summary parts) fun _ => P := by
  induction parts generalizing summary with
  | nil => exact Spec.done fun _ hs => hs
  | cons part parts ih =>
    refine quiet_spec hP quiet_now fun n => ?_
    exact Spec.ite (fun _ => Spec.done fun _ hs => hs) fun _ => ih _

theorem loadFinalUploadPlan_quiet (hP : AboutStores P) (urls : List String) :
    AloneSpec hooks t P (loadFinalUploadPlan config urls) fun _ => P := by
  refine Spec.andThen _ (loadParts_quiet hP urls) (fun parts => ?_) fun _ _ hs => hs
  refine Spec.andThen _ (summarizeFrom_quiet hP _ parts) (fun status => ?_) fun _ _ hs => hs
  exact Spec.done fun _ hs => hs

theorem unlockAll_quiet (hP : AboutStores P) (ids : List String) :
    AloneSpec hooks t P (unlockAll ids) fun _ => P := by
  induction ids with
  | nil => exact Spec.done fun _ hs => hs
  | cons id ids ih => exact quiet_spec hP quiet_unlock fun _ => ih

end Parts

/-! ## Locks -/

theorem drifts_stores {w w' : World} (h : Drifts (host hooks) w w') :
    SameStores w w' := by
  induction h with
  | refl => exact ⟨rfl, rfl, rfl⟩
  | tail _ he ih =>
    obtain ⟨n, _, rfl⟩ := he
    exact ⟨ih.states, ih.objects, ih.owner⟩

theorem unlock_lone {id : String} {a r : α} {s s' : Snap (Host ObjectSig) World}
    (h : Lone (host hooks) t (.step (.unlock id) fun _ => .done a) s r s') :
    r = a ∧ Untouched s s' ∧
      ∀ b : β, Lone (host hooks) t (.step (.unlock id) fun _ => .done b) s b s' := by
  cases h with
  | @step _ _ _ _ w w' _ _ hd he hk =>
    obtain ⟨rfl, rfl⟩ := hk.done_inv
    refine ⟨rfl, ?_, fun b => .step hd he (.done b _)⟩
    cases he
    obtain ⟨hstates, hobjects, howner⟩ := drifts_stores hd
    exact ⟨hstates, hobjects, howner, List.suffix_cons _ _⟩

/-- A locked body is its first part under the lock and the rest, before the lock is given
back. -/
theorem withLock_lone {id : String} {x : HostM ObjectSig α} {f : α → HostM ObjectSig β}
    {s s' : Snap (Host ObjectSig) World} {r : Except Error β}
    (h : Lone (host hooks) t (withLock id (x >>= f)) s r s') :
    (∃ e, Lone (host hooks) t (withLock id x) s (.error e) s') ∨
      ∃ a s₁ s₂, Lone (host hooks) t (withLock id x) s (.ok a)
          (s₁.push t (.unlock id) () (s₁.world.unlock id)) ∧ s.hist <:+ s₁.hist ∧
        Lone (host hooks) t (f a) s₁ r s₂ ∧ Untouched s₂ s' := by
  unfold withLock at h
  cases h with
  | @step _ _ _ _ _ _ lockResult _ hd he hk =>
    cases lockResult with
    | error e =>
      obtain ⟨rfl, rfl⟩ := hk.done_inv
      exact .inl ⟨e, .step hd he (.done _ _)⟩
    | ok u =>
      obtain ⟨r', s₂, hbody, hunlock⟩ := hk.bind_inv
      obtain ⟨a, s₁, hx, hf⟩ := hbody.bind_inv
      cases a with
      | error e =>
        obtain ⟨rfl, rfl⟩ := hf.done_inv
        exact .inl ⟨e, .step hd he (hx.bind ((unlock_lone hunlock).2.2 _))⟩
      | ok a =>
        obtain ⟨rfl, hs, _⟩ := unlock_lone (β := Unit) hunlock
        exact .inr ⟨a, s₁, s₂, .step hd he (hx.bind (.step .refl .unlock (.done _ _))),
          (List.suffix_cons _ _).trans hx.hist, hf, hs⟩

end System

end TusRs
