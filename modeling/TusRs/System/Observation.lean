import TusRs.System.Failures
import TusRs.System.Serve

/-!
# Observations of an upload

HEAD and GET requests that run alone, with only the clock moving between their operations. A
read may repair the record and the object it finds.

* `Seen`: what a thread that runs alone knows about both stores.
* `observe_first`: the record and the object that a successful observation leaves.
* `observe_reads`: an observation of a record that needs no repair only looks.
-/

namespace TusRs

open Interaction

open Protocol

namespace System

variable {hooks : HookEvent → UploadState → Except Error PreHookResult → Prop} {t : Nat}
  {α β : Type}

/-! ## Looking -/

/-- The operation changes neither a store nor the clock, and asks no hook. -/
def Looks : HostOp ObjectSig → Prop
  | .stateGet _ | .lock _ | .tryLock _ | .unlock _ | .now => True
  | .storage (.size _) | .storage (.stream _) => True
  | _ => False

/-- An operation of an observation that failed. -/
def OpFailed : Event (Host ObjectSig) World → Prop
  | ⟨_, .stateGet _, (r : Except Error (Option UploadState)), _⟩ => ∃ e, r = .error e
  | ⟨_, .lock _, (r : Except Error Unit), _⟩ => ∃ e, r = .error e
  | ⟨_, .storage (.size _), (r : Except Error (Option Nat)), _⟩ => ∃ e, r = .error e
  | ⟨_, .storage (.stream _), (r : Except Error Bytes), _⟩ => ∃ e, r = .error e
  | _ => False

/-- The stores are `states` and `objects`, and no event in `E` has happened since `s₀`. -/
structure Seen (E : Event (Host ObjectSig) World → Prop) (s₀ : Snap (Host ObjectSig) World)
    (states : String → Option UploadState) (objects : String → Option Bytes)
    (s : Snap (Host ObjectSig) World) : Prop where
  states : s.world.states = states
  objects : s.world.objects = objects
  hidden : s.world.hidden = s₀.world.hidden
  clock : s₀.world.clock ≤ s.world.clock
  calm : Without E s₀ s

section Looking

variable {E : Event (Host ObjectSig) World → Prop} {s₀ : Snap (Host ObjectSig) World}
  {st : String → Option UploadState} {ob : String → Option Bytes}

theorem Seen.refl (s : Snap (Host ObjectSig) World) :
    Seen E s s.world.states s.world.objects s :=
  ⟨rfl, rfl, rfl, Nat.le_refl _, .refl s⟩

theorem Seen.hist {s : Snap (Host ObjectSig) World} (h : Seen E s₀ st ob s) :
    s₀.hist <:+ s.hist :=
  h.calm.hist

theorem seen_undrifted : Undrifted (host hooks) (Seen E s₀ st ob) := by
  rintro s _ hs ⟨n, hn, rfl⟩
  exact ⟨hs.states, hs.objects, hs.hidden, hs.clock.trans hn, hs.calm⟩

/-- An operation that leaves the stores as they are. -/
theorem Seen.push {s : Snap (Host ObjectSig) World} {o : HostOp ObjectSig}
    {a : (Host ObjectSig).Ans o} {w' : World} (h : Seen E s₀ st ob s)
    (hE : ¬E ⟨t, o, a, s.world⟩) {st' : String → Option UploadState}
    {ob' : String → Option Bytes} (hst : w'.states = st') (hob : w'.objects = ob')
    (hhid : w'.hidden = s.world.hidden) (hclock : w'.clock = s.world.clock) :
    Seen E s₀ st' ob' (s.push t o a w') where
  states := hst
  objects := hob
  hidden := hhid.trans h.hidden
  clock := h.clock.trans (Nat.le_of_eq hclock.symm)
  calm := h.calm.trans (.push hE)

theorem Looks.exec {o : HostOp ObjectSig} {w w' : World} {a : (Host ObjectSig).Ans o}
    (ho : Looks o) (he : HostExec hooks t o w a w') :
    w'.states = w.states ∧ w'.objects = w.objects ∧ w'.hidden = w.hidden ∧ w'.clock = w.clock := by
  cases he
  all_goals first
    | exact ⟨rfl, rfl, rfl, rfl⟩
    | exact ho.elim

/-- No event in `E` is a look. -/
def Overlooks (E : Event (Host ObjectSig) World → Prop) : Prop := ∀ ev, Looks ev.op → ¬E ev

/-- One look, and what it tells. -/
theorem look {o : HostOp ObjectSig} {k : (Host ObjectSig).Ans o → Prog (Host ObjectSig) α}
    {Q : α → Snap (Host ObjectSig) World → Prop}
    (A : (Host ObjectSig).Ans o → Snap (Host ObjectSig) World → Prop) (hE : Overlooks E)
    (ho : Looks o)
    (hA : ∀ s a w', Seen E s₀ st ob s → HostExec hooks t o s.world a w' → A a (s.push t o a w'))
    (hk : ∀ a, AloneSpec hooks t (fun s => Seen E s₀ st ob s ∧ A a s) (k a) Q) :
    AloneSpec hooks t (Seen E s₀ st ob) (.step o k) Q := by
  refine alone_step (fun a s => Seen E s₀ st ob s ∧ A a s) seen_undrifted ?_ hk
  intro s a w' hs he
  obtain ⟨hst, hob, hhid, hclock⟩ := ho.exec he
  exact ⟨hs.push (hE _ ho) (hst.trans hs.states) (hob.trans hs.objects) hhid hclock, hA s a w' hs he⟩

/-- Why an observation may fail: an operation failed, one of the records in `X` has expired,
or `c`. -/
def Blame (s₀ : Snap (Host ObjectSig) World) (X : UploadState → Prop) (c : Prop)
    (s : Snap (Host ObjectSig) World) : Prop :=
  Since s₀.hist OpFailed s ∨ (∃ x, X x ∧ x.expiresBefore s.world.clock = true) ∨ c

/-- A part of a handler that only looks: it returns a value in `A`, or there is something to
blame. -/
def Reads (hooks : HookEvent → UploadState → Except Error PreHookResult → Prop) (t : Nat)
    (E : Event (Host ObjectSig) World → Prop) (s₀ : Snap (Host ObjectSig) World)
    (st : String → Option UploadState) (ob : String → Option Bytes) (X : UploadState → Prop)
    (c : Prop) (p : HostM ObjectSig α) (A : α → Prop) : Prop :=
  AloneSpec hooks t (Seen E s₀ st ob) p
    (outcomes (fun s => Seen E s₀ st ob s ∧ Blame s₀ X c s) fun a s => Seen E s₀ st ob s ∧ A a)

variable {X : UploadState → Prop} {c : Prop}

theorem Reads.andThen {p : HostM ObjectSig α} {f : α → HostM ObjectSig β} {A : α → Prop}
    {B : β → Prop} (hp : Reads hooks t E s₀ st ob X c p A)
    (hf : ∀ a, A a → Reads hooks t E s₀ st ob X c (f a) B) :
    Reads hooks t E s₀ st ob X c (p >>= f) B :=
  Spec.andThen _ hp (fun a => Spec.assume (hf a)) fun _ _ hs => hs

theorem Reads.pure {a : α} {A : α → Prop} (h : A a) :
    Reads hooks t E s₀ st ob X c (pure a : HostM ObjectSig α) A :=
  Spec.done fun _ hs => ⟨hs, h⟩

theorem Reads.throw {e : Error} {A : α → Prop} (h : c) :
    Reads hooks t E s₀ st ob X c (throw e : HostM ObjectSig α) A :=
  Spec.done fun _ hs => ⟨hs, .inr (.inr h)⟩

theorem Reads.mono {p : HostM ObjectSig α} {A B : α → Prop} (h : Reads hooks t E s₀ st ob X c p A)
    (hAB : ∀ a, A a → B a) : Reads hooks t E s₀ st ob X c p B := by
  refine Spec.weaken h (fun _ hs => hs) ?_
  rintro (e | a) s hs
  · exact hs
  · exact ⟨hs.1, hAB a hs.2⟩

/-- The time is read. -/
theorem now_look {k : Nat → Prog (Host ObjectSig) α} {Q : α → Snap (Host ObjectSig) World → Prop}
    (hE : Overlooks E)
    (hk : ∀ n, s₀.world.clock ≤ n →
      AloneSpec hooks t (fun s => Seen E s₀ st ob s ∧ n ≤ s.world.clock) (k n) Q) :
    AloneSpec hooks t (Seen E s₀ st ob) (.step .now k) Q := by
  refine look (o := .now) (fun (n : Nat) s => s₀.world.clock ≤ n ∧ n ≤ s.world.clock) hE trivial ?_
    fun n => ?_
  · intro s a w' hs he
    cases he
    exact ⟨hs.clock, Nat.le_refl _⟩
  · rintro s ⟨hs, hn, hle⟩
    exact hk n hn s ⟨hs, hle⟩

theorem expired_later {x : UploadState} {m n : Nat} (hmn : m ≤ n)
    (h : x.expiresBefore m = true) : x.expiresBefore n = true := by
  by_contra hn
  rw [expiresBefore_mono hmn (by simpa using hn)] at h
  cases h

/-- A record is checked for expiration. -/
theorem expiry_look {x : UploadState} {p q : Prog (Host ObjectSig) α}
    {Q : α → Snap (Host ObjectSig) World → Prop} (hE : Overlooks E)
    (hp : AloneSpec hooks t (fun s => Seen E s₀ st ob s ∧ x.expiresBefore s.world.clock = true) p Q)
    (hq : x.expiresBefore s₀.world.clock = false → AloneSpec hooks t (Seen E s₀ st ob) q Q) :
    AloneSpec hooks t (Seen E s₀ st ob)
      (.step .now fun (n : Nat) => if x.expiresBefore n then p else q) Q := by
  refine now_look hE fun n hn => Spec.ite (fun hexp => ?_) fun hexp => ?_
  · exact Spec.weaken hp (fun s hs => ⟨hs.1, expired_later hs.2 hexp⟩) fun _ _ hs => hs
  · exact Spec.weaken (hq (expiresBefore_mono hn (by simpa using hexp))) (fun s hs => hs.1)
      fun _ _ hs => hs

theorem ensureActive_reads {x : UploadState} (hE : Overlooks E) (hX : X x) :
    Reads hooks t E s₀ st ob X c (ensureActive x) fun _ =>
      x.expiresBefore s₀.world.clock = false := by
  refine expiry_look hE (Spec.done fun s hs => ?_) fun hact => Spec.done fun s hs => ⟨hs, hact⟩
  exact ⟨hs.1, .inr (.inl ⟨x, hX, hs.2⟩)⟩

theorem size_reads (hE : Overlooks E) (h : StorageHandle) :
    Reads hooks t E s₀ st ob X c (contract.size h) fun n => n = (ob h.key).map List.length := by
  refine look (o := .storage (.size h)) (fun (r : Except Error (Option Nat)) s =>
    outcomes (Since s₀.hist OpFailed) (fun n _ => n = (ob h.key).map List.length) r s) hE trivial ?_
    fun r => Spec.done ?_
  · intro s a w' hs he
    cases he with
    | size => exact congrArg (fun f => (f h.key).map List.length) hs.objects
    | sizeFailed => exact .now hs.hist ⟨_, rfl⟩
  · cases r with
    | ok n => exact fun s hs => hs
    | error e => exact fun s hs => ⟨hs.1, .inl hs.2⟩

/-- A record is fetched. -/
theorem get_look {id : String} {k : Except Error (Option UploadState) → Prog (Host ObjectSig) α}
    {Q : α → Snap (Host ObjectSig) World → Prop} (hE : Overlooks E)
    (herror : ∀ e, AloneSpec hooks t (fun s => Seen E s₀ st ob s ∧ Since s₀.hist OpFailed s)
      (k (.error e)) Q)
    (hfound : s₀.world.hidden id = none → AloneSpec hooks t (Seen E s₀ st ob) (k (.ok (st id))) Q) :
    AloneSpec hooks t (Seen E s₀ st ob) (.step (.stateGet id) k) Q := by
  refine look (o := .stateGet id) (fun (r : Except Error (Option UploadState)) s =>
    outcomes (Since s₀.hist OpFailed) (fun x _ => x = st id ∧ s₀.world.hidden id = none) r s)
    hE trivial ?_ fun r => ?_
  · intro s a w' hs he
    cases he with
    | stateGet hid => exact ⟨congrFun hs.states id, (congrFun hs.hidden id).symm.trans hid⟩
    | stateGetFailed => exact .now hs.hist ⟨_, rfl⟩
  · cases r with
    | error e => exact herror e
    | ok x =>
      rintro s ⟨hs, rfl, hid⟩
      exact hfound hid s hs

theorem requireState_reads {id : String} (hE : Overlooks E) (hc : st id = none → c) :
    Reads hooks t E s₀ st ob X c (requireState id) fun x =>
      st id = some x ∧ s₀.world.hidden id = none := by
  refine get_look hE (fun e => Spec.done fun s hs => ⟨hs.1, .inl hs.2⟩) fun hid => ?_
  cases hx : st id with
  | none => exact Spec.done fun s hs => ⟨hs, .inr (.inr (hc hx))⟩
  | some x => exact Spec.done fun s hs => ⟨hs, rfl, hid⟩

theorem checkExists_reads {id : String} (hE : Overlooks E) (hc : st id = none → c) :
    Reads hooks t E s₀ st ob X c (checkExists id) fun _ => True := by
  refine get_look hE (fun e => Spec.done fun s hs => ⟨hs.1, .inl hs.2⟩) fun _ => ?_
  cases hx : st id with
  | none => exact Spec.done fun s hs => ⟨hs, .inr (.inr (hc hx))⟩
  | some x => exact Spec.done fun s hs => ⟨hs, trivial⟩

/-! ## Parts -/

/-- The records of the parts, none of them expired before `s₀`. -/
structure Gathered (s₀ : Snap (Host ObjectSig) World) (st : String → Option UploadState)
    (ids : List String) (parts : List UploadState) : Prop where
  records : List.Forall₂ (fun id p => st id = some p) ids parts
  active : ∀ p ∈ parts, p.expiresBefore s₀.world.clock = false

theorem loadStatusParts_reads {id : String} {ids : List String} (hE : Overlooks E)
    (hX : ∀ p ∈ ids, ∀ x, st p = some x → X x) (hc : ∀ p ∈ ids, st p = none → c) :
    Reads hooks t E s₀ st ob X c (loadStatusParts id ids) (Gathered s₀ st ids) := by
  induction ids with
  | nil => exact Reads.pure ⟨.nil, List.forall_mem_nil _⟩
  | cons p ps ih =>
    refine get_look hE (fun e => Spec.done fun s hs => ⟨hs.1, .inl hs.2⟩) fun _ => ?_
    cases hx : st p with
    | none => exact Spec.done fun s hs => ⟨hs, .inr (.inr (hc p List.mem_cons_self hx))⟩
    | some x =>
      refine expiry_look hE (Spec.done fun s hs => ⟨hs.1, .inr (.inl ⟨x, ?_, hs.2⟩)⟩) fun hact => ?_
      · exact hX p List.mem_cons_self x hx
      refine Spec.bind _ (ih (fun q hq => hX q (List.mem_cons_of_mem _ hq))
        fun q hq => hc q (List.mem_cons_of_mem _ hq)) fun r => ?_
      cases r with
      | error e => exact Spec.done fun s hs => hs
      | ok parts =>
        refine Spec.done fun s hs => ⟨hs.1, .cons hx hs.2.records, ?_⟩
        exact List.forall_mem_cons.mpr ⟨hact, hs.2.active⟩

theorem summarizeFrom_reads {parts : List UploadState} (hE : Overlooks E) (hX : ∀ p ∈ parts, X p)
    (summary : PartsSummary) :
    Reads hooks t E s₀ st ob X c (summarizeFrom summary parts) fun status =>
      status = (parts.foldl PartsSummary.add summary).status := by
  induction parts generalizing summary with
  | nil => exact Reads.pure rfl
  | cons p ps ih =>
    refine expiry_look hE (Spec.done fun s hs => ⟨hs.1, .inr (.inl ⟨p, ?_, hs.2⟩)⟩) fun _ => ?_
    · exact hX p List.mem_cons_self
    exact ih (fun q hq => hX q (List.mem_cons_of_mem _ hq)) (summary.add p)

theorem loadFinalUploadStatus_reads {x : UploadState} {ids : List String} (hE : Overlooks E)
    (hids : x.parts = some ids) (hX : ∀ p ∈ ids, ∀ x, st p = some x → X x)
    (hc : ∀ p ∈ ids, st p = none → c) :
    Reads hooks t E s₀ st ob X c (loadFinalUploadStatus x) fun r =>
      ∃ parts, r = some ⟨ids, parts, statusOf parts⟩ ∧ Gathered s₀ st ids parts := by
  unfold loadFinalUploadStatus
  rw [hids]
  refine Reads.andThen (loadStatusParts_reads hE hX hc) fun parts hg => ?_
  have hparts : ∀ q ∈ parts, X q := by
    intro q hq
    obtain ⟨p, hp, hx⟩ := exists_of_forall₂ hg.records q hq
    exact hX p hp q hx
  refine Spec.bind _ (summarizeFrom_reads (c := c) hE hparts ⟨0, 0, true, true⟩) fun r => ?_
  match r with
  | .ok status => exact Spec.done fun s hs => ⟨hs.1, parts, hs.2 ▸ rfl, hg⟩
  | .error e =>
    cases e
    all_goals exact Spec.done fun s hs => hs

/-! ## Records that need no repair -/

/-- The size of the object is found. -/
theorem sized {h : StorageHandle} {f : Option Nat → HostM ObjectSig α} {A : α → Prop}
    (hE : Overlooks E)
    (hf : Reads hooks t E s₀ st ob X c (f ((ob h.key).map List.length)) A) :
    Reads hooks t E s₀ st ob X c (contract.size h >>= f) A := by
  refine Reads.andThen (size_reads hE h) fun n hn => ?_
  rw [hn]
  exact hf

/-- A record of an upload that is not final and counts the stored bytes is left as it is. -/
theorem prepareRegularUploadAccess_reads {x : UploadState} {h : StorageHandle}
    (hE : Overlooks E) (hX : X x) (hh : x.handle = some h)
    (hoff : x.offset = sizeOfObject (ob h.key)) :
    Reads hooks t E s₀ st ob X c (prepareRegularUploadAccess contract x) fun r => r = x := by
  have hdetect : Reads hooks t E s₀ st ob X c (detectStoredCompletion contract x)
      fun r => r = none := by
    unfold detectStoredCompletion
    refine Spec.ite (fun _ => Reads.pure rfl) fun hopen => ?_
    cases hlen : x.length with
    | none => exact Reads.pure rfl
    | some length =>
      have hlt : x.offset < length := by
        simp only [UploadState.isComplete, hlen, Bool.or_eq_true, decide_eq_true_eq, not_or,
          Nat.not_le] at hopen
        exact hopen.1
      simp only [hh]
      refine sized hE (Spec.ite (fun hgt => ?_) fun _ => Spec.ite (fun _ => Reads.pure rfl) ?_)
      · exact absurd (hoff ▸ hgt : x.offset > length) (Nat.lt_asymm hlt)
      · exact fun hne => absurd (hoff.trans (not_not.mp hne)) (Nat.ne_of_lt hlt)
  refine Reads.andThen (A := fun r => r = x) (Reads.andThen hdetect ?_) ?_
  · rintro _ rfl
    exact Reads.pure rfl
  rintro _ rfl
  refine Reads.andThen (ensureActive_reads hE hX) fun _ _ => ?_
  unfold reconcileStorageOffset
  simp only [hh]
  exact sized hE (Spec.ite (fun _ => Reads.pure rfl) fun hne => absurd hoff.symm hne)

/-- The record follows its parts, which are not ready to be joined. -/
structure Waiting (st : String → Option UploadState) (x : UploadState) (ids : List String)
    (parts : List UploadState) : Prop where
  ids_eq : x.parts = some ids
  records : List.Forall₂ (fun id p => st id = some p) ids parts
  unready : (statusOf parts).readyToMaterialize = false
  length : ∀ n, (statusOf parts).totalLength = some n → x.length = some n
  offset : x.offset = (statusOf parts).expectedOffset

/-- A record that follows its parts is left as it is. -/
theorem repairFinalUpload_reads {x : UploadState} {ids : List String} {parts : List UploadState}
    (hE : Overlooks E) (hw : Waiting st x ids parts) (hX : ∀ p ∈ ids, ∀ y, st p = some y → X y) :
    Reads hooks t E s₀ st ob X c (repairFinalUpload contract x) fun r => r = x := by
  have hfound : ∀ p ∈ ids, st p = none → c := by
    intro p hp hnone
    obtain ⟨y, _, hy⟩ := exists_of_forall₂ hw.records.flip p hp
    cases hnone.symm.trans hy
  refine Reads.andThen (loadFinalUploadStatus_reads hE hw.ids_eq hX hfound) ?_
  rintro _ ⟨parts', rfl, hg⟩
  have hsame : parts' = parts := by
    have hunique : Relator.RightUnique fun id p => st id = some p :=
      fun _ _ _ hp hq => Option.some.inj (hp.symm.trans hq)
    exact hunique.forall₂ hg.records hw.records
  subst hsame
  refine Spec.ite (fun hr => ?_) fun _ => ?_
  · exact absurd (hw.unready.symm.trans hr) Bool.false_ne_true
  have hinspect : (PlannedFinalUploadRefresh.inspect contract x parts' (statusOf parts')) =
      (pure ⟨parts', statusOf parts', none⟩ : HostM ObjectSig PlannedFinalUploadRefresh) := by
    unfold PlannedFinalUploadRefresh.inspect
    rw [if_neg (by simp [hw.unready])]
  have hlength : (PlannedFinalUploadRefresh.mk parts' (statusOf parts') none).refreshLength x =
      (x, false) := by
    unfold PlannedFinalUploadRefresh.refreshLength
    cases htotal : (statusOf parts').totalLength with
    | none => rfl
    | some n => simp only [hw.length n htotal, if_pos]
  have hoffset : (PlannedFinalUploadRefresh.mk parts' (statusOf parts') none).refreshOffset x =
      (x, false) := if_pos hw.offset
  have hcomplete : (PlannedFinalUploadRefresh.mk parts' (statusOf parts') none).willComplete x =
      false := by
    unfold PlannedFinalUploadRefresh.willComplete
    rw [hw.unready, Bool.false_and]
  refine Reads.andThen (A := fun r => r = ⟨parts', statusOf parts', none⟩) ?_ ?_
  · exact hinspect ▸ Reads.pure rfl
  rintro _ rfl
  simp only [hlength, hcomplete]
  refine Spec.ite (fun h => nomatch h) fun _ => Spec.ite (fun h => nomatch h) fun _ => ?_
  refine Reads.andThen (A := fun r => r = x) (Reads.pure rfl) ?_
  rintro _ rfl
  simp only [hoffset]
  exact Spec.ite (fun h => nomatch h) fun _ => Spec.ite (fun h => nomatch h) fun _ => Reads.pure rfl

/-- A record that needs no repair. -/
structure Steady (st : String → Option UploadState) (x : UploadState) (o : Option Bytes) :
    Prop where
  regular : x.isFinal = false → x.offset = sizeOfObject o
  materialized : x.isFinal = true → x.length = some (sizeOfObject o) → x.offset = sizeOfObject o
  waiting : x.isFinal = true → x.length ≠ some (sizeOfObject o) → ∃ ids parts, Waiting st x ids parts

/-- The records that decide whether `x` is active: its own, and those of the parts it waits
for. -/
def Concerns (st : String → Option UploadState) (x : UploadState) (o : Option Bytes)
    (y : UploadState) : Prop :=
  y = x ∨ x.isFinal = true ∧ x.length ≠ some (sizeOfObject o) ∧
    ∃ ids, x.parts = some ids ∧ ∃ p ∈ ids, st p = some y

/-- An object of the recorded length is taken as it is. -/
theorem recoverMaterializedFinalUpload_reads {x : UploadState} {h : StorageHandle}
    (hE : Overlooks E) (hh : x.handle = some h)
    (hoff : x.length = some (sizeOfObject (ob h.key)) → x.offset = sizeOfObject (ob h.key)) :
    Reads hooks t E s₀ st ob X c (recoverMaterializedFinalUpload contract x) fun r =>
      r = (x, decide (x.length = some (sizeOfObject (ob h.key)))) := by
  unfold recoverMaterializedFinalUpload
  cases hlen : x.length with
  | none => exact Reads.pure rfl
  | some length =>
    simp only [hh]
    refine sized hE (Spec.ite (fun hne => Reads.pure ?_) fun heq => ?_)
    · exact congrArg (Prod.mk x) (decide_eq_false fun h => hne (Option.some.inj h).symm).symm
    have hsize : sizeOfObject (ob h.key) = length := not_not.mp heq
    subst hsize
    refine Spec.ite (fun hne => absurd (hoff hlen) hne) fun _ => Reads.pure ?_
    exact congrArg (Prod.mk x) (decide_eq_true rfl).symm

theorem prepareUploadReadAccess_reads {x : UploadState} {h : StorageHandle} (hE : Overlooks E)
    (hh : x.handle = some h) (hx : Steady st x (ob h.key)) :
    Reads hooks t E s₀ st ob (Concerns st x (ob h.key)) c (prepareUploadReadAccess contract x)
      fun r => r = x := by
  unfold prepareUploadReadAccess
  refine Spec.ite (fun hf => ?_) fun hf => ?_
  · have hread : Reads hooks t E s₀ st ob (Concerns st x (ob h.key)) c (prepareRead contract x)
        fun r => r = x := by
      unfold prepareRead
      rw [if_neg (by simp [hf])]
      refine Reads.andThen (recoverMaterializedFinalUpload_reads hE hh (hx.materialized hf)) ?_
      rintro _ rfl
      refine Spec.ite (fun _ => Reads.pure rfl) fun hne => ?_
      have hne : x.length ≠ some (sizeOfObject (ob h.key)) := by simpa using hne
      obtain ⟨ids, parts, hw⟩ := hx.waiting hf hne
      refine Reads.andThen (ensureActive_reads hE (.inl rfl)) fun _ _ => ?_
      refine repairFinalUpload_reads hE hw fun p hp y hy => .inr ⟨hf, hne, ids, hw.ids_eq, p, hp, hy⟩
    refine Reads.andThen hread ?_
    rintro _ rfl
    exact Reads.andThen (ensureActive_reads hE (.inl rfl)) fun _ _ => Reads.pure rfl
  · exact prepareRegularUploadAccess_reads hE (.inl rfl) hh (hx.regular (by simpa using hf))

/-! ## A request that repairs nothing -/

/-- Neither the clock nor a look can invalidate `Q`. -/
structure Lasts (hooks : HookEvent → UploadState → Except Error PreHookResult → Prop) (t : Nat)
    (Q : Snap (Host ObjectSig) World → Prop) : Prop where
  drift : Undrifted (host hooks) Q
  push : ∀ s o a w', Looks o → HostExec hooks t o s.world a w' → Q s → Q (s.push t o a w')

theorem Lasts.and {P Q : Snap (Host ObjectSig) World → Prop} (hP : Lasts hooks t P)
    (hQ : Lasts hooks t Q) : Lasts hooks t fun s => P s ∧ Q s where
  drift s w hs he := ⟨hP.drift s w hs.1 he, hQ.drift s w hs.2 he⟩
  push s o a w' ho he hs := ⟨hP.push s o a w' ho he hs.1, hQ.push s o a w' ho he hs.2⟩

theorem Lasts.exists {γ : Type} {Q : γ → Snap (Host ObjectSig) World → Prop}
    (h : ∀ x, Lasts hooks t (Q x)) : Lasts hooks t fun s => ∃ x, Q x s where
  drift := by
    rintro s w ⟨x, hs⟩ he
    exact ⟨x, (h x).drift s w hs he⟩
  push := by
    rintro s o a w' ho he ⟨x, hs⟩
    exact ⟨x, (h x).push s o a w' ho he hs⟩

theorem lasts_const {p : Prop} : Lasts hooks t fun _ => p :=
  ⟨fun _ _ hs _ => hs, fun _ _ _ _ _ _ hs => hs⟩

theorem lasts_seen (hE : Overlooks E) : Lasts hooks t (Seen E s₀ st ob) where
  drift := seen_undrifted
  push s o a w' ho he hs := by
    obtain ⟨hst, hob, hhid, hclock⟩ := ho.exec he
    exact hs.push (hE _ ho) (hst.trans hs.states) (hob.trans hs.objects) hhid hclock

theorem lasts_blame : Lasts hooks t (Blame s₀ X c) where
  drift := by
    rintro s _ (hs | ⟨x, hx, hexp⟩ | hs) ⟨n, hn, rfl⟩
    · exact .inl hs
    · exact .inr (.inl ⟨x, hx, expired_later hn hexp⟩)
    · exact .inr (.inr hs)
  push s o a w' ho he := by
    rintro (hs | ⟨x, hx, hexp⟩ | hs)
    · exact .inl hs.push
    · exact .inr (.inl ⟨x, hx, (ho.exec he).2.2.2 ▸ hexp⟩)
    · exact .inr (.inr hs)

/-- A body under the lock, which is given back last. -/
theorem withLock_lasts {id : String} {body : HostM ObjectSig α}
    {Q : Except Error α → Snap (Host ObjectSig) World → Prop} (hE : Overlooks E)
    (hbody : AloneSpec hooks t (Seen E s₀ st ob) body Q) (hQ : ∀ r, Lasts hooks t (Q r))
    (hfail : ∀ e s, Seen E s₀ st ob s → Since s₀.hist OpFailed s → Q (.error e) s) :
    AloneSpec hooks t (Seen E s₀ st ob) (withLock id body) fun r s =>
      Q r s ∧ ∀ a, r = .ok a → s.world.locks id = none := by
  refine look (o := .lock id) (fun (r : Except Error Unit) s =>
    ∀ e, r = .error e → Since s₀.hist OpFailed s) hE trivial ?_ fun r => ?_
  · intro s a w' hs he
    cases he with
    | lock => exact fun _ h => nomatch h
    | lockFailed => exact fun _ _ => .now hs.hist ⟨_, rfl⟩
  cases r with
  | error e => exact Spec.done fun s hs => ⟨hfail e s hs.1 (hs.2 e rfl), fun _ h => nomatch h⟩
  | ok _ =>
    refine Spec.weaken (P := Seen E s₀ st ob) ?_ (fun s hs => hs.1) fun _ _ hs => hs
    refine Spec.bind _ hbody fun r => ?_
    refine alone_step (o := .unlock id) (fun _ s => Q r s ∧ s.world.locks id = none) (hQ r).drift ?_
      fun _ => Spec.done fun s hs => ⟨hs.1, fun _ _ => hs.2⟩
    intro s a w' hs he
    refine ⟨(hQ r).push s _ a w' trivial he hs, ?_⟩
    cases he
    exact Function.update_self _ _ _

theorem Reads.lasts (hE : Overlooks E) {A : α → Prop} (r : Except Error α) :
    Lasts hooks t (outcomes (fun s => Seen E s₀ st ob s ∧ Blame s₀ X c s)
      (fun a s => Seen E s₀ st ob s ∧ A a) r) := by
  cases r with
  | ok a => exact (lasts_seen hE).and lasts_const
  | error e => exact (lasts_seen hE).and lasts_blame

theorem withLock_reads {id : String} {body : HostM ObjectSig α} {A : α → Prop} (hE : Overlooks E)
    (hbody : Reads hooks t E s₀ st ob X c body A) :
    Reads hooks t E s₀ st ob X c (withLock id body) A :=
  Spec.weaken (withLock_lasts hE hbody (Reads.lasts hE) fun _ _ hs hf => ⟨hs, .inl hf⟩)
    (fun _ hs => hs) fun _ _ hs => hs.1

end Looking

/-! ## Observations -/

/-- The requests that look at an upload. -/
inductive Observation where
  | head
  | download

def Observation.request (id : String) : Observation → Request
  | .head => .head id
  | .download => .download id

/-- The answer tells what the record says, and the content of a complete upload. -/
def Tells (server : Server ObjectSig) (texts : Texts) (x : UploadState) (content : Bytes) :
    Answer → Prop
  | .response r => r = headResponse server texts x
  | .content n bytes => x.isComplete = true ∧ n = x.offset ∧ bytes = if n = 0 then [] else content
  | _ => False

/-- A GET of an upload that cannot be downloaded. -/
def Unavailable (config : Config) (x : UploadState) : Observation → Prop
  | .head => False
  | .download => config.disableDownload = true ∨ x.isComplete = false

section Second

variable {E : Event (Host ObjectSig) World → Prop} {s₀ : Snap (Host ObjectSig) World}
  {st : String → Option UploadState} {ob : String → Option Bytes} {X : UploadState → Prop} {c : Prop}
  {config : Config} {digests : Digests} {texts : Texts} {id : String} {x : UploadState}
  {h : StorageHandle}

theorem answerWith_reads {f : α → Answer} {p : HostM ObjectSig α} {A : α → Prop} {B : Answer → Prop}
    (hp : Reads hooks t E s₀ st ob X c p A) (hB : ∀ a, A a → B (f a)) :
    AloneSpec hooks t (Seen E s₀ st ob) (answerWith f p) fun a s =>
      Seen E s₀ st ob s ∧ (B a ∨ (∃ e, a = .failed e) ∧ Blame s₀ X c s) := by
  refine Spec.bind _ hp fun r => ?_
  cases r with
  | ok a => exact Spec.done fun s hs => ⟨hs.1, .inl (hB a hs.2)⟩
  | error e => exact Spec.done fun s hs => ⟨hs.1, .inr ⟨⟨e, rfl⟩, hs.2⟩⟩

theorem head_reads (hE : Overlooks E) (hx : st id = some x) (hh : x.handle = some h)
    (hs : Steady st x (ob h.key)) :
    Reads hooks t E s₀ st ob (Concerns st x (ob h.key)) c
      (Protocol.head ⟨config, digests, contract⟩ texts id)
      fun r => r = headResponse ⟨config, digests, contract⟩ texts x := by
  have hnone : st id = none → c := fun hn => nomatch hx.symm.trans hn
  refine Reads.andThen (checkExists_reads hE hnone) fun _ _ => withLock_reads hE ?_
  refine Reads.andThen (requireState_reads hE hnone) fun y hy => ?_
  obtain rfl : x = y := Option.some.inj (hx.symm.trans hy.1)
  refine Reads.andThen (prepareUploadReadAccess_reads hE hh hs) ?_
  rintro _ rfl
  exact Reads.pure rfl

theorem stream_reads (hE : Overlooks E) (h : StorageHandle) :
    Reads hooks t E s₀ st ob X c (contract.stream h) fun bytes => ob h.key = some bytes := by
  refine look (o := .storage (.stream h)) (fun (r : Except Error Bytes) s =>
    outcomes (Since s₀.hist OpFailed) (fun bytes _ => ob h.key = some bytes) r s) hE trivial ?_
    fun r => Spec.done ?_
  · intro s a w' hs he
    cases he with
    | stream hobj => exact hs.objects ▸ hobj
    | streamFailed => exact .now hs.hist ⟨_, rfl⟩
  · cases r with
    | ok n => exact fun s hs => hs
    | error e => exact fun s hs => ⟨hs.1, .inl hs.2⟩

/-- The content of a complete upload. -/
theorem content_reads (hE : Overlooks E) (hh : x.handle = some h) (hcomplete : x.isComplete = true) :
    Reads hooks t E s₀ st ob X c
      (if x.offset = 0 then pure (0, [])
      else do
        let handle ← Attempt.lift x.requireStorageHandle
        let bytes ← contract.stream handle
        pure (x.offset, bytes) : HostM ObjectSig (Nat × Bytes))
      fun r => x.isComplete = true ∧ r.1 = x.offset ∧
        r.2 = if r.1 = 0 then [] else (ob h.key).getD [] := by
  refine Spec.ite (fun hzero => Reads.pure ⟨hcomplete, hzero.symm, rfl⟩) fun hpos => ?_
  have hhandle : Reads hooks t E s₀ st ob X c
      (Attempt.lift x.requireStorageHandle : HostM ObjectSig StorageHandle) fun h' => h' = h := by
    unfold UploadState.requireStorageHandle
    rw [hh]
    exact Reads.pure rfl
  refine Reads.andThen hhandle fun h' hh' => ?_
  obtain rfl : h = h' := hh'.symm
  refine Reads.andThen (stream_reads hE h) fun bytes hb => Reads.pure ⟨hcomplete, rfl, ?_⟩
  rw [if_neg hpos, hb]
  rfl

theorem download_reads (hE : Overlooks E) (hx : st id = some x) (hh : x.handle = some h)
    (hs : Steady st x (ob h.key)) (hc : Unavailable config x .download → c) :
    Reads hooks t E s₀ st ob (Concerns st x (ob h.key)) c
      (Protocol.download ⟨config, digests, contract⟩ id)
      fun r => x.isComplete = true ∧ r.1 = x.offset ∧
        r.2 = if r.1 = 0 then [] else (ob h.key).getD [] := by
  have hnone : st id = none → c := fun hn => nomatch hx.symm.trans hn
  refine Spec.ite (fun hd => Reads.throw (hc (.inl hd))) fun _ => ?_
  refine Reads.andThen (checkExists_reads hE hnone) fun _ _ => withLock_reads hE ?_
  refine Reads.andThen (requireState_reads hE hnone) fun y hy => ?_
  obtain rfl : x = y := Option.some.inj (hx.symm.trans hy.1)
  have haccess : Reads hooks t E s₀ st ob (Concerns st x (ob h.key)) c
      (prepareUploadDownloadAccess contract x) fun r => r = x ∧ x.isComplete = true := by
    refine Reads.andThen (prepareUploadReadAccess_reads hE hh hs) ?_
    rintro _ rfl
    refine Spec.ite (fun hopen => Reads.throw (hc (.inr (by simpa using hopen)))) fun hopen => ?_
    exact Reads.pure ⟨rfl, by simpa using hopen⟩
  refine Reads.andThen haccess ?_
  rintro y ⟨hy, hcomplete⟩
  obtain rfl : x = y := hy.symm
  exact content_reads hE hh hcomplete

/-- What follows on a record that needs no repair. -/
theorem observe_reads (hE : Overlooks E) (hx : st id = some x) (hh : x.handle = some h)
    (hs : Steady st x (ob h.key)) (second : Observation) :
    AloneSpec hooks t (Seen E s₀ st ob)
      (serve ⟨config, digests, contract⟩ texts (second.request id)) fun a s => Seen E s₀ st ob s ∧
        (Tells ⟨config, digests, contract⟩ texts x ((ob h.key).getD []) a ∨ (∃ e, a = .failed e) ∧
          Blame s₀ (Concerns st x (ob h.key)) (Unavailable config x second) s) := by
  cases second with
  | head => exact answerWith_reads (head_reads hE hx hh hs) fun _ hr => hr
  | download => exact answerWith_reads (download_reads hE hx hh hs fun hu => hu) fun _ hr => hr

end Second

/-! ## The first observation -/

section First

variable {s₀ : Snap (Host ObjectSig) World} {st : String → Option UploadState}
  {ob : String → Option Bytes}

/-- Any event may happen. -/
def Nothing (_ : Event (Host ObjectSig) World) : Prop := False

theorem overlooks_nothing : Overlooks Nothing := fun _ _ h => h

/-- A part of a handler that may write; of its failures nothing is said. -/
abbrev Brings (hooks : HookEvent → UploadState → Except Error PreHookResult → Prop) (t : Nat)
    (P : Snap (Host ObjectSig) World → Prop) (p : HostM ObjectSig α)
    (A : α → Snap (Host ObjectSig) World → Prop) : Prop :=
  AloneSpec hooks t P p (outcomes (fun _ => True) A)

theorem Brings.andThen {P : Snap (Host ObjectSig) World → Prop} {p : HostM ObjectSig α}
    {f : α → HostM ObjectSig β} {A : α → Snap (Host ObjectSig) World → Prop}
    {B : β → Snap (Host ObjectSig) World → Prop} (hp : Brings hooks t P p A)
    (hf : ∀ a, Brings hooks t (A a) (f a) B) : Brings hooks t P (p >>= f) B :=
  Spec.andThen _ hp hf fun _ _ _ => trivial

theorem Brings.pure {P : Snap (Host ObjectSig) World → Prop} {a : α}
    {A : α → Snap (Host ObjectSig) World → Prop} (h : ∀ s, P s → A a s) :
    Brings hooks t P (pure a : HostM ObjectSig α) A :=
  Spec.done h

theorem Brings.mono {P : Snap (Host ObjectSig) World → Prop} {p : HostM ObjectSig α}
    {A B : α → Snap (Host ObjectSig) World → Prop} (h : Brings hooks t P p A)
    (hAB : ∀ a s, A a s → B a s) : Brings hooks t P p B := by
  refine Spec.weaken h (fun _ hs => hs) ?_
  rintro (e | a) s hs
  · exact trivial
  · exact hAB a s hs

theorem Reads.brings {p : HostM ObjectSig α} {A : α → Prop}
    (h : Reads hooks t Nothing s₀ st ob (fun _ => True) True p A) :
    Brings hooks t (Seen Nothing s₀ st ob) p fun a s => Seen Nothing s₀ st ob s ∧ A a := by
  refine Spec.weaken h (fun _ hs => hs) ?_
  rintro (e | a) s hs
  · exact trivial
  · exact hs

theorem lift_brings {P : Snap (Host ObjectSig) World → Prop} (r : Except Error α) :
    Brings hooks t P (Attempt.lift r : HostM ObjectSig α) fun a s => P s ∧ r = .ok a := by
  refine Spec.done fun s hs => ?_
  cases r with
  | ok a => exact ⟨hs, rfl⟩
  | error e => exact trivial

/-- After a look. -/
theorem Reads.before {p : HostM ObjectSig α} {f : α → HostM ObjectSig β} {A : α → Prop}
    {B : β → Snap (Host ObjectSig) World → Prop}
    (hp : Reads hooks t Nothing s₀ st ob (fun _ => True) True p A)
    (hf : ∀ a, A a → Brings hooks t (Seen Nothing s₀ st ob) (f a) B) :
    Brings hooks t (Seen Nothing s₀ st ob) (p >>= f) B :=
  Brings.andThen hp.brings fun a => Spec.assume (hf a)

theorem finishGate_seen (x : UploadState) :
    Brings hooks t (Seen Nothing s₀ st ob) (finishGate x) fun _ => Seen Nothing s₀ st ob := by
  refine Brings.andThen (A := fun _ => Seen Nothing s₀ st ob) ?_ fun _ => Brings.pure fun _ hs => hs
  refine alone_step (o := .hookPre PreHookGate.finish.event x) (fun _ => Seen Nothing s₀ st ob)
    seen_undrifted ?_ fun r => ?_
  · intro s a w' hs he
    cases he
    exact hs.push (fun h => h) hs.states hs.objects rfl rfl
  · cases r with
    | error e => exact Spec.done fun _ _ => trivial
    | ok r => exact Spec.ite (fun _ => Spec.done fun _ hs => hs) fun _ => Spec.done fun _ _ => trivial

theorem afterCommit_seen (x : UploadState) :
    Brings hooks t (Seen Nothing s₀ st ob) (afterCommit x) fun _ => Seen Nothing s₀ st ob := by
  refine alone_step (o := .hookPost .postFinish x) (fun _ => Seen Nothing s₀ st ob)
    seen_undrifted ?_ fun _ => Spec.done fun _ hs => hs
  intro s a w' hs he
  cases he
  exact hs.push (fun h => h) hs.states hs.objects rfl rfl

theorem setState_seen (y : UploadState) :
    Brings hooks t (Seen Nothing s₀ st ob) (setState y .update) fun _ =>
      Seen Nothing s₀ (Function.update st y.id (some y)) ob := by
  refine alone_step (o := .stateSet y .update) (fun (r : Except Error Unit) =>
    outcomes (fun _ => True) (fun _ => Seen Nothing s₀ (Function.update st y.id (some y)) ob) r)
    seen_undrifted ?_ fun _ => Spec.done fun _ hs => hs
  intro s a w' hs he
  cases he with
  | stateUpdate =>
    refine hs.push (fun h => h) ?_ hs.objects rfl rfl
    rw [World.setState_states, hs.states]
  | stateSetFailed => exact trivial

/-- What a concatenation makes of the object under `key`. -/
structure Joined (ob : String → Option Bytes) (sources : List StorageHandle) (bytes : Bytes) :
    Prop where
  contents : ∃ contents, List.Forall₂ (fun (h : StorageHandle) b => ob h.key = some b) sources
    contents ∧ bytes = contents.flatten
  fits : bytes.length ≤ u64Max

theorem concat_seen (target : StorageHandle) (sources : List StorageHandle) :
    Brings hooks t (Seen Nothing s₀ st ob) (contract.concat target sources) fun h s =>
      ∃ bytes, Seen Nothing s₀ st (Function.update ob target.key (some bytes)) s ∧
        (h.key = target.key ∧ Joined ob sources bytes) := by
  refine alone_step (o := .storage (.concat target sources)) (fun (r : Except Error StorageHandle) =>
    outcomes (fun _ => True) (fun h s => ∃ bytes,
      Seen Nothing s₀ st (Function.update ob target.key (some bytes)) s ∧
        (h.key = target.key ∧ Joined ob sources bytes)) r)
    seen_undrifted ?_ fun _ => Spec.done fun _ hs => hs
  intro s a w' hs he
  cases he with
  | concat hcontents hfits =>
    refine ⟨_, hs.push (fun h => h) hs.states ?_ rfl rfl, rfl, ⟨_, hs.objects ▸ hcontents, rfl⟩, hfits⟩
    rw [World.put_objects, hs.objects]
  | concatFailed => exact trivial

/-! ### Uploads that are not final -/

variable {x : UploadState} {h : StorageHandle}

theorem detectStoredCompletion_first (hh : x.handle = some h) :
    Reads hooks t Nothing s₀ st ob (fun _ => True) True (detectStoredCompletion contract x)
      (Detection x (ob h.key)) := by
  unfold detectStoredCompletion
  refine Spec.ite (fun hc => Reads.pure ⟨by rintro _ ⟨⟩, ?_⟩) fun hc => ?_
  · intro _ hcomplete hpartial
    simp [hcomplete, hpartial] at hc
  simp only [Bool.or_eq_true, not_or, Bool.not_eq_true] at hc
  cases hlen : x.length with
  | none =>
    refine Reads.pure ⟨by rintro _ ⟨⟩, fun _ _ _ l hl => ?_⟩
    cases hlen.symm.trans hl
  | some length =>
    simp only [hh]
    refine sized overlooks_nothing (Spec.ite (fun _ => Reads.throw trivial) fun _ => ?_)
    refine Spec.ite (fun hne => Reads.pure ⟨by rintro _ ⟨⟩, ?_⟩)
      fun heq => Reads.pure ⟨?_, by rintro ⟨⟩⟩
    · intro _ _ _ l hl
      cases hlen.symm.trans hl
      exact hne
    · rintro l hl
      cases hl
      exact ⟨hlen, not_not.mp heq, hc.1, hc.2⟩

/-- The record counts the stored bytes: as it was, or completed by them. -/
def Caught (x : UploadState) (o : Option Bytes) (y : UploadState) : Prop :=
  y = x ∨ y = x.setOffset (sizeOfObject o) ∧ y.expires = false

theorem reconcileStoredCompletion_first (hh : x.handle = some h) (hx : st x.id = some x) :
    Brings hooks t (Seen Nothing s₀ st ob) (reconcileStoredCompletion contract x) fun y s =>
      Seen Nothing s₀ (Function.update st x.id (some y)) ob s ∧ Caught x (ob h.key) y := by
  refine Reads.before (detectStoredCompletion_first hh) fun r hr => ?_
  cases r with
  | none =>
    refine Brings.pure fun s hs => ⟨?_, .inl rfl⟩
    rw [← hx, Function.update_eq_self]
    exact hs
  | some length =>
    obtain ⟨hlen, hsize, _, hpartial⟩ := hr.found length rfl
    subst hsize
    refine Brings.andThen (finishGate_seen _) fun _ => ?_
    refine Brings.andThen (setState_seen (x.setOffset (sizeOfObject (ob h.key)))) fun _ => ?_
    refine Brings.andThen (afterCommit_seen _) fun _ => Brings.pure fun s hs => ⟨hs, .inr ⟨rfl, ?_⟩⟩
    simp [UploadState.expires, UploadState.isComplete, UploadState.setOffset, hlen, hpartial]

/-- The offset is that of the stored bytes. -/
theorem reconcileStorageOffset_first (hh : x.handle = some h) (hx : st x.id = some x) :
    Brings hooks t (Seen Nothing s₀ st ob) (reconcileStorageOffset contract x) fun y s =>
      Seen Nothing s₀ (Function.update st x.id (some y)) ob s ∧
        y = x.setOffset (sizeOfObject (ob h.key)) := by
  unfold reconcileStorageOffset
  simp only [hh]
  have hset : Brings hooks t (Seen Nothing s₀ st ob)
      (do setState (x.setOffset (sizeOfObject (ob h.key))) .update
          pure (x.setOffset (sizeOfObject (ob h.key))) : HostM ObjectSig UploadState) fun y s =>
      Seen Nothing s₀ (Function.update st x.id (some y)) ob s ∧
        y = x.setOffset (sizeOfObject (ob h.key)) :=
    Brings.andThen (setState_seen _) fun _ => Brings.pure fun s hs => ⟨hs, rfl⟩
  refine Reads.before (size_reads overlooks_nothing h) ?_
  rintro _ rfl
  refine Spec.ite (fun heq => Brings.pure fun s hs => ⟨?_, ?_⟩) fun _ => ?_
  · rw [← hx, Function.update_eq_self]
    exact hs
  · exact (setOffset_self heq.symm).symm
  · cases x.length with
    | none => exact hset
    | some length => exact Spec.ite (fun _ => Spec.done fun _ _ => trivial) fun _ => hset

theorem prepareRegularUploadAccess_first (hh : x.handle = some h) (hx : st x.id = some x) :
    Brings hooks t (Seen Nothing s₀ st ob) (prepareRegularUploadAccess contract x) fun y s =>
      Seen Nothing s₀ (Function.update st x.id (some y)) ob s ∧
        (y = x.setOffset (sizeOfObject (ob h.key)) ∧
          (x.expiresBefore s₀.world.clock = false ∨ y.expires = false)) := by
  refine Brings.andThen (reconcileStoredCompletion_first hh hx) fun y => Spec.assume fun hy => ?_
  have hid : y.id = x.id ∧ y.handle = some h ∧
      y.setOffset (sizeOfObject (ob h.key)) = x.setOffset (sizeOfObject (ob h.key)) := by
    obtain rfl | ⟨rfl, _⟩ := hy
    · exact ⟨rfl, hh, rfl⟩
    · exact ⟨rfl, hh, rfl⟩
  refine Reads.before (ensureActive_reads overlooks_nothing trivial) fun _ hact => ?_
  refine Brings.mono (reconcileStorageOffset_first hid.2.1 ?_) ?_
  · rw [hid.1]
    exact Function.update_self _ _ _
  · rintro z s ⟨hs, rfl⟩
    rw [hid.1, Function.update_idem] at hs
    refine ⟨hs, hid.2.2, ?_⟩
    obtain rfl | ⟨rfl, hexp⟩ := hy
    · exact .inl hact
    · exact .inr hexp

/-! ### Final uploads -/

theorem recoverMaterializedFinalUpload_first (hh : x.handle = some h) (hx : st x.id = some x) :
    Brings hooks t (Seen Nothing s₀ st ob) (recoverMaterializedFinalUpload contract x) fun r s =>
      Seen Nothing s₀ (Function.update st x.id (some r.1)) ob s ∧ Recovery x (ob h.key) r := by
  have hkeep : Function.update st x.id (some x) = st := by rw [← hx, Function.update_eq_self]
  unfold recoverMaterializedFinalUpload
  cases hlen : x.length with
  | none =>
    refine Brings.pure fun s hs => ⟨?_, nofun, fun _ => ⟨rfl, fun l hl => nomatch hlen ▸ hl⟩⟩
    rw [hkeep]
    exact hs
  | some length =>
    simp only [hh]
    refine Reads.before (size_reads overlooks_nothing h) ?_
    rintro _ rfl
    refine Spec.ite (fun hne => Brings.pure fun s hs => ⟨?_, nofun, fun _ => ⟨rfl, ?_⟩⟩) fun heq => ?_
    · rw [hkeep]
      exact hs
    · intro l hl
      cases hlen.symm.trans hl
      exact hne
    have hsize : sizeOfObject (ob h.key) = length := not_not.mp heq
    subst hsize
    refine Spec.ite (fun _ => ?_) fun hoff => ?_
    · refine Brings.andThen (setState_seen _) fun _ => Brings.pure fun s hs => ?_
      exact ⟨hs, fun _ => ⟨rfl, hlen⟩, nofun⟩
    · refine Brings.pure fun s hs => ⟨?_, fun _ => ⟨(setOffset_self (not_not.mp hoff)).symm, hlen⟩, nofun⟩
      rw [hkeep]
      exact hs

/-- The record `x₁` and the object `o₁` that a repair makes of `x` and `o`. -/
structure Repaired (x : UploadState) (h : StorageHandle) (o : Option Bytes)
    (parts : List UploadState) (x₁ : UploadState) (o₁ : Option Bytes) : Prop where
  follows : Follows x parts x₁
  handle : ∃ h₁, x₁.handle = some h₁ ∧ h₁.key = h.key
  offset : x₁.offset = (statusOf parts).expectedOffset
  ready : (statusOf parts).readyToMaterialize = true →
    (statusOf parts).totalLength = some (sizeOfObject o₁)
  unready : (statusOf parts).readyToMaterialize = false → o₁ = o

variable {parts : List UploadState} {ids : List String}

theorem inspect_first (hh : x.handle = some h) :
    Reads hooks t Nothing s₀ st ob (fun _ => True) True
      (PlannedFinalUploadRefresh.inspect contract x parts (statusOf parts)) fun r =>
        r = ⟨parts, statusOf parts, if (statusOf parts).readyToMaterialize then
          some (sizeOfObject (ob h.key)) else none⟩ := by
  unfold PlannedFinalUploadRefresh.inspect storageSize
  simp only [hh]
  refine Spec.ite (fun hr => ?_) fun hr => ?_
  · refine Reads.andThen (A := fun n => n = sizeOfObject (ob h.key)) ?_ ?_
    · exact sized overlooks_nothing (Reads.pure rfl)
    · rintro _ rfl
      exact Reads.pure (by rw [if_pos hr])
  · exact Reads.pure (by rw [if_neg hr])

/-- The record is written if it differs. -/
theorem recordRepaired_first {cur : UploadState} {due completes : Bool}
    (hsame : due = false → st cur.id = some cur) :
    Brings hooks t (Seen Nothing s₀ st ob)
      (do
        if due then setState cur .update else pure ()
        if completes then afterCommit cur else pure ()
        pure cur : HostM ObjectSig UploadState)
      fun r s => Seen Nothing s₀ (Function.update st cur.id (some cur)) ob s ∧ r = cur := by
  have hdone : ∀ st', Brings hooks t (Seen Nothing s₀ st' ob)
      (pure cur : HostM ObjectSig UploadState) fun r s => Seen Nothing s₀ st' ob s ∧ r = cur :=
    fun _ => Brings.pure fun s hs => ⟨hs, rfl⟩
  have hrest : ∀ st', Brings hooks t (Seen Nothing s₀ st' ob)
      (do
        if completes then afterCommit cur else pure ()
        pure cur : HostM ObjectSig UploadState)
      fun r s => Seen Nothing s₀ st' ob s ∧ r = cur := fun st' =>
    Spec.ite (fun _ => Brings.andThen (afterCommit_seen cur) fun _ => hdone st') fun _ => hdone st'
  refine Spec.ite (fun _ => Brings.andThen (setState_seen cur) fun _ => hrest _) fun hdue => ?_
  have hkeep : Function.update st cur.id (some cur) = st := by
    rw [← hsame (by simpa using hdue), Function.update_eq_self]
  rw [hkeep]
  exact hrest st

theorem materializeFinalUpload_first (hh : x.handle = some h) :
    Brings hooks t (Seen Nothing s₀ st ob) (materializeFinalUpload contract x parts) fun y s =>
      ∃ bytes, Seen Nothing s₀ st (Function.update ob h.key (some bytes)) s ∧
        ∃ h₁ sources, y = x.setStorageHandle h₁ ∧ h₁.key = h.key ∧
          List.Forall₂ (fun (p : UploadState) h => p.handle = some h) parts sources ∧
          Joined ob sources bytes := by
  have htarget : x.requireStorageHandle = .ok h := by
    unfold UploadState.requireStorageHandle
    rw [hh]
  unfold materializeFinalUpload
  rw [htarget]
  refine Brings.andThen (lift_brings _) fun target => Spec.assume fun heq => ?_
  obtain rfl : h = target := Except.ok.inj heq
  refine Brings.andThen (lift_brings _) fun sources => Spec.assume fun hsources => ?_
  refine Brings.andThen (concat_seen h sources) fun h₁ => Brings.pure ?_
  rintro s ⟨bytes, hs, hkey, hjoined⟩
  exact ⟨bytes, hs, h₁, sources, rfl, hkey, requireStorageHandles_ok hsources, hjoined⟩

/-- The record follows its parts, and the object is their concatenation where they are
complete. -/
theorem repairPlanned_first (hh : x.handle = some h) (hx : st x.id = some x)
    (hlen : ∀ l, x.length = some l → (statusOf parts).totalLength = some l)
    (hjoin : ∀ sources bytes,
      List.Forall₂ (fun (p : UploadState) h => p.handle = some h) parts sources →
      Joined ob sources bytes → (statusOf parts).readyToMaterialize = true →
      (statusOf parts).totalLength = some bytes.length) :
    Brings hooks t (Seen Nothing s₀ st ob) (repairPlanned contract x ⟨ids, parts, statusOf parts⟩)
      fun x₁ s => ∃ o₁, Seen Nothing s₀ (Function.update st x.id (some x₁))
        (Function.update ob h.key o₁) s ∧ Repaired x h (ob h.key) parts x₁ o₁ := by
  refine Reads.before (inspect_first hh) fun refresh hr => ?_
  have hneed := needsMaterialization_iff parts (ob h.key)
  rw [← hr] at hneed
  have hfirst : let r := refresh.refreshLength x
      Follows x parts r.1 ∧ r.1.handle = x.handle ∧ (r.2 = false → r.1 = x) := by
    rw [hr]
    exact PlannedFinalUploadRefresh.refreshLength_follows hlen
  have hsecond : ∀ cur, Follows x parts cur → let r := refresh.refreshOffset cur
      Follows x parts r.1 ∧ r.1.handle = cur.handle ∧
        r.1.offset = (statusOf parts).expectedOffset ∧ (r.2 = false → r.1 = cur) := by
    intro cur hcur
    rw [hr]
    exact PlannedFinalUploadRefresh.refreshOffset_follows hcur
  have hparts : refresh.parts = parts := by rw [hr]
  obtain ⟨hfollows, hhandle, hkept⟩ := hfirst
  dsimp only
  generalize refresh.refreshLength x = r₁ at hfollows hhandle hkept ⊢
  generalize refresh.willComplete r₁.1 = completes
  have hrest : Brings hooks t (Seen Nothing s₀ st ob)
      (do
        let state ←
          if refresh.needsMaterialization then
            materializeFinalUpload contract r₁.1 refresh.parts
          else pure r₁.1
        if r₁.2 || refresh.needsMaterialization || (refresh.refreshOffset state).2 then
          setState (refresh.refreshOffset state).1 .update
        else pure ()
        if completes then afterCommit (refresh.refreshOffset state).1 else pure ()
        pure (refresh.refreshOffset state).1 : HostM ObjectSig UploadState)
      fun x₁ s => ∃ o₁, Seen Nothing s₀ (Function.update st x.id (some x₁))
        (Function.update ob h.key o₁) s ∧ Repaired x h (ob h.key) parts x₁ o₁ := by
    refine Spec.ite (fun hn => ?_) fun hn => ?_
    · obtain ⟨hready, _⟩ := hneed.mp hn
      rw [hparts]
      refine Brings.andThen (materializeFinalUpload_first (hhandle.trans hh)) fun cur => ?_
      rintro s ⟨bytes, hs, h₁, sources, rfl, hkey, hsources, hjoined⟩
      have hcur : Follows x parts (r₁.1.setStorageHandle h₁) :=
        ⟨hfollows.id_eq, hfollows.isPartial, hfollows.isFinal, hfollows.parts_eq,
          hfollows.createdAt, hfollows.expiresAt, hfollows.length⟩
      obtain ⟨hfol, hhand, hoff, -⟩ := hsecond _ hcur
      refine (recordRepaired_first ?_).mono (fun x₁ s' hs' => ⟨some bytes, ?_, ?_⟩) s hs
      · intro hdue
        rw [hn] at hdue
        simp at hdue
      · obtain ⟨hs', rfl⟩ := hs'
        rw [hfol.id_eq] at hs'
        exact hs'
      · obtain ⟨_, rfl⟩ := hs'
        refine ⟨hfol, ⟨h₁, hhand, hkey⟩, hoff, fun _ => hjoin sources bytes hsources hjoined hready, ?_⟩
        exact fun hun => absurd (hun.symm.trans hready) Bool.false_ne_true
    · -- the object has the total size already, or the parts are not complete
      obtain ⟨hfol, hhand, hoff, hsame⟩ := hsecond _ hfollows
      refine (recordRepaired_first ?_).mono fun x₁ s' hs' => ⟨ob h.key, ?_, ?_⟩
      · intro hdue
        simp only [Bool.or_eq_false_iff] at hdue
        rw [hsame hdue.2, hkept hdue.1.1]
        exact hx
      · obtain ⟨hs', rfl⟩ := hs'
        rw [hfol.id_eq] at hs'
        rw [Function.update_eq_self]
        exact hs'
      · obtain ⟨_, rfl⟩ := hs'
        refine ⟨hfol, ⟨h, hhand.trans (hhandle.trans hh), rfl⟩, hoff, fun hready => ?_, fun _ => rfl⟩
        by_contra hne
        exact hn (hneed.mpr ⟨hready, hne⟩)
  exact Spec.ite (fun _ => Brings.andThen (finishGate_seen _) fun _ => hrest) fun _ => hrest

theorem unlockAll_lasts {Q : Snap (Host ObjectSig) World → Prop} (hQ : Lasts hooks t Q)
    (ids : List String) : AloneSpec hooks t Q (unlockAll ids) fun _ => Q := by
  induction ids with
  | nil => exact Spec.done fun _ hs => hs
  | cons id ids ih =>
    exact alone_step (o := .unlock id) (fun _ => Q) hQ.drift
      (fun s a w' hs he => hQ.push s _ a w' trivial he hs) fun _ => ih

theorem lockPartsThen_brings {body : HostM ObjectSig α}
    {A : α → Snap (Host ObjectSig) World → Prop}
    (hbody : Brings hooks t (Seen Nothing s₀ st ob) body A) (hA : ∀ a, Lasts hooks t (A a))
    (held rest : List String) :
    Brings hooks t (Seen Nothing s₀ st ob) (lockPartsThen body held rest) A := by
  have hP : Lasts hooks t (Seen Nothing s₀ st ob) := lasts_seen overlooks_nothing
  induction rest generalizing held with
  | nil =>
    refine Spec.bind _ hbody fun r => ?_
    have hr : Lasts hooks t (outcomes (fun _ => True) A r) := by
      cases r with
      | ok a => exact hA a
      | error e => exact lasts_const
    exact Spec.bind _ (unlockAll_lasts hr held) fun _ => Spec.done fun _ hs => hs
  | cons id ids ih =>
    refine alone_step (o := .tryLock id) (fun _ => Seen Nothing s₀ st ob) hP.drift
      (fun s a w' hs he => hP.push s _ a w' trivial he hs) fun r => ?_
    match r with
    | .error e =>
      exact Spec.bind _ (unlockAll_lasts hP held) fun _ => Spec.done fun _ _ => trivial
    | .ok false =>
      exact Spec.bind _ (unlockAll_lasts hP held) fun _ => Spec.done fun _ _ => trivial
    | .ok true => exact ih (id :: held)

/-- The known total of the loaded parts is the length of the record, and of their
concatenation. -/
structure Totals (st : String → Option UploadState) (ob : String → Option Bytes) (x : UploadState)
    (ids : List String) : Prop where
  length : ∀ parts, List.Forall₂ (fun id p => st id = some p) ids parts →
    ∀ l, x.length = some l → (statusOf parts).totalLength = some l
  joined : ∀ parts, List.Forall₂ (fun id p => st id = some p) ids parts →
    ∀ sources bytes, List.Forall₂ (fun (p : UploadState) h => p.handle = some h) parts sources →
    Joined ob sources bytes → (statusOf parts).readyToMaterialize = true →
    (statusOf parts).totalLength = some bytes.length

theorem repairFinalUpload_first (hh : x.handle = some h) (hx : st x.id = some x)
    (hids : x.parts = some ids) (htotal : Totals st ob x ids) :
    Brings hooks t (Seen Nothing s₀ st ob) (repairFinalUpload contract x) fun x₁ s =>
      ∃ o₁, Seen Nothing s₀ (Function.update st x.id (some x₁)) (Function.update ob h.key o₁) s ∧
        ∃ parts, Gathered s₀ st ids parts ∧ Repaired x h (ob h.key) parts x₁ o₁ := by
  have hload : Reads hooks t Nothing s₀ st ob (fun _ => True) True (loadFinalUploadStatus x) fun r =>
      ∃ parts, r = some ⟨ids, parts, statusOf parts⟩ ∧ Gathered s₀ st ids parts :=
    loadFinalUploadStatus_reads overlooks_nothing hids (fun _ _ _ _ => trivial) fun _ _ _ => trivial
  have hplanned : ∀ parts, Gathered s₀ st ids parts →
      Brings hooks t (Seen Nothing s₀ st ob) (repairPlanned contract x ⟨ids, parts, statusOf parts⟩)
        fun x₁ s => ∃ o₁, Seen Nothing s₀ (Function.update st x.id (some x₁))
          (Function.update ob h.key o₁) s ∧
          ∃ parts, Gathered s₀ st ids parts ∧ Repaired x h (ob h.key) parts x₁ o₁ := by
    intro parts hg
    refine (repairPlanned_first hh hx (htotal.length parts hg.records)
      (htotal.joined parts hg.records)).mono ?_
    rintro x₁ s ⟨o₁, hs, hr⟩
    exact ⟨o₁, hs, parts, hg, hr⟩
  refine Reads.before hload ?_
  rintro _ ⟨parts, rfl, hg⟩
  refine Spec.ite (fun _ => ?_) fun _ => hplanned parts hg
  refine lockPartsThen_brings (Reads.before hload ?_) (fun x₁ => ?_) _ _
  · rintro _ ⟨parts', rfl, hg'⟩
    exact hplanned parts' hg'
  · exact Lasts.exists fun o₁ => (lasts_seen overlooks_nothing).and lasts_const

/-- What a successful observation makes of the record `x` and its object `o`. -/
inductive Settled (s₀ : Snap (Host ObjectSig) World) (st : String → Option UploadState)
    (x : UploadState) (o : Option Bytes) (x₁ : UploadState) (o₁ : Option Bytes) : Prop
  | recounted : x.isFinal = false → o₁ = o → x₁ = x.setOffset (sizeOfObject o) →
      (x.expiresBefore s₀.world.clock = false ∨ x₁.expires = false) → Settled s₀ st x o x₁ o₁
  | materialized : x.isFinal = true → x₁.isFinal = true → x₁.length = some (sizeOfObject o₁) →
      x₁.offset = sizeOfObject o₁ →
      (x.length = some (sizeOfObject o) ∨ ∃ ids parts, x.parts = some ids ∧
        Gathered s₀ st ids parts ∧ (statusOf parts).readyToMaterialize = true) →
      Settled s₀ st x o x₁ o₁
  | waiting (ids : List String) (parts : List UploadState) : x.isFinal = true → o₁ = o →
      x.parts = some ids → Gathered s₀ st ids parts → Follows x parts x₁ →
      x₁.offset = (statusOf parts).expectedOffset →
      (statusOf parts).readyToMaterialize = false →
      (∀ l, x.length = some l → sizeOfObject o ≠ l) → Settled s₀ st x o x₁ o₁

/-- The record and the object after a successful observation. -/
structure After (s₀ : Snap (Host ObjectSig) World) (st : String → Option UploadState)
    (x : UploadState) (h : StorageHandle) (o : Option Bytes) (x₁ : UploadState)
    (o₁ : Option Bytes) : Prop where
  id_eq : x₁.id = x.id
  handle : ∃ h₁, x₁.handle = some h₁ ∧ h₁.key = h.key
  settled : Settled s₀ st x o x₁ o₁
  active : x.isFinal = true → x₁.expiresBefore s₀.world.clock = false

theorem expectedOffset_of_ready {status : FinalUploadStatus} {n : Nat}
    (hready : status.readyToMaterialize = true) (hn : status.totalLength = some n) :
    status.expectedOffset = n := by
  rw [FinalUploadStatus.expectedOffset, if_pos (Bool.and_eq_true_iff.mp hready).1, hn]
  rfl

theorem Repaired.settled {o o₁ : Option Bytes} {x₁ : UploadState}
    (hr : Repaired x h o parts x₁ o₁) (hf : x.isFinal = true) (hids : x.parts = some ids)
    (hg : Gathered s₀ st ids parts) (hmissed : ∀ l, x.length = some l → sizeOfObject o ≠ l) :
    Settled s₀ st x o x₁ o₁ := by
  by_cases hready : (statusOf parts).readyToMaterialize = true
  · have htotal := hr.ready hready
    refine .materialized hf (hr.follows.isFinal.trans hf) (hr.follows.length.trans htotal) ?_
      (.inr ⟨ids, parts, hids, hg, hready⟩)
    rw [hr.offset, expectedOffset_of_ready hready htotal]
  · have hun : (statusOf parts).readyToMaterialize = false := by simpa using hready
    exact .waiting ids parts hf (hr.unready hun) hids hg hr.follows hr.offset hun hmissed

theorem prepareRead_first (hh : x.handle = some h) (hx : st x.id = some x) (hf : x.isFinal = true)
    (hplan : ∃ ids, x.parts = some ids ∧ Totals st ob x ids) :
    Brings hooks t (Seen Nothing s₀ st ob) (prepareRead contract x) fun x₁ s =>
      ∃ o₁, Seen Nothing s₀ (Function.update st x.id (some x₁)) (Function.update ob h.key o₁) s ∧
        (x₁.id = x.id ∧ (∃ h₁, x₁.handle = some h₁ ∧ h₁.key = h.key) ∧
          Settled s₀ st x (ob h.key) x₁ o₁) := by
  unfold prepareRead
  rw [if_neg (by simp [hf])]
  refine Brings.andThen (recoverMaterializedFinalUpload_first hh hx) fun r => Spec.assume fun hr => ?_
  obtain ⟨y, materialized⟩ := r
  refine Spec.ite (fun hm => Brings.pure fun s hs => ⟨ob h.key, ?_, ?_⟩) fun hm => ?_
  · rw [Function.update_eq_self]
    exact hs
  · obtain ⟨rfl, hlen⟩ := hr.found hm
    exact ⟨rfl, ⟨h, hh, rfl⟩, .materialized hf hf hlen rfl (.inl hlen)⟩
  · obtain ⟨rfl, hmissed⟩ := hr.missed (by simpa using hm)
    obtain ⟨ids, hids, htotal⟩ := hplan
    have hkeep : Function.update st y.id (some y) = st := by rw [← hx, Function.update_eq_self]
    rw [hkeep]
    refine Reads.before (ensureActive_reads overlooks_nothing trivial) fun _ _ => ?_
    refine (repairFinalUpload_first hh hx hids htotal).mono ?_
    rintro x₁ s ⟨o₁, hs, parts, hg, hrep⟩
    exact ⟨o₁, hs, hrep.follows.id_eq, hrep.handle, hrep.settled hf hids hg hmissed⟩

theorem prepareUploadReadAccess_first (hh : x.handle = some h) (hx : st x.id = some x)
    (hplan : x.isFinal = true → ∃ ids, x.parts = some ids ∧ Totals st ob x ids) :
    Brings hooks t (Seen Nothing s₀ st ob) (prepareUploadReadAccess contract x) fun x₁ s =>
      ∃ o₁, Seen Nothing s₀ (Function.update st x.id (some x₁)) (Function.update ob h.key o₁) s ∧
        After s₀ st x h (ob h.key) x₁ o₁ := by
  unfold prepareUploadReadAccess
  refine Spec.ite (fun hf => ?_) fun hf => ?_
  · refine Brings.andThen (prepareRead_first hh hx hf (hplan hf)) fun x₁ => ?_
    rintro s ⟨o₁, hs, hid, hhandle, hsettled⟩
    refine Reads.before (ensureActive_reads overlooks_nothing trivial) (fun _ hact => ?_) s hs
    exact Brings.pure fun s hs => ⟨o₁, hs, hid, hhandle, hsettled, fun _ => hact⟩
  · have hf : x.isFinal = false := by simpa using hf
    refine (prepareRegularUploadAccess_first hh hx).mono ?_
    rintro x₁ s ⟨hs, rfl, hact⟩
    refine ⟨ob h.key, ?_, rfl, ⟨h, hh, rfl⟩, .recounted hf rfl rfl hact, ?_⟩
    · rw [Function.update_eq_self]
      exact hs
    · exact fun hfin => absurd (hf.symm.trans hfin) Bool.false_ne_true

/-! ### Totals in well-formed worlds -/

theorem lengths_of_fixed {w : World} {ns : List Nat}
    (hp : List.Forall₂ (fun id p => w.states id = some p) ids parts)
    (hns : List.Forall₂ (fun id n => Fixed w id (.length n)) ids ns) :
    parts.map UploadState.length = ns.map some := by
  induction hp generalizing ns with
  | nil =>
    cases hns
    rfl
  | cons hrec _ ih =>
    cases hns with
    | cons hn hns => rw [List.map_cons, List.map_cons, ih hns, hn.holds _ hrec]

/-- The stored bytes of a complete part are as many as its record says. -/
theorem complete_content {w : World} {id : String} {p : UploadState} {bytes : Bytes}
    (hr : Recorded w id p) (hp : p.isPartial = true) (hc : p.isComplete = true)
    (hh : p.handle = some h) (ho : w.objects h.key = some bytes) : p.length = some bytes.length := by
  obtain ⟨l, hl, hle⟩ := p.isComplete_iff.mp hc
  obtain ⟨hlow, hhigh⟩ := hr.stored (hr.role hp) h bytes hh ho
  rw [hl, Nat.le_antisymm (hle.trans hlow) (hhigh l hl)]

theorem complete_contents {w : World} {sources : List StorageHandle} {contents : List Bytes}
    (hw : WellFormed w) (hids : ∀ id ∈ ids, Fixed w id .isPartial)
    (hp : List.Forall₂ (fun id p => w.states id = some p) ids parts)
    (hall : ∀ p ∈ parts, p.isComplete = true)
    (hs : List.Forall₂ (fun (p : UploadState) h => p.handle = some h) parts sources)
    (hb : List.Forall₂ (fun (h : StorageHandle) b => w.objects h.key = some b) sources contents) :
    parts.map UploadState.length = (contents.map List.length).map some := by
  induction hp generalizing sources contents with
  | nil =>
    cases hs
    cases hb
    rfl
  | cons hrec _ ih =>
    cases hs with
    | cons hh hs =>
      cases hb with
      | cons ho hb =>
        obtain ⟨hfix, hids⟩ := List.forall_mem_cons.mp hids
        obtain ⟨hc, hall⟩ := List.forall_mem_cons.mp hall
        rw [List.map_cons, List.map_cons, List.map_cons, ih hids hall hs hb,
          complete_content (hw.records _ _ hrec) (hfix.holds _ hrec) hc hh ho]

theorem WellFormed.totals {w : World} {id : String} (hw : WellFormed w) (hx : w.states id = some x)
    (hf : x.isFinal = true) : ∃ ids, x.parts = some ids ∧ Totals w.states w.objects x ids := by
  obtain ⟨ids, hplan⟩ := (hw.records id x hx).planned hf
  refine ⟨ids, hplan.ids_eq, fun parts hp l hl => ?_, ?_⟩
  · obtain ⟨ns, hns, rfl⟩ := hplan.length l hl
    exact statusOf_known (lengths_of_fixed hp hns)
  · rintro parts hp sources _ hs ⟨⟨contents, hb, rfl⟩, hfits⟩ hready
    have hall : parts.all UploadState.isComplete = true := by
      rw [← statusOf_allComplete]
      exact (Bool.and_eq_true_iff.mp hready).1
    have hlengths := complete_contents hw hplan.isPartial hp (List.all_eq_true.mp hall) hs hb
    rw [List.length_flatten] at hfits ⊢
    rw [statusOf_known hlengths, satSum_eq, Nat.min_eq_left hfits]

/-! ### Requests -/

/-- What a successful observation has found, left behind and answered. -/
def Found (s₀ : Snap (Host ObjectSig) World) (id : String) (B : UploadState → Bytes → α → Prop)
    (a : α) (s : Snap (Host ObjectSig) World) : Prop :=
  ∃ x h x₁ o₁, Seen Nothing s₀ (Function.update s₀.world.states id (some x₁))
      (Function.update s₀.world.objects h.key o₁) s ∧
    (s₀.world.states id = some x ∧ x.id = id ∧ x.handle = some h ∧
      After s₀ s₀.world.states x h (s₀.world.objects h.key) x₁ o₁ ∧ B x₁ (o₁.getD []) a)

theorem lasts_found {id : String} {B : UploadState → Bytes → α → Prop} {a : α} :
    Lasts hooks t (Found s₀ id B a) :=
  Lasts.exists fun _ => Lasts.exists fun _ => Lasts.exists fun _ => Lasts.exists fun _ =>
    (lasts_seen overlooks_nothing).and lasts_const

variable {config : Config} {digests : Digests} {texts : Texts} {id : String}

/-- A body that ends with a value in `B` of the record and content that it leaves. -/
def Leaves (hooks : HookEvent → UploadState → Except Error PreHookResult → Prop) (t : Nat)
    (s₀ : Snap (Host ObjectSig) World) (x : UploadState) (h : StorageHandle)
    (B : UploadState → Bytes → α → Prop) (p : HostM ObjectSig α) : Prop :=
  Brings hooks t (Seen Nothing s₀ s₀.world.states s₀.world.objects) p fun a s =>
    ∃ x₁ o₁, Seen Nothing s₀ (Function.update s₀.world.states x.id (some x₁))
      (Function.update s₀.world.objects h.key o₁) s ∧
        (After s₀ s₀.world.states x h (s₀.world.objects h.key) x₁ o₁ ∧ B x₁ (o₁.getD []) a)

theorem Leaves.andThen {B : UploadState → Bytes → α → Prop} {C : UploadState → Bytes → β → Prop}
    {p : HostM ObjectSig α} {f : α → HostM ObjectSig β} (hp : Leaves hooks t s₀ x h B p)
    (hf : ∀ a x₁ h₁ st ob, x₁.handle = some h₁ → B x₁ ((ob h₁.key).getD []) a →
      Reads hooks t Nothing s₀ st ob (fun _ => True) True (f a) (C x₁ ((ob h₁.key).getD []))) :
    Leaves hooks t s₀ x h C (p >>= f) := by
  refine Brings.andThen hp fun a => ?_
  rintro s ⟨x₁, o₁, hs, hafter, hB⟩
  obtain ⟨h₁, hh₁, hkey⟩ := hafter.handle
  have ho : Function.update s₀.world.objects h.key o₁ h₁.key = o₁ := by
    rw [hkey, Function.update_self]
  refine (hf a x₁ h₁ _ _ hh₁ (ho.symm ▸ hB)).brings.mono (fun b s' hs' => ?_) s hs
  exact ⟨x₁, o₁, hs'.1, hafter, by rw [← ho]; exact hs'.2⟩

theorem prepareUploadReadAccess_leaves (hw : WellFormed s₀.world) (hh : x.handle = some h)
    (hx : s₀.world.states x.id = some x) :
    Leaves hooks t s₀ x h (fun x₁ _ r => r = x₁) (prepareUploadReadAccess contract x) := by
  refine (prepareUploadReadAccess_first hh hx (hw.totals hx)).mono ?_
  rintro x₁ s ⟨o₁, hs, hafter⟩
  exact ⟨x₁, o₁, hs, hafter, rfl⟩

/-- The upload is read under its lock. -/
theorem locked_first {p : UploadState → HostM ObjectSig α} {B : UploadState → Bytes → α → Prop}
    (hw : WellFormed s₀.world)
    (hp : ∀ x h, s₀.world.states x.id = some x → x.handle = some h → Leaves hooks t s₀ x h B (p x)) :
    Brings hooks t (Seen Nothing s₀ s₀.world.states s₀.world.objects)
      (do
        checkExists id
        withLock id do
          let state ← requireState id
          p state : HostM ObjectSig α)
      fun a s => Found s₀ id B a s ∧ s.world.locks id = none ∧ s₀.world.hidden id = none := by
  refine Reads.before (checkExists_reads overlooks_nothing fun _ => trivial) fun _ _ => ?_
  refine Spec.weaken (withLock_lasts (Q := outcomes (fun _ => True) fun a s =>
    Found s₀ id B a s ∧ s₀.world.hidden id = none) overlooks_nothing ?_ ?_ fun _ _ _ _ => trivial)
    (fun _ hs => hs) ?_
  · refine Reads.before (requireState_reads overlooks_nothing fun _ => trivial) fun x hx => ?_
    obtain ⟨h, hh, _⟩ := (hw.records id x hx.1).handle
    have hid := (hw.records id x hx.1).id_eq
    refine Brings.mono (hp x h (hid.symm ▸ hx.1) hh) ?_
    rintro a s ⟨x₁, o₁, hs, hafter, hB⟩
    rw [hid] at hs
    exact ⟨⟨x, h, x₁, o₁, hs, hx.1, hid, hh, hafter, hB⟩, hx.2⟩
  · rintro (e | a)
    · exact lasts_const
    · exact lasts_found.and lasts_const
  · rintro (e | a) s hs
    · exact trivial
    · exact ⟨hs.1.1, hs.2 a rfl, hs.1.2⟩

theorem head_first (hw : WellFormed s₀.world) :
    Brings hooks t (Seen Nothing s₀ s₀.world.states s₀.world.objects)
      (Protocol.head ⟨config, digests, contract⟩ texts id) fun a s =>
        Found s₀ id (fun x₁ _ r => r = headResponse ⟨config, digests, contract⟩ texts x₁) a s ∧
          s.world.locks id = none ∧ s₀.world.hidden id = none := by
  refine locked_first hw fun x h hx hh => (prepareUploadReadAccess_leaves hw hh hx).andThen ?_
  rintro _ x₁ h₁ st ob _ rfl
  exact Reads.pure rfl

theorem download_first (hw : WellFormed s₀.world) :
    Brings hooks t (Seen Nothing s₀ s₀.world.states s₀.world.objects)
      (Protocol.download ⟨config, digests, contract⟩ id) fun a s =>
        Found s₀ id (fun x₁ content r => x₁.isComplete = true ∧ r.1 = x₁.offset ∧
          r.2 = if r.1 = 0 then [] else content) a s ∧
          s.world.locks id = none ∧ s₀.world.hidden id = none := by
  refine Spec.ite (fun _ => Spec.done fun _ _ => trivial) fun _ => ?_
  refine locked_first hw fun x h hx hh => Leaves.andThen (B := fun x₁ _ r => r = x₁ ∧
    x₁.isComplete = true) ((prepareUploadReadAccess_leaves hw hh hx).andThen ?_) ?_
  · rintro _ x₁ h₁ st ob _ rfl
    refine Spec.ite (fun _ => Reads.throw trivial) fun hc => Reads.pure ⟨rfl, by simpa using hc⟩
  · rintro y x₁ h₁ st ob hh₁ ⟨hy, hcomplete⟩
    obtain rfl : x₁ = y := hy.symm
    exact content_reads overlooks_nothing hh₁ hcomplete

theorem answerWith_first {f : α → Answer} {p : HostM ObjectSig α}
    {P : Snap (Host ObjectSig) World → Prop} {A : α → Snap (Host ObjectSig) World → Prop}
    {B : Answer → Snap (Host ObjectSig) World → Prop} (hp : Brings hooks t P p A)
    (hB : ∀ a s, A a s → B (f a) s) :
    AloneSpec hooks t P (answerWith f p) fun a s => (∀ e, a ≠ .failed e) → B a s := by
  refine Spec.bind _ hp fun r => ?_
  cases r with
  | ok a => exact Spec.done fun s hs _ => hB a s hs
  | error e => exact Spec.done fun s hs hok => absurd rfl (hok e)

/-- What a successful observation has found and what it leaves. -/
theorem observe_first (hw : WellFormed s₀.world) (first : Observation) :
    AloneSpec hooks t (Seen Nothing s₀ s₀.world.states s₀.world.objects)
      (serve ⟨config, digests, contract⟩ texts (first.request id)) fun a s => (∀ e, a ≠ .failed e) →
        Found s₀ id (Tells ⟨config, digests, contract⟩ texts) a s ∧ s.world.locks id = none ∧
          s₀.world.hidden id = none := by
  cases first with
  | head => exact answerWith_first (head_first hw) fun _ _ hs => hs
  | download => exact answerWith_first (download_first hw) fun _ _ hs => hs

end First

end System

end TusRs
