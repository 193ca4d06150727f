import TusRs.System.FinalUploads

/-!
# Reading final uploads

The part of `lifecycle/final_upload.rs` that a HEAD or GET runs. The object of a final upload
that already has the recorded length is taken as it is; otherwise the parts are loaded again,
and the record follows them.

Results:

* `prepareUploadReadAccess_spec`: an admitted read of a final upload found it materialised or
  has loaded all its parts, none of them expired.
-/

namespace TusRs

open Interaction

open Protocol

namespace System

variable {hooks : HookEvent → UploadState → Except Error PreHookResult → Prop}
  {config : Config} {requests : Nat → Option Request} {t : Nat} {locked : Prop}
  {F : Snap (Host ObjectSig) World → Prop} {state : UploadState} {h : StorageHandle}
  {o : Option Bytes} {ids : List String} {parts : List UploadState}

/-! ## Recovery -/

/-- What the size of the object of a final upload says. -/
structure Recovery (state : UploadState) (o : Option Bytes) (r : UploadState × Bool) : Prop where
  found : r.2 = true → r.1 = state.setOffset (sizeOfObject o) ∧
    state.length = some (sizeOfObject o)
  missed : r.2 = false → r.1 = state ∧ ∀ l, state.length = some l → sizeOfObject o ≠ l

theorem setOffset_self {n : Nat} (h : state.offset = n) : state.setOffset n = state := by
  subst h
  rfl

theorem recoverMaterializedFinalUpload_spec (hF : Frame t state.id F)
    (hh : state.handle = some h) (hp : state.isPartial = false) (hf : state.isFinal = true) :
    HostSpec hooks config requests t (Holding F t state.id (some state) h o)
      (recoverMaterializedFinalUpload contract state)
      (outcomes F fun r s => Holding F t state.id (some r.1) h o s ∧ Recovery state o r) := by
  have hP : Lasting t (Holding F t state.id (some state) h o) := lasting_holding hF
  have hE : ∀ s, Holding F t state.id (some state) h o s → F s := fun s hs => hs.1
  unfold recoverMaterializedFinalUpload
  cases hlen : state.length with
  | none => exact pure_spec fun s hs => ⟨hs, nofun, fun _ => ⟨rfl, fun l hl => nomatch hlen ▸ hl⟩⟩
  | some length =>
    simp only [hh]
    refine andThen (size_spec hP hE fun s hs => hs.2) fun n => assume fun hn => ?_
    subst hn
    refine Spec.ite (fun hne => ?_) fun hne => ?_
    · refine pure_spec fun s hs => ⟨hs, nofun, fun _ => ⟨rfl, fun l hl => ?_⟩⟩
      cases hlen.symm.trans hl
      exact hne
    have hsize : sizeOfObject o = length := not_not.mp hne
    subst hsize
    refine Spec.ite (fun _ => ?_) fun hoff => ?_
    · refine andThen (update_spec (state.setOffset (sizeOfObject o)) state hF hE ?_) fun _ =>
        pure_spec fun s hs => ⟨hs, fun _ => ⟨rfl, hlen⟩, nofun⟩
      intro s _ hs
      exact {
        handle := hh
        handle_old := ⟨h, hh, rfl⟩
        own := hs.2
        isPartial := rfl
        isFinal := rfl
        parts := rfl
        createdAt := rfl
        expiresAt := rfl
        length := fun _ hl => hl
        live := .inr ⟨hp, hlen⟩
        regular := fun hreg => absurd (hreg.symm.trans hf) (by decide)
        final := fun _ => .inl ⟨rfl, hlen⟩ }
    · refine pure_spec fun s hs => ⟨hs, fun _ => ⟨?_, hlen⟩, nofun⟩
      exact (setOffset_self (not_not.mp hoff)).symm

/-! ## Repair -/

/-- The record as loaded parts make it. -/
structure Follows (state : UploadState) (parts : List UploadState) (cur : UploadState) : Prop where
  id_eq : cur.id = state.id
  isPartial : cur.isPartial = state.isPartial
  isFinal : cur.isFinal = state.isFinal
  parts_eq : cur.parts = state.parts
  createdAt : cur.createdAt = state.createdAt
  expiresAt : cur.expiresAt = state.expiresAt
  length : cur.length = (statusOf parts).totalLength

namespace PlannedFinalUploadRefresh

open Protocol.PlannedFinalUploadRefresh

variable {size : Option Nat}

theorem refreshLength_follows
    (hlen : ∀ l, state.length = some l → (statusOf parts).totalLength = some l) :
    let r := (PlannedFinalUploadRefresh.mk parts (statusOf parts) size).refreshLength state
    Follows state parts r.1 ∧ r.1.handle = state.handle ∧ (r.2 = false → r.1 = state) := by
  unfold refreshLength
  dsimp only
  cases htotal : (statusOf parts).totalLength with
  | none =>
    have hnone : state.length = none := by
      cases hl : state.length with
      | none => rfl
      | some l => cases htotal.symm.trans (hlen l hl)
    exact ⟨⟨rfl, rfl, rfl, rfl, rfl, rfl, hnone.trans htotal.symm⟩, rfl, fun _ => rfl⟩
  | some total =>
    dsimp only
    by_cases heq : state.length = some total
    · rw [if_pos heq]
      exact ⟨⟨rfl, rfl, rfl, rfl, rfl, rfl, heq.trans htotal.symm⟩, rfl, fun _ => rfl⟩
    · rw [if_neg heq]
      exact ⟨⟨rfl, rfl, rfl, rfl, rfl, rfl, htotal.symm⟩, rfl, nofun⟩

theorem refreshOffset_follows {cur : UploadState} (hc : Follows state parts cur) :
    let r := (PlannedFinalUploadRefresh.mk parts (statusOf parts) size).refreshOffset cur
    Follows state parts r.1 ∧ r.1.handle = cur.handle ∧
      r.1.offset = (statusOf parts).expectedOffset ∧ (r.2 = false → r.1 = cur) := by
  unfold refreshOffset
  dsimp only
  by_cases heq : cur.offset = (statusOf parts).expectedOffset
  · rw [if_pos heq]
    exact ⟨hc, rfl, heq, fun _ => rfl⟩
  · rw [if_neg heq]
    exact ⟨⟨hc.id_eq, hc.isPartial, hc.isFinal, hc.parts_eq, hc.createdAt, hc.expiresAt,
      hc.length⟩, rfl, rfl, nofun⟩

end PlannedFinalUploadRefresh

/-- The repaired record is written if it differs. -/
theorem recordRepaired_spec (hF : Frame t state.id F) {cur : UploadState} {h' : StorageHandle}
    {due completes : Bool} (hid : cur.id = state.id) (hkey : h'.key = h.key)
    (hsame : due = false → cur = state)
    (hG : ∀ s, Holding F t state.id (some state) h o s → UpdateGuard config t cur h' state o s) :
    HostSpec hooks config requests t (Holding F t state.id (some state) h o)
      (do
        if due then setState cur .update else pure ()
        if completes then afterCommit cur else pure ()
        pure cur : HostM ObjectSig UploadState)
      (outcomes F fun r s => Holding F t state.id (some cur) h o s ∧ r = cur) := by
  have hP : Lasting t (Holding F t state.id (some cur) h o) := lasting_holding hF
  have hdone : HostSpec hooks config requests t (Holding F t state.id (some cur) h o)
      (pure cur : HostM ObjectSig UploadState)
      (outcomes F fun r s => Holding F t state.id (some cur) h o s ∧ r = cur) :=
    pure_spec fun s hs => ⟨hs, rfl⟩
  have hrest : HostSpec hooks config requests t (Holding F t state.id (some cur) h o)
      (do
        if completes then afterCommit cur else pure ()
        pure cur : HostM ObjectSig UploadState)
      (outcomes F fun r s => Holding F t state.id (some cur) h o s ∧ r = cur) :=
    Spec.ite (fun _ => andThen (afterCommit_spec hP) fun _ => hdone) fun _ => hdone
  refine Spec.ite (fun _ => andThen (A := fun _ => Holding F t state.id (some cur) h o) ?_
    fun _ => hrest) fun hdue => ?_
  · refine update_step hF hid hkey (fun s _ hown hs => hG s ⟨hs, ?_⟩) fun r => Spec.done ?_
    · rw [hid, hkey] at hown
      exact hown
    · cases r with
      | ok _ => exact fun s hs => hs
      | error e => exact fun s hs => hs.1
  · obtain rfl := hsame (by simpa using hdue)
    exact hrest

theorem inspect_spec {P E : Snap (Host ObjectSig) World → Prop} {x : Option UploadState}
    {id : String} {status : FinalUploadStatus} (hP : Lasting t P) (hE : ∀ s, P s → E s)
    (hown : ∀ s, P s → Own t id x h.key o s.world) (hh : state.handle = some h) :
    HostSpec hooks config requests t P
      (PlannedFinalUploadRefresh.inspect contract state parts status)
      (outcomes E fun r s => P s ∧ r = ⟨parts, status,
        if status.readyToMaterialize then some (sizeOfObject o) else none⟩) := by
  unfold PlannedFinalUploadRefresh.inspect storageSize
  simp only [hh]
  refine Spec.ite (fun hr => ?_) fun hr => ?_
  · refine andThen (A := fun n s => P s ∧ n = sizeOfObject o) ?_ fun n => assume fun hn => ?_
    · refine andThen (size_spec hP hE hown) fun n => assume fun hn => ?_
      subst hn
      exact pure_spec fun s hs => ⟨hs, rfl⟩
    · subst hn
      exact pure_spec fun s hs => ⟨hs, by rw [if_pos hr]⟩
  · exact pure_spec fun s hs => ⟨hs, by rw [if_neg hr]⟩

/-- The record of a repaired final upload may be written. -/
theorem Follows.guard {cur : UploadState} {h' : StorageHandle} {o' : Option Bytes}
    {s : Snap (Host ObjectSig) World} (hc : Follows state parts cur)
    (hoff : cur.offset = (statusOf parts).expectedOffset) (hh : state.handle = some h)
    (hcur : cur.handle = some h') (hkey : h'.key = h.key) (hids : state.parts = some ids)
    (hfinal : state.isFinal = true) (hlive : Live t s.world state.id state)
    (hlen : ∀ l, state.length = some l → (statusOf parts).totalLength = some l)
    (hs : Holding (Gathering F t state.id (some state) locked ids parts) t state.id (some state) h
      o' s)
    (hready : (statusOf parts).readyToMaterialize = true → locked ∧
      (o' = some (parts.map s.world.content).flatten ∨
        (statusOf parts).totalLength = some (sizeOfObject o')))
    (hun : Unmaterialised s.world state o' parts) : UpdateGuard config t cur h' state o' s where
  handle := hcur
  handle_old := ⟨h, hh, hkey.symm⟩
  own := by
    rw [hc.id_eq, hkey]
    exact hs.2
  isPartial := hc.isPartial
  isFinal := hc.isFinal
  parts := hc.parts_eq
  createdAt := hc.createdAt
  expiresAt := hc.expiresAt
  length l hl := hc.length.trans (hlen l hl)
  live := by
    rw [hc.id_eq]
    exact .inl hlive
  regular hreg := absurd (hreg.symm.trans (hc.isFinal.trans hfinal)) (by decide)
  final _ := by
    refine .inr ⟨ids, parts, ⟨?_, ?_, ?_, hs.1.2.sound, hc.length, hoff, fun hr => ?_⟩, hun⟩
    · exact hs.1.2.planned (hc.parts_eq.trans hids) hc.length
    · rw [hc.id_eq]
      exact hs.1.2.imp fun _ _ hp => hp.loaded
    · exact hs.1.2.imp fun _ _ hp => hp.facts
    · exact ⟨hs.1.2.partsLocked (hready hr).1, (hready hr).2⟩

/-- The final object is due for materialisation when its size is not the known total. -/
theorem needsMaterialization_iff (parts : List UploadState) (o : Option Bytes) :
    (PlannedFinalUploadRefresh.mk parts (statusOf parts)
      (if (statusOf parts).readyToMaterialize then some (sizeOfObject o) else
        none)).needsMaterialization = true ↔
      (statusOf parts).readyToMaterialize = true ∧
        (statusOf parts).totalLength ≠ some (sizeOfObject o) := by
  unfold PlannedFinalUploadRefresh.needsMaterialization
  by_cases hr : (statusOf parts).readyToMaterialize = true
  · simp only [hr, if_true, true_and]
    cases htotal : (statusOf parts).totalLength with
    | none =>
      rw [FinalUploadStatus.readyToMaterialize, htotal] at hr
      simp at hr
    | some total =>
      simp only [decide_eq_true_eq, Ne, Option.some.injEq]
      exact not_congr eq_comm
  · simp [hr]

/-- The record of a final upload whose object had not the recorded length follows its parts. -/
theorem repairPlanned_spec (hF : Frame t state.id F) (hh : state.handle = some h)
    (hp : state.isPartial = false) (hf : state.isFinal = true) (hids : state.parts = some ids)
    (hlive : ∀ s, F s → Live t s.world state.id state)
    (hmissed : ∀ l, state.length = some l → sizeOfObject o ≠ l)
    (hlen : ∀ l, state.length = some l → (statusOf parts).totalLength = some l)
    (hready : (statusOf parts).readyToMaterialize = true → locked) :
    HostSpec hooks config requests t
      (Holding (Gathering F t state.id (some state) locked ids parts) t state.id (some state) h o)
      (repairPlanned contract state ⟨ids, parts, statusOf parts⟩)
      (outcomes F fun _ => F) := by
  have hx : ∀ st, some state = some st → st.isPartial = false := by
    rintro st ⟨⟩
    exact hp
  have hG : Frame t state.id (Gathering F t state.id (some state) locked ids parts) :=
    frame_gathering hF hx
  have hP : Lasting t
      (Holding (Gathering F t state.id (some state) locked ids parts) t state.id (some state) h o) :=
    lasting_holding hG
  have hE : ∀ s, Holding (Gathering F t state.id (some state) locked ids parts) t state.id
      (some state) h o s → F s := fun s hs => hs.1.1
  refine andThen (inspect_spec hP hE (fun s hs => hs.2) hh) fun refresh => assume fun hr => ?_
  have hneed := needsMaterialization_iff parts o
  rw [← hr] at hneed
  have hfirst : let r := refresh.refreshLength state
      Follows state parts r.1 ∧ r.1.handle = state.handle ∧ (r.2 = false → r.1 = state) := by
    rw [hr]
    exact PlannedFinalUploadRefresh.refreshLength_follows hlen
  have hsecond : ∀ cur, Follows state parts cur → let r := refresh.refreshOffset cur
      Follows state parts r.1 ∧ r.1.handle = cur.handle ∧
        r.1.offset = (statusOf parts).expectedOffset ∧ (r.2 = false → r.1 = cur) := by
    intro cur hcur
    rw [hr]
    exact PlannedFinalUploadRefresh.refreshOffset_follows hcur
  have hparts : refresh.parts = parts := by rw [hr]
  obtain ⟨hfollows, hhandle, hkept⟩ := hfirst
  dsimp only
  generalize refresh.refreshLength state = r₁ at hfollows hhandle hkept ⊢
  generalize refresh.willComplete r₁.1 = completes
  -- once the object has the size of a known total
  have hrest : HostSpec hooks config requests t
      (Holding (Gathering F t state.id (some state) locked ids parts) t state.id (some state) h o)
      (do
        let state ←
          if refresh.needsMaterialization then
            materializeFinalUpload contract r₁.1 refresh.parts
          else pure r₁.1
        if r₁.2 || refresh.needsMaterialization || (refresh.refreshOffset state).2 then
          setState (refresh.refreshOffset state).1 .update
        else pure ()
        if completes then afterCommit (refresh.refreshOffset state).1 else pure ()
        pure (refresh.refreshOffset state).1 : HostM ObjectSig UploadState)
      (outcomes F fun _ => F) := by
    refine Spec.ite (fun hn => ?_) fun hn => ?_
    · obtain ⟨hready', hsize⟩ := hneed.mp hn
      have hl : locked := hready hready'
      rw [hparts]
      have htarget : ∀ s, F s → Targets t state.id (some state) o ids s := by
        refine fun s hs => ⟨?_⟩
        rintro old ⟨⟩
        exact ⟨hf, hids, hlive s hs, hmissed⟩
      refine andThen (A := fun cur s => ∃ bytes h', Holding
        (fun s => Gathering F t state.id (some state) locked ids parts s ∧
          Concatenated parts bytes s) t state.id (some state) h (some bytes) s ∧
          (cur = r₁.1.setStorageHandle h' ∧ h'.key = h.key))
        ((materializeFinalUpload_spec (h := h) hF hx hl hready'
          (hhandle.trans hh) htarget).weaken (fun _ h => h) ?_) fun cur => ?_
      · rintro (e | r) s hs
        · exact hE s hs
        · exact hs
      refine assumeExists fun bytes => assumeExists fun h' => assume fun hcur => ?_
      obtain ⟨rfl, hkey⟩ := hcur
      have hcur : Follows state parts (r₁.1.setStorageHandle h') :=
        ⟨hfollows.id_eq, hfollows.isPartial, hfollows.isFinal, hfollows.parts_eq,
          hfollows.createdAt, hfollows.expiresAt, hfollows.length⟩
      obtain ⟨hfol, hhand, hoff, -⟩ := hsecond _ hcur
      have hframe : Frame t state.id fun s =>
          Gathering F t state.id (some state) locked ids parts s ∧ Concatenated parts bytes s :=
        frame_concatenated hF hl hx
      refine (recordRepaired_spec (h := h) hframe hfol.id_eq hkey ?_ fun s hs => ?_).weaken
        (fun _ h => h) ?_
      · intro hdue
        rw [hn] at hdue
        simp at hdue
      · refine hfol.guard hoff hh hhand hkey hids hf (hlive s hs.1.1.1) hlen ⟨hs.1.1, hs.2⟩
          (fun _ => ⟨hl, .inl (congrArg some hs.1.2)⟩) (.inl ⟨hready', congrArg some hs.1.2⟩)
      · rintro (e | r) s hs
        · exact hs.1.1
        · exact hs.1.1.1.1
    · -- the object has the total size already, or the parts are not complete
      obtain ⟨hfol, hhand, hoff, hsame⟩ := hsecond _ hfollows
      refine (recordRepaired_spec (h := h) hG hfol.id_eq rfl ?_ fun s hs => ?_).weaken
        (fun _ h => h) ?_
      · intro hdue
        simp only [Bool.or_eq_false_iff] at hdue
        rw [hsame hdue.2, hkept hdue.1.1]
      · refine hfol.guard hoff hh (hhand.trans (hhandle.trans hh)) rfl hids hf (hlive s hs.1.1) hlen hs
          (fun hr' => ⟨hready hr', .inr ?_⟩) (.inr hmissed)
        by_contra hne
        exact hn (hneed.mpr ⟨hr', hne⟩)
      · rintro (e | r) s hs
        · exact hs.1
        · exact hs.1.1.1
  refine Spec.ite (fun _ => andThen (finishGate_spec hP hE) fun _ => ?_) fun _ => ?_
  · exact hrest
  · exact hrest

/-- A final upload that was not found materialised is repaired under the locks of its parts. -/
theorem repairFinalUpload_spec (hF : Frame t state.id F)
    (hU : ∀ p, p ≠ state.id → Unlocks t p F) (hh : state.handle = some h)
    (hp : state.isPartial = false) (hf : state.isFinal = true) (hids : state.parts = some ids)
    (hlive : ∀ s, F s → Live t s.world state.id state)
    (hplan : ∀ s, F s → PartsPlanned s.world state ids)
    (hmissed : ∀ l, state.length = some l → sizeOfObject o ≠ l) :
    HostSpec hooks config requests t (Holding F t state.id (some state) h o)
      (repairFinalUpload contract state) (outcomes F fun _ => F) := by
  have hP : Lasting t (Holding F t state.id (some state) h o) := lasting_holding hF
  have hE : ∀ s, Holding F t state.id (some state) h o s → F s := fun s hs => hs.1
  refine andThen (loadFinalUploadStatus_spec hP hE (fun s hs => hs.2.state)
    (fun h : False => h.elim) (fun s hs => hplan s hs.1) hids) fun r => ?_
  refine assumeExists fun parts => assume fun hr => ?_
  obtain ⟨rfl, hlen⟩ := hr
  refine Spec.ite (fun _ => ?_) fun hnot => ?_
  · refine Spec.weaken (P := Holding F t state.id (some state) h o) ?_ (fun s hs => hs.1)
      fun _ _ h => h
    have hR : Releases t state.id F fun (_ : UploadState) => F :=
      ⟨hF.lasting, fun _ => hF.lasting, hU, fun p hp _ => hU p hp⟩
    refine withPartLocks_spec ids hR hP hE (fun s hs => hs.2.holds) ?_
    have hF' : Frame t state.id fun s => F s ∧ AllLocked t ids s := hF.and frame_allLocked
    refine Spec.weaken (P := Holding (fun s => F s ∧ AllLocked t ids s) t state.id (some state) h o)
      (Q := outcomes (fun s => F s ∧ AllLocked t ids s) fun _ s => F s ∧ AllLocked t ids s) ?_
      (fun s hs => ⟨⟨hs.1.1, hs.2⟩, hs.1.2⟩) ?_
    · refine andThen (loadFinalUploadStatus_spec (lasting_holding hF') (fun s hs => hs.1)
        (fun s hs => hs.2.state) (fun (_ : True) p hp s hs => hs.1.2 p hp)
        (fun s hs => hplan s hs.1.1) hids) fun r => ?_
      refine assumeExists fun parts => assume fun hr => ?_
      obtain ⟨rfl, hlen⟩ := hr
      refine (repairPlanned_spec hF' hh hp hf hids (fun s hs => hlive s hs.1) hmissed hlen
        fun _ => trivial).weaken (fun s hs => ⟨⟨hs.1.1, hs.2⟩, hs.1.2⟩) fun _ _ h => h
    · rintro (e | r) s hs
      · exact hs
      · exact hs
  · exact (repairPlanned_spec hF hh hp hf hids hlive hmissed hlen fun hr => absurd hr hnot).weaken
      (fun s hs => ⟨⟨hs.1.1, hs.2⟩, hs.1.2⟩) fun _ _ h => h

/-- What a thread keeps while it reads a final upload. -/
theorem unlocks_live {p : String} (hp : p ≠ state.id) :
    Unlocks t p fun s => Live t s.world state.id state := by
  rintro s (hs | ⟨hl, n, hn, he⟩) _
  · exact .inl hs
  · exact .inr ⟨(Function.update_of_ne hp.symm _ _).trans hl, n, hn, he⟩

theorem unlocks_planned {p : String} : Unlocks t p fun s => PartsPlanned s.world state ids :=
  fun _ hs _ => hs.later later_unlock

/-- An admitted read sees a materialised final upload or repairs it. -/
theorem prepareRead_spec (hF : Frame t state.id F) (hU : ∀ p, p ≠ state.id → Unlocks t p F)
    (hlock : ∀ s, F s → s.world.locks state.id = some t) (hh : state.handle = some h)
    (hp : state.isPartial = false) (hf : state.isFinal = true) :
    HostSpec hooks config requests t
      (Holding (fun s => F s ∧ Planning state s) t state.id (some state) h o)
      (prepareRead contract state) (outcomes F fun _ => F) := by
  unfold prepareRead
  rw [if_neg (by simp [hf])]
  refine andThen (A := fun r s => Holding (fun s => F s ∧ Planning state s) t state.id (some r.1) h
    o s ∧ Recovery state o r)
    ((recoverMaterializedFinalUpload_spec (hF.and frame_planning) hh hp hf).weaken
      (fun _ h => h) ?_) fun r => assume fun hrec => ?_
  · rintro (e | r) s hs
    · exact hs.1
    · exact hs
  obtain ⟨cur, materialized⟩ := r
  refine Spec.ite (fun _ => pure_spec fun s hs => hs.1.1) fun hm => ?_
  obtain ⟨rfl, hmissed⟩ := hrec.missed (by simpa using hm)
  refine andThen (ensureActive_live (lasting_holding (hF.and frame_planning))
    (fun s hs => hs.1.1) fun s hs => hlock s hs.1.1) fun _ => ?_
  intro s₀ hs₀
  obtain ⟨ids, hplan⟩ := hs₀.1.1.2 hf
  have hframe : Frame t cur.id fun s => F s ∧ Live t s.world cur.id cur ∧
      PartsPlanned s.world cur ids := by
    refine hF.and (frame_live.and ⟨?_, ?_⟩)
    · exact fun s s' hs hr _ => hs.later hr.later
    · exact fun s s' hs hw _ => hs.later hw.later
  refine (repairFinalUpload_spec hframe ?_ hh hp hf hplan.ids_eq (fun s hs => hs.2.1)
    (fun s hs => hs.2.2) hmissed).weaken (fun _ h => h) ?_ s₀
    ⟨⟨hs₀.1.1.1, hs₀.2, hplan⟩, hs₀.1.2⟩
  · exact fun p hpne s hs hl => ⟨hU p hpne s hs.1 hl, unlocks_live hpne s hs.2.1 hl,
      unlocks_planned s hs.2.2 hl⟩
  · rintro (e | r) s hs
    · exact hs.1
    · exact hs.1

end System

end TusRs
