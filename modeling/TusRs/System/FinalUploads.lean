import TusRs.System.Creation

/-!
# Final uploads under interleaving

What `lifecycle/final_upload.rs` does: the records of the parts are loaded, once without
their locks and again under them when they are all complete, and the final upload is
materialised and recorded while the locks are held.

Results:

* `createFinalUpload_spec`: a final upload is recorded as its loaded parts say, over their
  concatenation when they are all complete.
* `prepareRead_spec`: a read records the same, or finds the object already materialised.
-/

namespace TusRs

open Interaction

open Protocol

namespace System

variable {hooks : HookEvent → UploadState → Except Error PreHookResult → Prop}
  {config : Config} {requests : Nat → Option Request} {t : Nat} {α : Type}
  {finalId : String} {x : Option UploadState} {locked : Prop}

/-! ## Loading parts -/

/-- A part whose lock the thread holds, with its record and its object. -/
def HeldPart (t : Nat) (w : World) (id : String) (part : UploadState) (o : Option Bytes) : Prop :=
  w.locks id = some t ∧ ∃ h, part.handle = some h ∧ Own t id (some part) h.key o w

theorem HeldPart.rely {w w' : World} {id : String} {part : UploadState} {o : Option Bytes}
    (h : HeldPart t w id part o) (hr : Rely t w w') : HeldPart t w' id part o := by
  obtain ⟨hl, hd, hh, hown⟩ := h
  exact ⟨hr.locks id hl, hd, hh, hown.rely hr⟩

theorem HeldPart.within {w w' : World} {id : String} {part : UploadState} {o : Option Bytes}
    (h : HeldPart t w id part o) (hw : Within finalId w w') (hne : id ≠ finalId) :
    HeldPart t w' id part o := by
  obtain ⟨hl, hd, hh, hown⟩ := h
  refine ⟨by rw [hw.locks]; exact hl, hd, hh, ?_⟩
  refine ⟨?_, (hw.states id hne).trans hown.state, hw.later.owner _ _ hown.owner,
    (hw.objects _ id hown.owner hne).trans hown.object⟩
  unfold Holds
  rw [hw.locks, hw.hidden]
  exact hown.holds

/-- The record of a part that the thread has read. -/
structure PartFetched (t : Nat) (finalId : String) (x : Option UploadState) (locked : Prop)
    (s : Snap (Host ObjectSig) World) (id : String) (part : UploadState) : Prop where
  fetched : ∃ e ∈ s.hist, e.tid = t ∧ e.op = .stateGet id ∧ e.before.states id = some part ∧
    e.before.states finalId = x ∧ e.before.clock ≤ s.world.clock
  facts : part.isPartial = true → PartFacts s.world id part
  within : part.isPartial = true → ∀ l, part.length = some l → part.offset ≤ l
  held : locked → ∃ o, HeldPart t s.world id part o

/-- The record of a part that the thread has read and found active. -/
structure PartLoaded (t : Nat) (finalId : String) (x : Option UploadState) (locked : Prop)
    (s : Snap (Host ObjectSig) World) (id : String) (part : UploadState) : Prop where
  loaded : Loaded t s finalId x id part
  facts : PartFacts s.world id part
  isPartial : part.isPartial = true
  within : ∀ l, part.length = some l → part.offset ≤ l
  held : locked → ∃ o, HeldPart t s.world id part o

theorem lasting_partFetched {id : String} {part : UploadState} :
    Lasting t fun s => PartFetched t finalId x locked s id part := by
  intro s s' hs hr hh
  refine ⟨?_, fun hp => (hs.facts hp).later hr.later, hs.within, ?_⟩
  · obtain ⟨e, he, ht, ho, hid, hfin, hclock⟩ := hs.fetched
    exact ⟨e, hh.subset he, ht, ho, hid, hfin, Nat.le_trans hclock hr.later.clock⟩
  · intro hl
    obtain ⟨o, ho⟩ := hs.held hl
    exact ⟨o, ho.rely hr⟩

theorem Loaded.mono {s s' : Snap (Host ObjectSig) World} {id : String} {part : UploadState}
    (h : Loaded t s finalId x id part) (hh : s.hist <:+ s'.hist) :
    Loaded t s' finalId x id part := by
  obtain ⟨e, he, hrest⟩ := h
  exact ⟨e, hh.subset he, hrest⟩

theorem lasting_partLoaded {id : String} {part : UploadState} :
    Lasting t fun s => PartLoaded t finalId x locked s id part := by
  intro s s' hs hr hh
  refine ⟨hs.loaded.mono hh, hs.facts.later hr.later, hs.isPartial, hs.within, ?_⟩
  intro hl
  obtain ⟨o, ho⟩ := hs.held hl
  exact ⟨o, ho.rely hr⟩

/-- A part is another upload than the final one. -/
theorem PartLoaded.ne {s : Snap (Host ObjectSig) World} {id : String} {part : UploadState}
    (h : PartLoaded t finalId x locked s id part)
    (hx : ∀ state, x = some state → state.isPartial = false) : id ≠ finalId := by
  rintro rfl
  obtain ⟨e, _, _, _, hid, hfin, _⟩ := h.loaded
  cases (hx part (hfin.symm.trans hid)).symm.trans h.isPartial

theorem frame_partLoaded {id : String} {part : UploadState}
    (hx : ∀ state, x = some state → state.isPartial = false) :
    Frame t finalId fun s => PartLoaded t finalId x locked s id part where
  lasting := lasting_partLoaded
  keeps s s' hs hw hh := by
    refine ⟨hs.loaded.mono hh, hs.facts.later hw.later, hs.isPartial, hs.within, ?_⟩
    intro hl
    obtain ⟨o, ho⟩ := hs.held hl
    exact ⟨o, ho.within hw (hs.ne hx)⟩

/-- All parts of a list. -/
def PartsLoaded (t : Nat) (finalId : String) (x : Option UploadState) (locked : Prop)
    (s : Snap (Host ObjectSig) World) (ids : List String) (parts : List UploadState) : Prop :=
  List.Forall₂ (PartLoaded t finalId x locked s) ids parts

theorem frame_partsLoaded {ids : List String} {parts : List UploadState}
    (hx : ∀ state, x = some state → state.isPartial = false) :
    Frame t finalId fun s => PartsLoaded t finalId x locked s ids parts where
  lasting s s' hs hr hh := hs.imp fun _ _ h => lasting_partLoaded s s' h hr hh
  keeps s s' hs hw hh := hs.imp fun _ _ h => (frame_partLoaded hx).keeps s s' h hw hh

section Load

variable {K : Snap (Host ObjectSig) World → Prop} {id : String}

/-- Reading the record of a part. What the thread knows to be fixed holds of the record. -/
theorem getPart_step {k : Except Error (Option UploadState) → Prog (Host ObjectSig) α}
    {Q : α → Snap (Host ObjectSig) World → Prop} (hK : Lasting t K)
    (hx : ∀ s, K s → s.world.states finalId = x)
    (hlock : locked → ∀ s, K s → s.world.locks id = some t)
    (herr : ∀ e, HostSpec hooks config requests t K (k (.error e)) Q)
    (hnone : HostSpec hooks config requests t K (k (.ok none)) Q)
    (hsome : ∀ part, (∀ f : Fact, (∀ s, K s → Fixed s.world id f) → f.holds part) →
      HostSpec hooks config requests t
        (fun s => K s ∧ PartFetched t finalId x locked s id part) (k (.ok (some part))) Q) :
    HostSpec hooks config requests t K (.step (.stateGet id) k) Q := by
  refine perform (o := .stateGet id)
    (fun (r : Except Error (Option UploadState)) s => K s ∧ ∀ part, r = .ok (some part) →
      PartFetched t finalId x locked s id part ∧
        ∀ f : Fact, (∀ s, K s → Fixed s.world id f) → f.holds part)
    hK (fun _ _ _ => trivial) ?_ fun r => ?_
  · intro s a w' hw hs he _
    cases he with
    | stateGet hhid =>
      refine ⟨hK.push hs, ?_⟩
      intro part hst
      have hst : s.world.states id = some part := Except.ok.inj hst
      have hrec := hw.records id part hst
      have hfixed : ∀ f : Fact, f.holds part → Fixed s.world id f := by
        intro f hf
        refine ⟨hrec.issued, hhid, ?_⟩
        intro state hstate
        cases hst.symm.trans hstate
        exact hf
      refine ⟨⟨?_, ?_, fun hp => hrec.within (hrec.role hp), ?_⟩, ?_⟩
      · exact ⟨_, List.mem_cons_self, rfl, rfl, hst, hx s hs, Nat.le_refl _⟩
      · exact fun hp => ⟨hfixed _ hp, hfixed _ rfl, fun n hn => hfixed (.length n) hn⟩
      · intro hl
        obtain ⟨h, hh, hown⟩ := hrec.handle
        exact ⟨s.world.objects h.key, hlock hl s hs, h, hh, .inl (hlock hl s hs), hst, hown, rfl⟩
      · exact fun f hf => (hf s hs).holds part hst
    | stateGetFailed => exact ⟨hK.push hs, fun _ h => nomatch h⟩
  · match r with
    | .error e => exact (herr e).weaken (fun s hs => hs.1) fun _ _ h => h
    | .ok none => exact hnone.weaken (fun s hs => hs.1) fun _ _ h => h
    | .ok (some part) =>
      intro s hs
      obtain ⟨hf, hfacts⟩ := hs.2 part rfl
      exact hsome part hfacts s ⟨hs.1, hf⟩

theorem expiresBefore_mono {state : UploadState} {m n : Nat} (hmn : m ≤ n)
    (h : state.expiresBefore n = false) : state.expiresBefore m = false := by
  unfold UploadState.expiresBefore at h ⊢
  cases he : state.expiresAt with
  | none => simp
  | some e =>
    rw [he] at h
    simp only [Option.any_some, Bool.and_eq_false_iff, decide_eq_false_iff_not] at h ⊢
    rcases h with h | h
    · exact .inl h
    · exact .inr (by omega)

/-- Checking that the part has not expired. -/
theorem activePart_step {part : UploadState} {p q : Prog (Host ObjectSig) α}
    {Q : α → Snap (Host ObjectSig) World → Prop} (hK : Lasting t K)
    (hpart : part.isPartial = true) (hp : HostSpec hooks config requests t K p Q)
    (hq : HostSpec hooks config requests t
      (fun s => K s ∧ PartLoaded t finalId x locked s id part) q Q) :
    HostSpec hooks config requests t
      (fun s => K s ∧ PartFetched t finalId x locked s id part)
      (.step .now fun (n : Nat) => if part.expiresBefore n then p else q) Q := by
  refine perform (o := .now)
    (fun (n : Nat) s => K s ∧ (part.expiresBefore n = false →
      PartLoaded t finalId x locked s id part))
    (hK.and lasting_partFetched) (fun _ _ _ => trivial) ?_ fun n => ?_
  · intro s a w' _ hs he _
    cases he with
    | now =>
      refine ⟨hK.push hs.1, fun hexp => ?_⟩
      have hs' := lasting_partFetched.push (u := t) (o := .now) (a := s.world.clock) hs.2
      obtain ⟨e, he, ht, ho, hid, hfin, hclock⟩ := hs.2.fetched
      refine ⟨⟨e, List.mem_cons_of_mem _ he, ht, ho, hid, hfin, ?_⟩, hs'.facts hpart, hpart,
        hs'.within hpart, hs'.held⟩
      exact expiresBefore_mono hclock hexp
  · refine Spec.ite (fun _ => hp.weaken (fun s hs => hs.1) fun _ _ h => h) fun hexp => ?_
    exact hq.weaken (fun s hs => ⟨hs.1, hs.2 (by simpa using hexp)⟩) fun _ _ h => h

/-- The records of the parts of a final upload, loaded one after the other. -/
theorem loadStatusParts_spec {E : Snap (Host ObjectSig) World → Prop} {ids : List String}
    (locked : Prop) (hK : Lasting t K) (hE : ∀ s, K s → E s) (hx : ∀ s, K s → s.world.states finalId = x)
    (hlock : locked → ∀ id ∈ ids, ∀ s, K s → s.world.locks id = some t)
    (hpart : ∀ id ∈ ids, ∀ s, K s → Fixed s.world id .isPartial) :
    HostSpec hooks config requests t K (loadStatusParts finalId ids)
      (outcomes E fun parts s => K s ∧ PartsLoaded t finalId x locked s ids parts ∧
        ∀ ns, (∀ s, K s → List.Forall₂ (fun id n => Fixed s.world id (.length n)) ids ns) →
          parts.map UploadState.length = ns.map some) := by
  induction ids generalizing K with
  | nil =>
    refine pure_spec fun s hs => ⟨hs, .nil, ?_⟩
    intro ns hns
    cases hns s hs
    rfl
  | cons id ids ih =>
    unfold loadStatusParts
    refine getPart_step hK hx (fun hl => hlock hl id List.mem_cons_self)
      (fun e => Spec.done hE) (Spec.done hE) fun part hfacts => ?_
    have hp : part.isPartial = true := hfacts .isPartial (hpart id List.mem_cons_self)
    refine activePart_step hK hp (Spec.done hE) ?_
    refine Spec.bind _ (ih (K := fun s => K s ∧ PartLoaded t finalId x locked s id part)
      (hK.and lasting_partLoaded) (fun s hs => hE s hs.1) (fun s hs => hx s hs.1)
      (fun hl id' hid s hs => hlock hl id' (List.mem_cons_of_mem _ hid) s hs.1)
      fun id' hid s hs => hpart id' (List.mem_cons_of_mem _ hid) s hs.1) fun r => ?_
    cases r with
    | error e => exact Spec.done fun s hs => hs
    | ok parts =>
      refine Spec.done fun s hs => ?_
      obtain ⟨⟨hs, hfirst⟩, hrest, hns⟩ := hs
      refine ⟨hs, .cons hfirst hrest, ?_⟩
      intro ns hall
      cases hall s hs with
      | @cons _ n _ ns' _ _ =>
        have hlen : part.length = some n := by
          refine hfacts (.length n) fun s' hs' => ?_
          cases hall s' hs' with
          | cons h _ => exact h
        have hrest' : parts.map UploadState.length = ns'.map some := by
          refine hns ns' fun s' hs' => ?_
          cases hall s' hs'.1 with
          | cons _ h => exact h
        rw [List.map_cons, List.map_cons, hlen, hrest']

theorem summarizeFrom_spec {E : Snap (Host ObjectSig) World → Prop} {parts : List UploadState}
    {summary : PartsSummary} (hK : Lasting t K) (hE : ∀ s, K s → E s) :
    HostSpec hooks config requests t K (summarizeFrom summary parts)
      (outcomes E fun status s => K s ∧
        status = (parts.foldl PartsSummary.add summary).status) := by
  induction parts generalizing summary with
  | nil => exact pure_spec fun s hs => ⟨hs, rfl⟩
  | cons part parts ih =>
    refine andThen (isExpired_spec hK) fun expired => ?_
    exact Spec.ite (fun _ => throw_spec hE) fun _ => ih

theorem summarizeFinalParts_spec {E : Snap (Host ObjectSig) World → Prop}
    {parts : List UploadState} (hK : Lasting t K) (hE : ∀ s, K s → E s) :
    HostSpec hooks config requests t K (summarizeFinalParts parts)
      (outcomes E fun status s => K s ∧ status = statusOf parts) :=
  summarizeFrom_spec hK hE

/-- The plan of a persisted final upload. -/
theorem loadFinalUploadStatus_spec {E : Snap (Host ObjectSig) World → Prop} {state : UploadState}
    {ids : List String} (hK : Lasting t K) (hE : ∀ s, K s → E s)
    (hx : ∀ s, K s → s.world.states state.id = x)
    (hlock : locked → ∀ id ∈ ids, ∀ s, K s → s.world.locks id = some t)
    (hplan : ∀ s, K s → PartsPlanned s.world state ids) (hids : state.parts = some ids) :
    HostSpec hooks config requests t K (loadFinalUploadStatus state)
      (outcomes E fun r s => ∃ parts, (K s ∧ PartsLoaded t state.id x locked s ids parts) ∧
        (r = some ⟨ids, parts, statusOf parts⟩ ∧
          ∀ l, state.length = some l → (statusOf parts).totalLength = some l)) := by
  intro s₀ hs₀
  -- the lengths behind a known total are known before the parts are loaded
  have hns : ∃ ns, ∀ l, state.length = some l →
      List.Forall₂ (fun id n => Fixed s₀.world id (.length n)) ids ns ∧ l = satSum ns := by
    cases hl : state.length with
    | none => exact ⟨[], fun l h => nomatch h⟩
    | some l =>
      obtain ⟨ns, hns, hsum⟩ := (hplan s₀ hs₀).length l hl
      refine ⟨ns, fun l' h => ?_⟩
      cases h
      exact ⟨hns, hsum⟩
  obtain ⟨ns, hns⟩ := hns
  let K' := fun s => K s ∧ ∀ l, state.length = some l →
    List.Forall₂ (fun id n => Fixed s.world id (.length n)) ids ns ∧ l = satSum ns
  have hK' : Lasting t K' := by
    refine hK.and ?_
    intro s s' hs hr _ l hl
    exact ⟨(hs l hl).1.imp fun id n => hr.later.fixed id _, (hs l hl).2⟩
  have hspec : HostSpec hooks config requests t K' (loadFinalUploadStatus state)
      (outcomes E fun r s => ∃ parts, (K s ∧ PartsLoaded t state.id x locked s ids parts) ∧
        (r = some ⟨ids, parts, statusOf parts⟩ ∧
          ∀ l, state.length = some l → (statusOf parts).totalLength = some l)) := by
    unfold loadFinalUploadStatus
    simp only [hids]
    refine andThen (loadStatusParts_spec locked hK' (fun s hs => hE s hs.1)
      (fun s hs => hx s hs.1) (fun hl id hid s hs => hlock hl id hid s hs.1)
      fun id hid s hs => (hplan s hs.1).isPartial id hid) fun parts => ?_
    refine Spec.weaken (P := fun s => (K' s ∧ PartsLoaded t state.id x locked s ids parts) ∧
      ∀ l, state.length = some l → (statusOf parts).totalLength = some l) ?_ ?_ fun _ _ h => h
    · refine assume fun hlen => ?_
      refine Spec.bind _ (summarizeFinalParts_spec (hK'.and fun s s' hs hr hh =>
        hs.imp fun _ _ h => lasting_partLoaded s s' h hr hh) fun s hs => hE s hs.1.1) fun r => ?_
      cases r with
      | error e => cases e <;> exact Spec.done fun _ h => h
      | ok status =>
        refine Spec.done fun s hs => ⟨parts, ⟨hs.1.1.1, hs.1.2⟩, ?_, hlen⟩
        rw [hs.2]
    · intro s hs
      refine ⟨⟨hs.1, hs.2.1⟩, ?_⟩
      intro l hl
      rw [(hns l hl).2]
      exact statusOf_known (hs.2.2 ns fun s' hs' => (hs'.2 l hl).1)
  exact hspec s₀ ⟨hs₀, hns⟩

end Load

/-! ## The plan of a new final upload -/

section Plan

variable {K E : Snap (Host ObjectSig) World → Prop}

theorem loadPart_spec {url : String} {id : String} (locked : Prop) (hK : Lasting t K)
    (hE : ∀ s, K s → E s) (hx : ∀ s, K s → s.world.states finalId = x)
    (hid : extractPartialId url config.basePath = some id)
    (hlock : locked → ∀ s, K s → s.world.locks id = some t) :
    HostSpec hooks config requests t K (loadPart config url)
      (outcomes E fun part s => K s ∧ PartLoaded t finalId x locked s id part) := by
  unfold loadPart
  simp only [hid]
  refine getPart_step hK hx hlock (fun e => Spec.done hE) (Spec.done hE) fun part _ => ?_
  refine Spec.ite (fun _ => Spec.done fun s hs => hE s hs.1) fun hp => ?_
  refine Spec.ite (fun _ => Spec.done fun s hs => hE s hs.1) fun _ => ?_
  exact activePart_step hK (by simpa using hp) (Spec.done hE) (Spec.done fun _ h => h)

/-- The ids of the parts that the URLs name. -/
def partIds (config : Config) (urls : List String) : List String :=
  urls.filterMap fun url => extractPartialId url config.basePath

theorem loadParts_spec {urls : List String} (locked : Prop) (hK : Lasting t K)
    (hE : ∀ s, K s → E s) (hx : ∀ s, K s → s.world.states finalId = x)
    (hlock : locked → ∀ id ∈ partIds config urls, ∀ s, K s → s.world.locks id = some t) :
    HostSpec hooks config requests t K (loadParts config urls)
      (outcomes E fun parts s =>
        K s ∧ PartsLoaded t finalId x locked s (partIds config urls) parts) := by
  induction urls generalizing K with
  | nil => exact pure_spec fun s hs => ⟨hs, .nil⟩
  | cons url urls ih =>
    cases hid : extractPartialId url config.basePath with
    | none =>
      have hfail : HostSpec hooks config requests t K (loadPart config url)
          (outcomes E fun _ _ => False) := by
        unfold loadPart
        simp only [hid]
        exact throw_spec hE
      exact andThen hfail fun part => fun _ h => h.elim
    | some id =>
      have hids : partIds config (url :: urls) = id :: partIds config urls := by
        simp only [partIds, List.filterMap_cons, hid]
      rw [hids] at hlock ⊢
      refine andThen (loadPart_spec locked hK hE hx hid fun hl => hlock hl id List.mem_cons_self)
        fun part => ?_
      refine andThen (ih (K := fun s => K s ∧ PartLoaded t finalId x locked s id part)
        (hK.and lasting_partLoaded) (fun s hs => hE s hs.1) (fun s hs => hx s hs.1)
        fun hl id' hid' s hs => hlock hl id' (List.mem_cons_of_mem _ hid') s hs.1) fun parts => ?_
      exact pure_spec fun s hs => ⟨hs.1.1, .cons hs.1.2 hs.2⟩

theorem lasting_partsLoaded {ids : List String} {parts : List UploadState} :
    Lasting t fun s => PartsLoaded t finalId x locked s ids parts :=
  fun s s' hs hr hh => hs.imp fun _ _ h => lasting_partLoaded s s' h hr hh

theorem loadFinalUploadPlan_spec {urls : List String} (locked : Prop) (hK : Lasting t K)
    (hE : ∀ s, K s → E s) (hx : ∀ s, K s → s.world.states finalId = x)
    (hlock : locked → ∀ id ∈ partIds config urls, ∀ s, K s → s.world.locks id = some t) :
    HostSpec hooks config requests t K (loadFinalUploadPlan config urls)
      (outcomes E fun plan s => ∃ parts, (K s ∧
        PartsLoaded t finalId x locked s (partIds config urls) parts) ∧
        plan = ⟨partIds config urls, parts, statusOf parts⟩) := by
  refine andThen (loadParts_spec locked hK hE hx hlock) fun parts => ?_
  refine andThen (summarizeFinalParts_spec (hK.and lasting_partsLoaded) fun s hs => hE s hs.1)
    fun status => ?_
  exact pure_spec fun s hs => ⟨parts, hs.1, by rw [hs.2]; rfl⟩

end Plan

/-! ## Locks of the parts -/

section Locks

/-- What the thread's own release of `p` does not disturb. -/
def Unlocks (t : Nat) (p : String) (P : Snap (Host ObjectSig) World → Prop) : Prop :=
  ∀ s, P s → s.world.locks p = some t → P (s.push t (.unlock p) () (s.world.unlock p))

/-- The thread holds the locks. -/
def AllLocked (t : Nat) (ids : List String) (s : Snap (Host ObjectSig) World) : Prop :=
  ∀ p ∈ ids, s.world.locks p = some t

theorem lasting_allLocked {ids : List String} : Lasting t (AllLocked t ids) :=
  fun _ _ hs hr _ p hp => hr.locks p (hs p hp)

theorem unlockAll_spec {P : Snap (Host ObjectSig) World → Prop} {ids : List String}
    (hP : Lasting t P) (hU : ∀ p ∈ ids, Unlocks t p P) (hnd : ids.Nodup) :
    HostSpec hooks config requests t (fun s => P s ∧ AllLocked t ids s) (unlockAll ids)
      fun _ => P := by
  induction ids with
  | nil => exact Spec.done fun s hs => hs.1
  | cons p ps ih =>
    obtain ⟨hp, hnd⟩ := List.nodup_cons.mp hnd
    refine perform (o := .unlock p) (fun _ s => P s ∧ AllLocked t ps s)
      (hP.and lasting_allLocked) (fun s _ hs => hs.2 p List.mem_cons_self) ?_
      fun _ => ih (fun q hq => hU q (List.mem_cons_of_mem p hq)) hnd
    intro s a w' _ hs he _
    cases he with
    | unlock =>
      refine ⟨hU p List.mem_cons_self s hs.1 (hs.2 p List.mem_cons_self), fun q hq => ?_⟩
      have hne : q ≠ p := fun h => hp (h ▸ hq)
      exact (Function.update_of_ne hne _ _).trans (hs.2 q (List.mem_cons_of_mem p hq))

variable {K E : Snap (Host ObjectSig) World → Prop}
  {A : α → Snap (Host ObjectSig) World → Prop}

/-- What a body leaves behind survives the release of locks other than that of `id`. -/
structure Releases (t : Nat) (id : String) (E : Snap (Host ObjectSig) World → Prop)
    (A : α → Snap (Host ObjectSig) World → Prop) : Prop where
  lasting_error : Lasting t E
  lasting_value : ∀ a, Lasting t (A a)
  unlock_error : ∀ p, p ≠ id → Unlocks t p E
  unlock_value : ∀ p, p ≠ id → ∀ a, Unlocks t p (A a)

/-- Release the locks after the body. -/
theorem Releases.unlockAll_spec {P : Snap (Host ObjectSig) World → Prop}
    (hR : Releases t finalId E A) {r : Except Error α} {ids : List String} (hnd : ids.Nodup)
    (hne : ∀ p ∈ ids, p ≠ finalId)
    (hP : ∀ s, P s → outcomes E A r s ∧ AllLocked t ids s) :
    HostSpec hooks config requests t P
      (Prog.bind (unlockAll ids) fun _ => .done r) (outcomes E A) := by
  cases r with
  | ok a =>
    exact Spec.bind _ ((System.unlockAll_spec (hR.lasting_value a)
      (fun p hp => hR.unlock_value p (hne p hp) a) hnd).weaken hP fun _ _ h => h)
      fun _ => Spec.done fun s hs => hs
  | error e =>
    exact Spec.bind _ ((System.unlockAll_spec hR.lasting_error
      (fun p hp => hR.unlock_error p (hne p hp)) hnd).weaken hP fun _ _ h => h)
      fun _ => Spec.done fun s hs => hs

theorem lockPartsThen_spec {body : HostM ObjectSig α} (held rest : List String)
    (hR : Releases t finalId E A) (hK : Lasting t K) (hE : ∀ s, K s → E s)
    (hholds : ∀ s, K s → Holds s.world t finalId) (hnd : (held.reverse ++ rest).Nodup)
    (hne : ∀ p ∈ held, p ≠ finalId)
    (hbody : HostSpec hooks config requests t
      (fun s => K s ∧ AllLocked t (held.reverse ++ rest) s) body
      (fun r s => outcomes E A r s ∧ AllLocked t (held.reverse ++ rest) s)) :
    HostSpec hooks config requests t (fun s => K s ∧ AllLocked t held s)
      (lockPartsThen body held rest) (outcomes E A) := by
  induction rest generalizing held with
  | nil =>
    rw [List.append_nil] at hnd hbody
    refine Spec.bind _ (hbody.weaken ?_ fun _ _ h => h) fun r => ?_
    · exact fun s hs => ⟨hs.1, fun p hp => hs.2 p (List.mem_reverse.mp hp)⟩
    · exact hR.unlockAll_spec (List.nodup_reverse.mp hnd) hne fun s hs =>
        ⟨hs.1, fun p hp => hs.2 p (List.mem_reverse.mpr hp)⟩
  | cons p rest ih =>
    -- a lock that is not given releases the others
    have hfail : ∀ e : Error, HostSpec hooks config requests t
        (fun s => K s ∧ AllLocked t held s)
        (Prog.bind (unlockAll held) fun _ => .done (.error e)) (outcomes E A) := fun e =>
      hR.unlockAll_spec (List.nodup_reverse.mp (List.Nodup.of_append_left hnd)) hne
        fun s hs => ⟨hE s hs.1, hs.2⟩
    refine perform (o := .tryLock p) (fun (r : Except Error Bool) s =>
        (K s ∧ AllLocked t held s) ∧ (r = .ok true → s.world.locks p = some t ∧ p ≠ finalId))
      (hK.and lasting_allLocked) (fun _ _ _ => trivial) ?_ fun r => ?_
    · intro s a w' hw hs he _
      have hkept : Lasting t fun s => K s ∧ AllLocked t held s := hK.and lasting_allLocked
      cases he with
      | tryLock hhid hfree =>
        have hrely : Rely t s.world (s.world.lockBy p t) := rely_lockBy hfree
        refine ⟨hkept s _ hs hrely (List.suffix_cons _ _), fun _ => ?_⟩
        refine ⟨Function.update_self _ _ _, ?_⟩
        rintro rfl
        rcases hholds s hs.1 with h | h
        · rw [hfree] at h
          cases h
        · rw [hhid] at h
          cases h
      | tryLockBusy => exact ⟨hkept.push hs, fun h => nomatch h⟩
      | tryLockFailed => exact ⟨hkept.push hs, fun h => nomatch h⟩
    · match r with
      | .error e => exact (hfail e).weaken (fun s hs => hs.1) fun _ _ h => h
      | .ok false => exact (hfail _).weaken (fun s hs => hs.1) fun _ _ h => h
      | .ok true =>
        have hall : (p :: held).reverse ++ rest = held.reverse ++ p :: rest := by simp
        intro s hs
        obtain ⟨hs, hlocked⟩ := hs
        obtain ⟨hp, hpne⟩ := hlocked rfl
        refine ih (p :: held) (hall ▸ hnd) ?_ (hall ▸ hbody) s ⟨hs.1, ?_⟩
        · intro q hq
          rcases List.mem_cons.mp hq with rfl | hq
          · exact hpne
          · exact hne q hq
        · intro q hq
          rcases List.mem_cons.mp hq with rfl | hq
          · exact hp
          · exact hs.2 q hq

/-- The body runs with the locks of all parts. -/
theorem withPartLocks_spec {body : HostM ObjectSig α} (ids : List String)
    (hR : Releases t finalId E A) (hK : Lasting t K) (hE : ∀ s, K s → E s)
    (hholds : ∀ s, K s → Holds s.world t finalId)
    (hbody : HostSpec hooks config requests t
      (fun s => K s ∧ AllLocked t ids s) body (fun r s => outcomes E A r s ∧ AllLocked t ids s)) :
    HostSpec hooks config requests t K (withPartLocks ids body) (outcomes E A) := by
  have hmem : ∀ p, p ∈ (ids.mergeSort fun a b => decide (a ≤ b)).dedup ↔ p ∈ ids := by
    intro p
    rw [List.mem_dedup, (List.mergeSort_perm _ _).mem_iff]
  refine Spec.weaken (lockPartsThen_spec (K := K) []
    (ids.mergeSort fun a b => decide (a ≤ b)).dedup hR hK hE hholds ?_ nofun ?_)
    ?_ fun _ _ h => h
  · exact List.nodup_dedup _
  · refine hbody.weaken ?_ ?_
    · exact fun s hs => ⟨hs.1, fun p hp => hs.2 p ((hmem p).mpr hp)⟩
    · exact fun r s hs => ⟨hs.1, fun p hp => hs.2 p ((hmem p).mp hp)⟩
  · exact fun s hs => ⟨hs, nofun⟩

end Locks

/-! ## What loaded parts say -/

section Loading

variable {s : Snap (Host ObjectSig) World} {ids : List String} {parts : List UploadState}

theorem exists_of_forall₂ {β γ : Type} {R : β → γ → Prop} {l : List β} {m : List γ}
    (h : List.Forall₂ R l m) : ∀ b ∈ m, ∃ a ∈ l, R a b := by
  induction h with
  | nil => exact nofun
  | cons hab _ ih =>
    intro b hb
    rcases List.mem_cons.mp hb with rfl | hb
    · exact ⟨_, List.mem_cons_self, hab⟩
    · obtain ⟨a, ha, hR⟩ := ih b hb
      exact ⟨a, List.mem_cons_of_mem _ ha, hR⟩

theorem PartsLoaded.sound (h : PartsLoaded t finalId x locked s ids parts) :
    ∀ p ∈ parts, p.isPartial = true ∧ ∀ l, p.length = some l → p.offset ≤ l := by
  intro p hp
  obtain ⟨id, _, hload⟩ := exists_of_forall₂ h p hp
  exact ⟨hload.isPartial, hload.within⟩

theorem PartsLoaded.partsLocked (h : PartsLoaded t finalId x locked s ids parts) (hl : locked) :
    PartsLocked t s.world ids parts :=
  h.imp fun _ _ hp => by
    obtain ⟨o, hlock, hd, _, hown⟩ := hp.held hl
    exact ⟨hlock, hown.state⟩

/-- A record that follows loaded parts. -/
theorem PartsLoaded.planned {state : UploadState} (h : PartsLoaded t finalId x locked s ids parts)
    (hids : state.parts = some ids) (hlen : state.length = (statusOf parts).totalLength) :
    PartsPlanned s.world state ids where
  ids_eq := hids
  isPartial id hid := by
    obtain ⟨part, _, hload⟩ := exists_of_forall₂ h.flip id hid
    exact hload.facts.isPartial
  length l hl := by
    obtain ⟨ns, hns, hsum⟩ := statusOf_lengths (hlen.symm.trans hl)
    refine ⟨ns, ?_, hsum⟩
    clear hl hlen hids hsum
    induction h generalizing ns with
    | nil =>
      cases ns with
      | nil => exact .nil
      | cons n ns => cases hns
    | cons hp _ ih =>
      cases ns with
      | nil => cases hns
      | cons n ns =>
        obtain ⟨hn, hrest⟩ := List.cons.inj hns
        exact .cons (hp.facts.length n hn) (ih ns hrest)

theorem HeldPart.content {w : World} {id : String} {part : UploadState} {o : Option Bytes}
    (h : HeldPart t w id part o) : w.content part = o.getD [] := by
  obtain ⟨_, hd, hh, hown⟩ := h
  simp only [World.content, hh, Option.bind_some, hown.object]

/-- The contents of locked parts stay as they are. -/
theorem PartsLoaded.contents_eq {s' : Snap (Host ObjectSig) World}
    (h : PartsLoaded t finalId x locked s ids parts) (hl : locked)
    (hkeep : ∀ id part o, PartLoaded t finalId x locked s id part →
      HeldPart t s.world id part o → HeldPart t s'.world id part o) :
    parts.map s'.world.content = parts.map s.world.content := by
  refine List.map_congr_left fun p hp => ?_
  obtain ⟨id, _, hload⟩ := exists_of_forall₂ h p hp
  obtain ⟨o, ho⟩ := hload.held hl
  rw [(hkeep id p o hload ho).content, ho.content]

theorem frame_contents {contents : List Bytes} (hl : locked)
    (hx : ∀ state, x = some state → state.isPartial = false) :
    Frame t finalId fun s => PartsLoaded t finalId x locked s ids parts ∧
      parts.map s.world.content = contents where
  lasting s s' hs hr hh := by
    refine ⟨lasting_partsLoaded s s' hs.1 hr hh, ?_⟩
    rw [← hs.2]
    exact hs.1.contents_eq hl fun _ _ _ _ ho => ho.rely hr
  keeps s s' hs hw hh := by
    refine ⟨(frame_partsLoaded hx).keeps s s' hs.1 hw hh, ?_⟩
    rw [← hs.2]
    exact hs.1.contents_eq hl fun _ _ _ hp ho => ho.within hw (hp.ne hx)

end Loading

/-! ## Materialisation -/

section Materialisation

variable {F : Snap (Host ObjectSig) World → Prop} {id : String} {h : StorageHandle}
  {o : Option Bytes} {ids : List String} {parts : List UploadState}

/-- What the caller keeps, and the locked parts with their contents. -/
def Gathering (F : Snap (Host ObjectSig) World → Prop) (t : Nat) (id : String)
    (x : Option UploadState) (locked : Prop) (ids : List String) (parts : List UploadState)
    (s : Snap (Host ObjectSig) World) : Prop :=
  F s ∧ PartsLoaded t id x locked s ids parts

theorem frame_gathering (hF : Frame t id F)
    (hx : ∀ state, x = some state → state.isPartial = false) :
    Frame t id (Gathering F t id x locked ids parts) :=
  hF.and (frame_partsLoaded hx)

/-- The object is the concatenation of the parts. -/
def Concatenated (parts : List UploadState) (bytes : Bytes) (s : Snap (Host ObjectSig) World) :
    Prop :=
  bytes = (parts.map s.world.content).flatten

theorem frame_concatenated (hF : Frame t id F) {bytes : Bytes} (hl : locked)
    (hx : ∀ state, x = some state → state.isPartial = false) :
    Frame t id fun s => Gathering F t id x locked ids parts s ∧ Concatenated parts bytes s where
  lasting s s' hs hr hh := by
    refine ⟨(frame_gathering hF hx).lasting s s' hs.1 hr hh, ?_⟩
    rw [Concatenated, ((frame_contents hl hx).lasting s s' ⟨hs.1.2, rfl⟩ hr hh).2]
    exact hs.2
  keeps s s' hs hw hh := by
    refine ⟨(frame_gathering hF hx).keeps s s' hs.1 hw hh, ?_⟩
    rw [Concatenated, ((frame_contents hl hx).keeps s s' ⟨hs.1.2, rfl⟩ hw hh).2]
    exact hs.2

theorem requireStorageHandles_ok {sources : List StorageHandle}
    (h : parts.mapM UploadState.requireStorageHandle = .ok sources) :
    List.Forall₂ (fun (p : UploadState) h => p.handle = some h) parts sources := by
  induction parts generalizing sources with
  | nil =>
    cases h
    exact .nil
  | cons p ps ih =>
    rw [List.mapM_cons] at h
    obtain ⟨hd, hhd, h⟩ := except_bind_ok h
    obtain ⟨hs, hhs, h⟩ := except_bind_ok h
    cases h
    refine .cons ?_ (ih hhs)
    unfold UploadState.requireStorageHandle at hhd
    cases hp : p.handle with
    | none => rw [hp] at hhd; cases hhd
    | some h' =>
      rw [hp] at hhd
      exact congrArg some (Except.ok.inj hhd)

/-- The sources of a concatenation are the contents of the parts. -/
theorem contents_of_sources {w : World} {sources : List StorageHandle} {contents : List Bytes}
    (hp : List.Forall₂ (fun (p : UploadState) h => p.handle = some h) parts sources)
    (hs : List.Forall₂ (fun (h : StorageHandle) b => w.objects h.key = some b) sources contents) :
    parts.map w.content = contents := by
  induction hp generalizing contents with
  | nil =>
    cases hs
    rfl
  | cons hph _ ih =>
    cases hs with
    | cons hb hbs =>
      rw [List.map_cons, ih hbs]
      simp only [World.content, hph, Option.bind_some, hb, Option.getD_some]

/-- The final upload's own record does not stand in the way of a concatenation. -/
structure Targets (t : Nat) (id : String) (x : Option UploadState) (o : Option Bytes)
    (ids : List String) (s : Snap (Host ObjectSig) World) : Prop where
  record : ∀ old, x = some old → old.isFinal = true ∧ old.parts = some ids ∧
    Live t s.world id old ∧ ∀ l, old.length = some l → sizeOfObject o ≠ l

theorem materializeFinalUpload_spec (hF : Frame t id F) {state : UploadState}
    (hx : ∀ state, x = some state → state.isPartial = false) (hl : locked)
    (hready : (statusOf parts).readyToMaterialize = true) (hh : state.handle = some h)
    (htarget : ∀ s, F s → Targets t id x o ids s) :
    HostSpec hooks config requests t (Holding (Gathering F t id x locked ids parts) t id x h o)
      (materializeFinalUpload contract state parts)
      (outcomes (Holding (Gathering F t id x locked ids parts) t id x h o) fun r s =>
        ∃ bytes h', Holding (fun s => Gathering F t id x locked ids parts s ∧
          Concatenated parts bytes s) t id x h (some bytes) s ∧
          (r = state.setStorageHandle h' ∧ h'.key = h.key)) := by
  have hF' : Frame t id (Gathering F t id x locked ids parts) := frame_gathering hF hx
  unfold materializeFinalUpload UploadState.requireStorageHandle
  simp only [hh]
  refine andThen (A := fun target s => Holding (Gathering F t id x locked ids parts) t id x h o s ∧
    target = h) (lift_spec (fun _ h => h) fun a s ha hs => ⟨hs, (Except.ok.inj ha).symm⟩)
    fun target => assume fun htg => ?_
  subst htg
  refine andThen (A := fun sources s => Holding (Gathering F t id x locked ids parts) t id x
    target o s ∧ List.Forall₂ (fun (p : UploadState) h => p.handle = some h) parts sources)
    (lift_spec (fun _ h => h) fun a s ha hs => ⟨hs, requireStorageHandles_ok ha⟩)
    fun sources => assume fun hsources => ?_
  refine andThen (A := fun (h' : StorageHandle) s => ∃ bytes, Holding
      (fun s => Gathering F t id x locked ids parts s ∧ Concatenated parts bytes s) t id x target
      (some bytes) s ∧ h'.key = target.key) ?_ fun h' => ?_
  · refine perform (o := .storage (.concat target sources))
      (fun (r : Except Error StorageHandle) s =>
        outcomes (Holding (Gathering F t id x locked ids parts) t id x target o)
          (fun h' s => ∃ bytes, Holding (fun s => Gathering F t id x locked ids parts s ∧
            Concatenated parts bytes s) t id x target (some bytes) s ∧ h'.key = target.key) r s)
      (lasting_holding hF') (fun s _ hs => ?_) ?_ fun r => Spec.done fun _ h => h
    · exact ⟨id, x, o, ids, parts, hs.2, hs.1.2.partsLocked hl, fun p hp => (hs.1.2.sound p hp).1,
        hready, hsources, (htarget s hs.1.1).record⟩
    · intro s a w' _ hs he _
      cases he with
      | @concat _ _ _ contents _ hsrc hfit =>
        have hcontents : parts.map s.world.content = contents := contents_of_sources hsources hsrc
        have hframe : Frame t id fun s => Gathering F t id x locked ids parts s ∧
            Concatenated parts contents.flatten s := frame_concatenated hF hl hx
        refine ⟨contents.flatten, ⟨hframe.push ⟨hs.1, ?_⟩ (.objects_update hs.2.owner),
          own_put hs.2⟩, rfl⟩
        rw [Concatenated, hcontents]
      | concatFailed => exact (lasting_holding hF').push hs
  · exact pure_spec fun s hs => by
      obtain ⟨bytes, hs, hkey⟩ := hs
      exact ⟨bytes, h', hs, rfl, hkey⟩

end Materialisation

/-! ## Creation of a final upload -/

section Create

variable {F : Snap (Host ObjectSig) World → Prop} {id : String} {h : StorageHandle}
  {o : Option Bytes} {ids : List String} {parts : List UploadState}

/-- The record of a new final upload, before it has an object. -/
structure NewFinal (config : Config) (id : String) (ids : List String) (parts : List UploadState)
    (state : UploadState) : Prop where
  id_eq : state.id = id
  isPartial : state.isPartial = false
  isFinal : state.isFinal = true
  ids_eq : state.parts = some ids
  length : state.length = (statusOf parts).totalLength
  offset : state.offset = (statusOf parts).expectedOffset
  bounded : ∀ l m, state.length = some l → config.maxSize = some m → l ≤ m
  capped : state.isComplete = false → Capped state parts

theorem enforceFinalUploadSize_ok {status : FinalUploadStatus}
    (h : enforceFinalUploadSize config status = .ok ()) :
    ∀ l m, status.totalLength = some l → config.maxSize = some m → l ≤ m := by
  intro l m hl hm
  unfold enforceFinalUploadSize at h
  rw [hl] at h
  exact enforce_ok h m hm

/-- What the cap changes is the expiration. -/
theorem cap_cases (state : UploadState) (parts : List UploadState) :
    capPlannedFinalUploadExpiration state parts = state ∨
      ∃ e, capPlannedFinalUploadExpiration state parts = state.setExpiration e := by
  unfold capPlannedFinalUploadExpiration
  split
  · exact .inl rfl
  · split
    · exact .inl rfl
    · split
      · exact .inr ⟨_, rfl⟩
      · exact .inl rfl

theorem cap_capped {state : UploadState} (hc : state.isComplete = false) :
    Capped (capPlannedFinalUploadExpiration state parts) parts := by
  intro p hp e he
  have hmem : e ∈ parts.filterMap UploadState.expiresAt := List.mem_filterMap.mpr ⟨p, hp, he⟩
  unfold capPlannedFinalUploadExpiration
  rw [if_neg (by rw [hc]; exact Bool.false_ne_true)]
  cases hmin : (parts.filterMap UploadState.expiresAt).min? with
  | none =>
    rw [List.min?_eq_none_iff.mp hmin] at hmem
    cases hmem
  | some earliest =>
    have hle : earliest ≤ e := (List.min?_eq_some_iff.mp hmin).2 e hmem
    dsimp only
    split
    · exact ⟨earliest, rfl, hle⟩
    · next hearlier =>
      cases hexp : state.expiresAt with
      | none => simp [hexp] at hearlier
      | some e' =>
        refine ⟨e', rfl, ?_⟩
        simp only [hexp, Option.all_some, decide_eq_true_eq, Nat.not_lt] at hearlier
        exact hearlier.trans hle

theorem newFinal_plan {state : UploadState} (hid : state.id = id) (hp : state.isPartial = false)
    (hl : state.length = none)
    (henforce : enforceFinalUploadSize config (statusOf parts) = .ok ()) :
    NewFinal config id ids parts (capPlannedFinalUploadExpiration
      (applyFinalUploadPlan state ids (statusOf parts)) parts) := by
  have hbound := enforceFinalUploadSize_ok henforce
  have hfields : ∀ st, st = applyFinalUploadPlan state ids (statusOf parts) →
      st.id = id ∧ st.isPartial = false ∧ st.isFinal = true ∧ st.parts = some ids ∧
      st.length = (statusOf parts).totalLength ∧ st.offset = (statusOf parts).expectedOffset := by
    rintro _ rfl
    unfold applyFinalUploadPlan
    cases htotal : (statusOf parts).totalLength with
    | none => exact ⟨hid, hp, rfl, rfl, hl, rfl⟩
    | some total => exact ⟨hid, hp, rfl, rfl, rfl, rfl⟩
  set planned := applyFinalUploadPlan state ids (statusOf parts)
  obtain ⟨h₁, h₂, h₃, h₄, h₅, h₆⟩ := hfields planned rfl
  have hcap : ∀ c, c = planned ∨ (∃ e, c = planned.setExpiration e) →
      (c.isComplete = false → Capped c parts) → NewFinal config id ids parts c := by
    rintro c (rfl | ⟨e, rfl⟩) hcapped
    · exact ⟨h₁, h₂, h₃, h₄, h₅, h₆, fun l m hl hm => hbound l m (h₅.symm.trans hl) hm, hcapped⟩
    · exact ⟨h₁, h₂, h₃, h₄, h₅, h₆, fun l m hl hm => hbound l m (h₅.symm.trans hl) hm, hcapped⟩
  refine hcap _ (cap_cases planned parts) fun hc => cap_capped ?_
  rcases cap_cases planned parts with heq | ⟨e, heq⟩
  · rwa [heq] at hc
  · rwa [heq] at hc

theorem outcome_cases (gate : PreHookGate) (state : UploadState) (r : PreHookResult) :
    (gate.outcome state r).1 = state ∨ ∃ m, (gate.outcome state r).1 = state.setMetadata m := by
  unfold PreHookGate.outcome
  dsimp only
  split
  · split
    · exact .inr ⟨_, rfl⟩
    · exact .inl rfl
  · exact .inl rfl

theorem NewFinal.outcome {state : UploadState} (hn : NewFinal config id ids parts state)
    (gate : PreHookGate) (r : PreHookResult) :
    NewFinal config id ids parts (gate.outcome state r).1 := by
  rcases outcome_cases gate state r with heq | ⟨m, heq⟩
  · rwa [heq]
  · rw [heq]
    exact ⟨hn.id_eq, hn.isPartial, hn.isFinal, hn.ids_eq, hn.length, hn.offset, hn.bounded,
      hn.capped⟩

/-- The record of a new final upload may be written. -/
theorem NewFinal.guard {state : UploadState} {s : Snap (Host ObjectSig) World} {h' : StorageHandle}
    (hn : NewFinal config id ids parts state) (hkey : h'.key = h.key)
    (hhid : s.world.hidden id = some t) (hown : Own t id none h.key o s.world)
    (hload : PartsLoaded t id none locked s ids parts)
    (hready : (statusOf parts).readyToMaterialize = true → locked ∧
      ∃ bytes, o = some bytes ∧ Concatenated parts bytes s) :
    CreateGuard config t (state.setStorageHandle h') h' o s := by
  have hid : (state.setStorageHandle h').id = id := hn.id_eq
  refine ⟨rfl, by rw [hid, hkey]; exact hown, hid.symm ▸ hhid,
    fun hp => absurd (hp.symm.trans hn.isPartial) (by decide), hn.bounded,
    fun hf => absurd (hf.symm.trans hn.isFinal) (by decide), fun _ => ⟨ids, parts, ?_, hn.capped⟩⟩
  rw [← hid] at hload
  refine ⟨hload.planned hn.ids_eq hn.length, hload.imp fun _ _ hp => hp.loaded,
    hload.imp fun _ _ hp => hp.facts, hload.sound, hn.length, hn.offset, fun hr => ?_⟩
  obtain ⟨hl, bytes, rfl, hbytes⟩ := hready hr
  exact ⟨hload.partsLocked hl, .inl (congrArg some hbytes)⟩

/-- From the record of a new final upload on. -/
theorem createFinalRecord_spec (hF : Frame t id F) {state : UploadState} {h' : StorageHandle}
    {status : FinalUploadStatus} {responseHeaders : List (String × String)}
    {P : Snap (Host ObjectSig) World → Prop}
    (hreq : ∀ before, requests t ≠ some (.reclaim before))
    (hhid : ∀ s, F s → s.world.hidden id = some t) (hid : state.id = id) (hkey : h'.key = h.key)
    (hP : ∀ s, P s → Holding F t id none h o s) (hlast : Lasting t P)
    (hG : ∀ s, P s → CreateGuard config t (state.setStorageHandle h') h' o s) :
    HostSpec hooks config requests t P
      (do
        match ← Attempt.outcome (setState (state.setStorageHandle h') .createNew) with
        | .error e => failAfter (rollbackStorage contract (state.setStorageHandle h')) e
        | .ok _ =>
          runPostEvent .postCreate (state.setStorageHandle h')
          if status.allComplete then afterCommit (state.setStorageHandle h') else pure ()
          pure (state.setStorageHandle h', status, responseHeaders) :
        HostM ObjectSig (UploadState × FinalUploadStatus × List (String × String)))
      (outcomes F fun r s => F s ∧ r.1.id = id) := by
  have hbel : Belongs id h (state.setStorageHandle h') := ⟨hid, h', rfl, hkey⟩
  refine andThen (A := fun r s => outcomes (Holding F t id none h o)
    (fun _ => Holding F t id (some (state.setStorageHandle h')) h o) r s) ?_ fun r => ?_
  · refine outcome_spec ?_
    refine perform (o := .stateSet (state.setStorageHandle h') .createNew)
      (fun (r : Except Error Unit) s => outcomes (Holding F t id none h o)
        (fun _ => Holding F t id (some (state.setStorageHandle h')) h o) r s)
      hlast (fun s hw hs => ⟨h', o, hG s hs⟩) ?_ fun r => Spec.done fun _ h => h
    intro s a w' _ hs he hl
    have hown : Own t (state.setStorageHandle h').id none h.key o s.world :=
      (show (state.setStorageHandle h').id = id from hid).symm ▸ (hP s hs).2
    cases he with
    | stateCreate _ =>
      refine ⟨hF.push (hP s hs).1 ?_, ?_⟩
      · rw [← hid]
        exact .setState hl
      · have := own_setState hown
        rwa [show (state.setStorageHandle h').id = id from hid] at this
    | stateSetFailed => exact (lasting_holding hF).push (hP s hs)
  · cases r with
    | error e => exact undoStorage_spec hF hreq hhid hbel fun s hs => ⟨_, _, hs⟩
    | ok _ =>
      have hlasting : Lasting t (Holding F t id (some (state.setStorageHandle h')) h o) :=
        lasting_holding hF
      have hdone : HostSpec hooks config requests t
          (Holding F t id (some (state.setStorageHandle h')) h o)
          (pure (state.setStorageHandle h', status, responseHeaders) :
            HostM ObjectSig (UploadState × FinalUploadStatus × List (String × String)))
          (outcomes F fun r s => F s ∧ r.1.id = id) := pure_spec fun s hs => ⟨hs.1, hid⟩
      refine andThen (runPostEvent_spec hlasting) fun _ => ?_
      exact Spec.ite (fun _ => andThen (afterCommit_spec hlasting) fun _ => hdone) fun _ => hdone

/-- From the object of a new final upload on. -/
theorem createWithObject_spec (hF : Frame t id F) {state : UploadState}
    {responseHeaders : List (String × String)}
    (hreq : ∀ before, requests t ≠ some (.reclaim before))
    (hhid : ∀ s, F s → s.world.hidden id = some t) (hn : NewFinal config id ids parts state)
    (hready : (statusOf parts).readyToMaterialize = true → locked) :
    HostSpec hooks config requests t (Fresh (Gathering F t id none locked ids parts) t id)
      (do
        let handle ← contract.create state.id
        let materialized ←
          if (statusOf parts).readyToMaterialize then
            Attempt.outcome (materializeFinalUpload contract (state.setStorageHandle handle) parts)
          else pure (.ok (state.setStorageHandle handle))
        match materialized with
        | .error e => failAfter (rollbackStorage contract (state.setStorageHandle handle)) e
        | .ok state =>
          match ← Attempt.outcome (setState state .createNew) with
          | .error e => failAfter (rollbackStorage contract state) e
          | .ok _ =>
            runPostEvent .postCreate state
            if (statusOf parts).allComplete then afterCommit state else pure ()
            pure (state, statusOf parts, responseHeaders) :
        HostM ObjectSig (UploadState × FinalUploadStatus × List (String × String)))
      (outcomes F fun r s => F s ∧ r.1.id = id) := by
  have hnone : ∀ state, (none : Option UploadState) = some state → state.isPartial = false := nofun
  have hF' : Frame t id (Gathering F t id none locked ids parts) := frame_gathering hF hnone
  refine andThen (A := fun h s => Holding (Gathering F t id none locked ids parts) t id none h
    (some []) s) ((create_spec hF' hn.id_eq).weaken (fun _ h => h) ?_) fun h => ?_
  · rintro (e | h) s hs
    · exact hs.1
    · exact hs
  refine Spec.ite (fun hr => ?_) fun hr => ?_
  · have hl : locked := hready hr
    refine andThen (outcome_spec (materializeFinalUpload_spec (h := h) (o := some []) hF hnone hl hr
      rfl fun _ _ => ⟨nofun⟩)) fun r => ?_
    cases r with
    | error e =>
      exact undoStorage_spec hF hreq hhid ⟨hn.id_eq, h, rfl, rfl⟩ fun s hs =>
        ⟨_, _, hs.1.1, hs.2⟩
    | ok materialized =>
      refine assumeExists fun bytes => assumeExists fun h' => assume fun hst => ?_
      obtain ⟨rfl, hkey⟩ := hst
      have hframe : Frame t id fun s => Gathering F t id none locked ids parts s ∧
          Concatenated parts bytes s := frame_concatenated hF hl hnone
      refine createFinalRecord_spec (h := h) (o := some bytes) hF hreq hhid hn.id_eq hkey
        (fun s hs => ⟨hs.1.1.1, hs.2⟩) (lasting_holding hframe) fun s hs => ?_
      exact hn.guard hkey (hhid s hs.1.1.1) hs.2 hs.1.1.2 fun _ => ⟨hl, bytes, rfl, hs.1.2⟩
  · refine createFinalRecord_spec (h := h) (o := some []) hF hreq hhid hn.id_eq rfl
      (fun s hs => ⟨hs.1.1, hs.2⟩) (lasting_holding hF') fun s hs => ?_
    exact hn.guard rfl (hhid s hs.1.1) hs.2 hs.1.2 fun h => absurd h hr

theorem createPlanned_spec (hF : Frame t id F) {digests : Digests} {state : UploadState}
    (hreq : ∀ before, requests t ≠ some (.reclaim before))
    (hhid : ∀ s, F s → s.world.hidden id = some t) (hid : state.id = id)
    (hp : state.isPartial = false) (hl : state.length = none)
    (hready : (statusOf parts).readyToMaterialize = true → locked) :
    HostSpec hooks config requests t
      (fun s => Fresh F t id s ∧ PartsLoaded t id none locked s ids parts)
      (createPlanned ⟨config, digests, contract⟩ state ⟨ids, parts, statusOf parts⟩)
      (outcomes F fun r s => F s ∧ r.1.id = id) := by
  have hnone : ∀ state, (none : Option UploadState) = some state → state.isPartial = false := nofun
  have hF' : Frame t id (Gathering F t id none locked ids parts) := frame_gathering hF hnone
  refine Spec.weaken (P := Fresh (Gathering F t id none locked ids parts) t id) ?_
    (fun s hs => ⟨⟨hs.1.1, hs.2⟩, hs.1.2⟩) fun _ _ h => h
  have hE : ∀ s, Fresh (Gathering F t id none locked ids parts) t id s → F s :=
    fun s hs => hs.1.1
  have hP : Lasting t (Fresh (Gathering F t id none locked ids parts) t id) := lasting_fresh hF'
  refine andThen (A := fun _ s => Fresh (Gathering F t id none locked ids parts) t id s ∧
    enforceFinalUploadSize config (statusOf parts) = .ok ())
    (lift_spec hE fun _ s ha hs => ⟨hs, ha⟩) fun _ => assume fun henforce => ?_
  have hnew : NewFinal config id ids parts _ := newFinal_plan hid hp hl henforce
  refine andThen (gate_spec hP hE) fun a => assume fun ha => ?_
  obtain ⟨result, _, rfl⟩ := ha
  have hn := hnew.outcome .create result
  dsimp only
  generalize (PreHookGate.create.outcome (capPlannedFinalUploadExpiration
    (applyFinalUploadPlan state ids (statusOf parts)) parts) result).1 = planned at hn ⊢
  exact Spec.ite (fun _ => andThen (finishGate_spec hP hE) fun _ =>
    createWithObject_spec hF hreq hhid hn hready)
    fun _ => createWithObject_spec hF hreq hhid hn hready

theorem frame_allLocked {id' : String} : Frame t id' (AllLocked t ids) where
  lasting := lasting_allLocked
  keeps _ _ hs hw _ := fun p hp => by rw [hw.locks]; exact hs p hp

/-- What is kept while the locks of parts are released. -/
theorem Frame.releases (hF : Frame t id F) (hU : ∀ p, p ≠ id → Unlocks t p F) {C : α → Prop} :
    Releases t id F fun a s => F s ∧ C a where
  lasting_error := hF.lasting
  lasting_value _ s s' hs hr hh := ⟨hF.lasting s s' hs.1 hr hh, hs.2⟩
  unlock_error := hU
  unlock_value p hp _ s hs hl := ⟨hU p hp s hs.1 hl, hs.2⟩

theorem createFinalUpload_spec (hF : Frame t id F) (hU : ∀ p, p ≠ id → Unlocks t p F)
    {digests : Digests} {state : UploadState} {partUrls : List String}
    (hreq : ∀ before, requests t ≠ some (.reclaim before))
    (hhid : ∀ s, F s → s.world.hidden id = some t) (hid : state.id = id)
    (hp : state.isPartial = false) (hl : state.length = none) :
    HostSpec hooks config requests t (Fresh F t id)
      (createFinalUpload ⟨config, digests, contract⟩ state partUrls)
      (outcomes F fun r s => F s ∧ r.1.id = id) := by
  have hP : Lasting t (Fresh F t id) := lasting_fresh hF
  have hE : ∀ s, Fresh F t id s → F s := fun s hs => hs.1
  have hx : ∀ s, Fresh F t id s → s.world.states id = none := fun s hs => hs.2.2
  refine andThen (loadFinalUploadPlan_spec False hP hE hx fun h => h.elim)
    fun plan => ?_
  refine assumeExists fun parts => assume fun hplan => ?_
  subst hplan
  refine Spec.ite (fun _ => ?_) fun hr => ?_
  · -- what was read without the locks is read again under them
    set ids := partIds config partUrls
    have hF' : Frame t id fun s => F s ∧ AllLocked t ids s := hF.and frame_allLocked
    refine Spec.weaken (P := Fresh F t id) ?_ (fun s hs => hs.1) fun _ _ h => h
    refine withPartLocks_spec ids (hF.releases hU) hP hE (fun s hs => .inr hs.2.1) ?_
    refine Spec.weaken (P := Fresh (fun s => F s ∧ AllLocked t ids s) t id)
      (Q := outcomes (fun s => F s ∧ AllLocked t ids s) fun r s =>
        (F s ∧ AllLocked t ids s) ∧ r.1.id = id) ?_ ?_ ?_
    · refine andThen (loadFinalUploadPlan_spec True (lasting_fresh hF') (fun s hs => hs.1)
        (fun s hs => hs.2.2) fun _ p hp s hs => hs.1.2 p hp) fun plan => ?_
      refine assumeExists fun parts => assume fun hplan => ?_
      subst hplan
      exact createPlanned_spec hF' hreq (fun s hs => hhid s hs.1) hid hp hl fun _ => trivial
    · exact fun s hs => ⟨⟨hs.1.1, hs.2⟩, hs.1.2⟩
    · rintro (e | r) s hs
      · exact hs
      · exact ⟨⟨hs.1.1, hs.2⟩, hs.1.2⟩
  · exact createPlanned_spec hF hreq hhid hid hp hl fun h => absurd h hr

end Create

end System

end TusRs
