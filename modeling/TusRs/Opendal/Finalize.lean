import TusRs.Opendal.Append

/-!
# Finalising, repairing and reading

A finalisation writes the parts into the main object and removes them; a read of a
complete upload whose finalisation was cut off does the same first.

Results:

* `finalize_spec`: a finalisation materialises a staged upload or leaves it staged.
* `append_spec`: an append ends with the body staged and, when it completes the upload,
  materialised.
* `stream_spec`: a complete upload is read, after a repair if need be, as it was staged.
* `receive_spec`, `download_spec`: the requests of the protocol keep the layout.
-/

namespace TusRs

open Interaction Protocol

namespace Opendal

/-! ## Materialising the parts -/

section Materialising

variable {faults : Prop} {I : World → Prop} {α : Type} {w : World} {u : UploadObjects}

/-- The content of a list of objects, one after the other. -/
def contents (w : World) (keys : List Key) : Bytes := keys.flatMap (bytesAt w)

theorem copyObjects_spec (hI : Closed I) (hw : I w) {purpose : String} {uuid : Nat} (buffer : Bytes)
    (sources : List Key) (hfound : ∀ k ∈ sources, ∃ b, w.objects.lookup k = some b) :
    SpecIn I faults (· = w) (copyObjects (.temp purpose uuid) buffer sources) (fun
      | .ok _, w' => w' = w.put (.temp purpose uuid) (buffer ++ contents w sources)
      | .error _, w' => w' = w ∧ faults) := by
  induction sources generalizing buffer with
  | nil =>
    refine op_spec (fun
      | .ok _, w' => w' = w.put (.temp purpose uuid) (buffer ++ contents w [])
      | .error _, w' => w' = w ∧ faults) ?_ fun r => ?_
    · intro a w' hi he
      cases he with
      | writerClose =>
        exact ⟨hI (Same.put_temp w purpose uuid buffer) hw, by simp [contents]⟩
      | writerCloseFailed hf => exact ⟨hi, rfl, hf⟩
    · cases r <;> exact Triple.done fun w' h => h
  | cons k ks ih =>
    refine readObject_spec (fun b hb => ?_) (fun hn => ?_) fun m hf => ?_
    · have hcons : buffer ++ contents w (k :: ks) = buffer ++ b ++ contents w ks := by
        simp [contents, bytesAt, hb]
      refine read_spec (fun a => ∀ e, a = .error e → faults) ?_ fun r hr => ?_
      · intro a w' he
        cases he with
        | writerWrite => exact ⟨rfl, by simp⟩
        | writerWriteFailed hf => exact ⟨rfl, fun _ _ => hf⟩
      · cases r with
        | error e => exact Triple.done fun w' h => ⟨h, hr e rfl⟩
        | ok _ =>
          rw [hcons]
          exact ih (buffer ++ b) fun k' hk' => hfound k' (List.mem_cons_of_mem k hk')
    · obtain ⟨b, hb⟩ := hfound k List.mem_cons_self
      rw [hn] at hb
      cases hb
    · exact Triple.done fun w' h => ⟨h, hf⟩

/-- The result of materialising `content`: it is the main object, or nothing changed. -/
def Materialized (faults : Prop) (u : UploadObjects) (w : World) (content : Bytes) :
    Except Error Unit → World → Prop
  | .ok _, w' => Same (w.put .main content) w'
  | .error _, w' => Same w w' ∧ (u.Promotes → faults)

theorem materialize_spec (hI : Closed I) (hw : I w) (purpose : String) (sources : List Key)
    (hfound : ∀ k ∈ sources, ∃ b, w.objects.lookup k = some b)
    (hput : I (w.put .main (contents w sources))) :
    SpecIn I faults (· = w) (materialize u purpose sources)
      (Materialized faults u w (contents w sources)) := by
  refine tempKey_spec fun uuid => ?_
  refine Triple.bind (fun
      | .ok _, w' => w' = w.put (.temp purpose uuid) (contents w sources)
      | .error _, w' => Same w w' ∧ faults) ?_ fun r => ?_
  · refine Triple.bind (fun
      | .ok _, w' => w' = w.put (.temp purpose uuid) (contents w sources)
      | .error _, w' => w' = w ∧ faults) ?_ fun r => ?_
    · refine read_spec (fun a => ∀ e, a = .error e → faults) ?_ fun r hr => ?_
      · intro a w' he
        cases he with
        | writer => exact ⟨rfl, nofun⟩
        | writerFailed hf => exact ⟨rfl, fun _ _ => hf⟩
      · cases r with
        | error e => exact Triple.done fun w' h => ⟨h, hr e rfl⟩
        | ok _ => exact copyObjects_spec hI hw [] sources hfound
    · cases r with
      | ok _ => exact Triple.done fun w' h => h
      | error e =>
        refine spec_of_eq fun w₁ h => ?_
        obtain ⟨rfl, hf⟩ := h
        have herase := Same.erase_temp w₁ purpose uuid
        refine deleteIgnored_spec (hI herase hw) fun w' hw' => Triple.done ?_
        rintro _ rfl
        rcases hw' with rfl | rfl
        · exact ⟨Same.refl _, hf⟩
        · exact ⟨herase, hf⟩
  · cases r with
    | error e => exact Triple.done fun w' h => ⟨h.1, fun _ => h.2⟩
    | ok _ =>
      refine spec_of_eq ?_
      rintro _ rfl
      have hsame := Same.put_temp w purpose uuid (contents w sources)
      have hmoved := hsame.put .main (contents w sources)
      refine Triple.bind _ (promoteObject_spec hI lookup_put_self (hI hmoved hput)) fun r => ?_
      cases r with
      | ok _ => exact Triple.done fun w' h => hmoved.trans h
      | error e =>
        refine spec_of_eq ?_
        rintro _ ⟨rfl, hwhy⟩
        have herase := hsame.trans (Same.erase_temp _ purpose uuid)
        refine deleteIgnored_spec (hI herase hw) fun w' hw' => Triple.done ?_
        rintro _ rfl
        rcases hw' with rfl | rfl
        · exact ⟨hsame, hwhy⟩
        · exact ⟨herase, hwhy⟩

theorem Staged.put_main (hs : Staged w) (hne : w.log ≠ [])
    (hfull : ∀ l, w.length = some l → l = total w.log) :
    Promoted (w.put .main (material w.log)) where
  main := by rw [lookup_put_self, put_log rfl]
  parts i b hb := by
    rw [lookup_put_ne (by simp), hs.parts] at hb
    rw [put_log rfl]
    exact hb
  nonempty := by rw [put_log rfl]; exact hne
  full := by rw [put_log rfl]; exact hfull

theorem Promoted.erase (hp : Promoted w) {k : Key} (hk : k ≠ .main) : Promoted (w.erase k) where
  main := by rw [lookup_erase_ne hk.symm]; exact hp.main
  parts i b hb := by
    by_cases hik : Key.part i = k
    · rw [hik, lookup_erase_self] at hb
      cases hb
    · rw [lookup_erase_ne hik] at hb
      exact hp.parts i b hb
  nonempty := hp.nonempty
  full := hp.full

end Materialising

/-! ## Finalising -/

section Finalising

variable {faults : Prop} {α : Type} {w w' : World} {u : UploadObjects}

/-- The upload staged in `w` is materialised in `w'`. -/
structure Finalized (w w' : World) : Prop where
  promoted : Promoted w'
  log : w'.log = w.log
  record : SameRecord w w'

theorem Finalized.erase (h : Finalized w w') {k : Key} (hk : k ≠ .main) :
    Finalized w (w'.erase k) :=
  ⟨h.promoted.erase hk, h.log, h.record.trans (.erase k)⟩

theorem Finalized.layout (h : Finalized w w') (hw : Layout w) : Layout w' :=
  hw.of_shape h.log h.record (.inr h.promoted)

/-- As `Finalized`, and without faults the objects that `gone` names do not exist. -/
structure Cleaned (faults : Prop) (gone : Key → Prop) (w w' : World) : Prop
    extends Finalized w w' where
  absent : ¬faults → ∀ k, gone k → w'.objects.lookup k = none

/-- The result of a cleanup that removes what `gone` names. -/
def Cleans (faults : Prop) (gone : Key → Prop) (w : World) : Except Error Unit → World → Prop
  | .ok _, w' => Cleaned faults gone w w'
  | .error _, w' => Finalized w w' ∧ faults

variable {gone : Key → Prop}

theorem Cleaned.mono {gone' : Key → Prop} (h : Cleaned faults gone w w')
    (hg : ∀ k, gone' k → gone k) : Cleaned faults gone' w w' :=
  ⟨h.toFinalized, fun hf k hk => h.absent hf k (hg k hk)⟩

theorem Cleans.cleaned {r : Except Error Unit} (h : Cleans faults gone w r w') :
    Cleaned faults gone w w' := by
  cases r with
  | ok _ => exact h
  | error e => exact ⟨h.1, fun hf => absurd h.2 hf⟩

theorem deleteObject_cleans (hw : Layout w) {k : Key} (hk : k ≠ .main) :
    Spec faults (Cleaned faults gone w) (deleteObject k)
      (Cleans faults (fun k' => gone k' ∨ k' = k) w) := by
  refine spec_of_eq fun w₁ h₁ => ?_
  refine op_spec (fun
    | .error (.other _), w' => Finalized w w' ∧ faults
    | _, w' => Cleaned faults (fun k' => gone k' ∨ k' = k) w w') ?_ fun r => ?_
  · intro a w' hi he
    cases he with
    | delete =>
      refine ⟨(h₁.erase hk).layout hw, h₁.erase hk, fun hf k' hk' => ?_⟩
      by_cases heq : k' = k
      · rw [heq, lookup_erase_self]
      · rw [lookup_erase_ne heq]
        exact h₁.absent hf k' (hk'.resolve_right heq)
    | deleteMissing hn =>
      refine ⟨hi, h₁.toFinalized, fun hf k' hk' => ?_⟩
      rcases hk' with hk' | rfl
      · exact h₁.absent hf k' hk'
      · exact hn
    | deleteFailed hf => exact ⟨hi, h₁.toFinalized, hf⟩
  · rcases r with (_ | _) | _ <;> exact Triple.done fun _ h => h

theorem deleteObjects_cleans (hw : Layout w) (keys : List Key) (hkeys : ∀ k ∈ keys, k ≠ .main) :
    Spec faults (Cleaned faults gone w) (deleteObjects keys)
      (Cleans faults (fun k => gone k ∨ k ∈ keys) w) := by
  induction keys generalizing gone with
  | nil => exact Triple.done fun _ h => h.mono fun _ hk => hk.resolve_right List.not_mem_nil
  | cons k ks ih =>
    refine Triple.andThen _ (deleteObject_cleans hw (hkeys k List.mem_cons_self))
      (fun _ => ?_) fun _ _ h => h
    refine (ih fun k' hk' => hkeys k' (List.mem_cons_of_mem k hk')).weaken (fun _ h => h)
      fun r w' h => ?_
    cases r with
    | error e => exact h
    | ok _ =>
      refine Cleaned.mono h fun k' hk' => ?_
      rw [or_assoc, ← List.mem_cons]
      exact hk'

theorem deletePrefix_cleans (pre : Prefix) :
    Spec faults (Cleaned faults gone w) (deletePrefix pre) (Cleans faults gone w) := by
  refine spec_of_eq fun w₁ h₁ => read_spec (fun a => ∀ e, a = .error e → faults) ?_ fun r hr => ?_
  · intro a w' he
    cases he with
    | deletePrefix => exact ⟨rfl, nofun⟩
    | deletePrefixFailed hf => exact ⟨rfl, fun _ _ => hf⟩
  · rcases r with (_ | m) | _
    · exact Triple.done fun _ h => h ▸ h₁
    · exact Triple.done fun _ h => h ▸ ⟨h₁.toFinalized, hr _ rfl⟩
    · exact Triple.done fun _ h => h ▸ h₁

theorem deleteStagedParts_cleans (hw : Layout w) :
    Spec faults (Finalized w) deleteStagedParts (Cleans faults Prefix.parts.has w) := by
  refine spec_of_eq fun w₁ h₁ => ?_
  refine reads_bind listParts_spec (fun parts hlisted => ?_)
    fun _ hf => Triple.done fun _ h => h ▸ ⟨h₁, hf⟩
  obtain ⟨ns, hparts⟩ := hlisted
  have hkeys : ∀ k ∈ parts.map PartObject.key, k ≠ .main := by
    rw [hparts.keys]
    intro k hk
    obtain ⟨i, -, rfl⟩ := List.mem_map.mp hk
    exact nofun
  -- a part that is not listed does not exist
  have hstart : Cleaned faults (fun k => Prefix.parts.has k ∧ w₁.objects.lookup k = none) w w₁ :=
    ⟨h₁, fun _ _ hk => hk.2⟩
  have hgone : ∀ k, Prefix.parts.has k →
      (Prefix.parts.has k ∧ w₁.objects.lookup k = none) ∨ k ∈ parts.map PartObject.key := by
    intro k hk
    cases hlook : w₁.objects.lookup k with
    | none => exact .inl ⟨hk, rfl⟩
    | some b =>
      cases k with
      | part i =>
        rw [hparts.keys]
        exact .inr (List.mem_map_of_mem ((hparts.mem i).mpr ⟨b, hlook⟩))
      | main | complete | temp _ _ => exact hk.elim
  refine Triple.weaken (P := Cleaned faults
    (fun k => Prefix.parts.has k ∧ w₁.objects.lookup k = none) w) ?_ ?_ fun _ _ h => h
  swap
  · rintro _ rfl
    exact hstart
  refine Triple.andThen _ (deleteObjects_cleans hw _ hkeys) (fun _ => ?_) fun _ _ h => h
  exact (deletePrefix_cleans .parts).weaken (fun _ h => Cleaned.mono h hgone) fun _ _ h => h

theorem listTempObjects_spec {I : World → Prop} :
    SpecIn I faults (· = w) listTempObjects
      (Reads faults w fun keys => ∀ k ∈ keys, k ≠ .main) := by
  refine read_spec (fun a => (∃ es, Lists w.objects .tmp es ∧ a = .ok es) ∨
    a = .error .notFound ∨ faults ∧ ∃ m, a = .error (.other m)) ?_ ?_
  · intro a w' he
    cases he with
    | list hl => exact ⟨rfl, .inl ⟨_, hl, rfl⟩⟩
    | listMissing hn => exact ⟨rfl, .inr (.inl rfl)⟩
    | listFailed hf => exact ⟨rfl, .inr (.inr ⟨hf, _, rfl⟩)⟩
  · rintro a (⟨es, hl, rfl⟩ | rfl | ⟨hf, m, rfl⟩)
    · refine reads_done fun k hk => ?_
      obtain ⟨e, he, rfl⟩ := List.mem_map.mp hk
      obtain ⟨hmem, hfile⟩ := List.mem_filter.mp he
      have hpre := (hl.sound e hmem hfile).1
      intro hmain
      rw [hmain] at hpre
      exact hpre
    · exact reads_done nofun
    · exact reads_error hf

theorem deleteTempObjects_cleans (hw : Layout w) :
    Spec faults (Cleaned faults gone w) deleteTempObjects (Cleans faults gone w) := by
  refine spec_of_eq fun w₁ h₁ => ?_
  refine reads_bind listTempObjects_spec (fun keys hkeys => ?_)
    fun _ hf => Triple.done fun _ h => h ▸ ⟨h₁.toFinalized, hf⟩
  refine Triple.andThen _ ((deleteObjects_cleans hw _ hkeys).weaken
    (fun w' h => h ▸ h₁) fun _ _ h => h) (fun _ => ?_) fun _ _ h => h
  exact (deletePrefix_cleans .tmp).weaken (fun _ h => Cleaned.mono h fun _ => .inl) fun _ _ h => h

/-- A cleanup in passing: whatever its result, what it removes is gone unless it failed. -/
theorem bestEffort_spec {P : World → Prop} {p : StoreM Unit} {f : Unit → StoreM α}
    {Q : Except Error α → World → Prop} (hp : Spec faults P p (Cleans faults gone w))
    (hf : Spec faults (Cleaned faults gone w) (f ()) Q) :
    Spec faults P (bestEffort p >>= f : StoreM α) Q :=
  Triple.andThen (fun
    | .ok _, w' => Cleaned faults gone w w'
    | .error _, _ => False) (Triple.bind _ hp fun _ => Triple.done fun _ h => h.cleaned)
    (fun _ => hf) fun _ _ h => h.elim

/-- The parts of a staged upload, in the order of a listing, are its material. -/
theorem PartsOf.contents_eq {ns : List Nat} {parts : List PartObject} (h : PartsOf w ns parts)
    (hs : Staged w) : contents w (parts.map PartObject.key) = material w.log := by
  rw [contents, h.keys, h.order hs, List.flatMap_map, material]
  congr 1
  funext i
  rw [bytesAt, hs.parts]

/-- The result of a finalisation. -/
def FinalizeResult (faults : Prop) (u : UploadObjects) (w : World) :
    Except Error Unit → World → Prop
  | .ok _, w' => Cleaned faults Prefix.parts.has w w'
  | .error _, w' => Same w w' ∧ (u.Promotes → faults)

theorem finalize_spec (hw : Layout w) (hs : Staged w) (hne : w.log ≠ [])
    (hfull : ∀ l, w.length = some l → l = total w.log) :
    Spec faults (· = w) (finalize u) (FinalizeResult faults u w) := by
  have hprom := hs.put_main hne hfull
  have hlayout : Layout (w.put .main (material w.log)) :=
    hw.of_shape (put_log rfl) (.put _ _) (.inr hprom)
  refine reads_bind listParts_spec (fun parts hlisted => ?_)
    fun e hf => Triple.done fun w' h => ⟨h ▸ Same.refl w, fun _ => hf⟩
  obtain ⟨ns, hparts⟩ := hlisted
  have hcontents := hparts.contents_eq hs
  have hfound : ∀ k ∈ parts.map PartObject.key, ∃ b, w.objects.lookup k = some b := by
    intro k hk
    obtain ⟨p, hp, rfl⟩ := List.mem_map.mp hk
    exact hparts.found p hp
  refine Triple.andThen _ (materialize_spec layout_closed hw "finalize" _ hfound (hcontents ▸ hlayout))
    (fun _ => ?_) fun _ _ h => h
  -- from the promotion on, only leftovers are removed
  refine Triple.weaken (P := Finalized w) ?_ (fun w' h => ?_) fun _ _ h => h
  · refine bestEffort_spec (deleteStagedParts_cleans hw) ?_
    refine bestEffort_spec (deleteTempObjects_cleans hw) ?_
    refine Triple.bind _ (deleteObject_cleans hw nofun) fun _ => Triple.done fun _ h => ?_
    exact h.cleaned.mono fun _ => .inl
  · rw [Materialized, hcontents] at h
    exact ⟨h.promoted hprom, h.log.trans (put_log rfl), (SameRecord.put _ _).trans h.record⟩

theorem finalizeWithRetry_spec (n : Nat) (hw : Layout w) (hs : Staged w) (hne : w.log ≠ [])
    (hfull : ∀ l, w.length = some l → l = total w.log) :
    Spec faults (· = w) (finalizeWithRetry u n) (FinalizeResult faults u w) := by
  induction n generalizing w with
  | zero => exact finalize_spec hw hs hne hfull
  | succ n ih =>
    refine Triple.bind _ (finalize_spec hw hs hne hfull) fun r => ?_
    cases r with
    | ok _ => exact Triple.done fun _ h => h
    | error e =>
      refine spec_of_eq fun w₁ h₁ => ?_
      obtain ⟨hsame, hwhy⟩ := h₁
      refine (ih (hsame.layout hw) (hsame.staged hs) (by rw [hsame.log]; exact hne)
        (by rw [hsame.log, hsame.length]; exact hfull)).weaken (fun _ h => h) fun r w' h => ?_
      cases r with
      | ok _ =>
        exact ⟨⟨h.promoted, h.log.trans hsame.log, hsame.record.trans h.record⟩, h.absent⟩
      | error e => exact ⟨hsame.trans h.1, h.2⟩

end Finalising

/-! ## Appending -/

section Appending

variable {faults : Prop} {w w' : World} {u : UploadObjects}

/-- The result of an append. -/
def Appended (faults : Prop) (u : UploadObjects) (w : World) (data : Option Bytes)
    (completes : Bool) : Except Error Handle → World → Prop
  | .ok h, w' => ∃ bytes, data = some bytes ∧ w'.log = w.log ++ [bytes] ∧ SameRecord w w' ∧
      h = ⟨some (w.log.length + 2), some (total w.log + bytes.length)⟩ ∧
      (if completes then Promoted w' else Staged w') ∧
      (completes = true → ¬faults → ∀ i, w'.objects.lookup (.part i) = none)
  | .error _, _ => u.Promotes → faults ∨ data = none

theorem appendPart_spec (hw : Layout w) (hs : Staged w) {data : ChunkStream} {completes : Bool}
    (ha : Accepts w data.collect completes) :
    Spec faults (· = w) (appendPart u w.handle (total w.log) data completes) (fun
      | .ok h, w' => ∃ bytes, data.collect = some bytes ∧ Staged w' ∧
          w'.log = w.log ++ [bytes] ∧ SameRecord w w' ∧
          h = ⟨some (w.log.length + 2), some (total w.log + bytes.length)⟩
      | .error _, _ => u.Promotes → faults ∨ data.collect = none) := by
  refine reads_bind (appendPosition_spec hw hs ha.count) (fun position hpos => ?_)
    fun _ hf => Triple.done fun _ _ _ => .inl hf
  subst hpos
  refine Triple.ite (fun hne => absurd rfl hne) fun _ => ?_
  refine Triple.andThen _ (stageAt_spec hw hs ha) (fun n => ?_) fun _ _ h => h.2.2.2
  refine Triple.done ?_
  rintro w' ⟨bytes, hbytes, hs', hlog, hrec, rfl⟩
  refine ⟨bytes, hbytes, hs', hlog, hrec, ?_⟩
  have hsum : satAdd (total w.log) bytes.length = total w.log + bytes.length :=
    satAdd_eq (ha.fits bytes hbytes)
  simp only [nextPosition, hsum]

theorem append_spec (hw : Layout w) (hs : Staged w) {data : ChunkStream} {completes : Bool}
    (ha : Accepts w data.collect completes) :
    Spec faults (· = w) (append u w.handle (total w.log) data completes)
      (Appended faults u w data.collect completes) := by
  refine Triple.andThen _ (appendPart_spec hw hs ha) (fun h => ?_) fun _ _ h => h
  refine Triple.ite (fun hcomp => ?_) fun hcomp => ?_
  · refine spec_of_eq fun w₁ h₁ => ?_
    obtain ⟨bytes, hbytes, hs₁, hlog, hrec, rfl⟩ := h₁
    have htotal : total w₁.log = total w.log + bytes.length := by rw [hlog, total_append]
    have hfull : ∀ l, w₁.length = some l → l = total w₁.log := by
      intro l hl
      rw [hrec.length] at hl
      rw [htotal]
      exact ha.full hcomp bytes l hbytes hl
    have hlayout : Layout w₁ := by
      refine ⟨?_, ?_, ?_, ?_, ?_, .inl hs₁⟩
      · rw [hlog, List.length_append]
        exact ha.count
      · rw [htotal]
        exact ha.fits bytes hbytes
      · exact fun l hl => (hfull l hl).ge
      · rw [hrec.length]
        exact hw.length_fits
      · rw [hrec.length, hrec.created]
        exact hw.known
    refine Triple.andThen _ (finalizeWithRetry_spec finalizeRetries hlayout hs₁ (by simp [hlog])
      hfull) (fun _ => Triple.done fun w' h' => ?_) fun _ _ h' hp => .inl (h'.2 hp)
    refine ⟨bytes, hbytes, h'.log.trans hlog, hrec.trans h'.record, rfl, ?_,
      fun _ hf i => h'.absent hf (.part i) trivial⟩
    rw [if_pos hcomp]
    exact h'.promoted
  · refine Triple.done ?_
    rintro w' ⟨bytes, hbytes, hs', hlog, hrec, hh⟩
    refine ⟨bytes, hbytes, hlog, hrec, hh, ?_, fun hc => absurd hc hcomp⟩
    rw [if_neg hcomp]
    exact hs'

end Appending

/-! ## The completion marker -/

section Marker

theorem ofNat_toUInt8 {c : Char} (h : c.isDigit) : Char.ofNat c.toUInt8.toNat = c := by
  have hb : c.toNat < 58 := (isDigit_bounds h).2
  have hbyte : c.toUInt8.toNat = c.toNat := by
    show c.toNat % 256 = c.toNat
    omega
  rw [hbyte, Char.ofNat_toNat]

theorem markerBytes_text (n : Nat) :
    (markerBytes n).map (fun b => Char.ofNat b.toNat) = Nat.toDigits 10 n := by
  rw [markerBytes, List.map_map]
  refine (List.map_congr_left fun c hc => ?_).trans (List.map_id _)
  exact ofNat_toUInt8 (Nat.isDigit_of_mem_toDigits (by decide) (by decide) hc)

theorem isWhitespace_digit {c : Char} (h : c.isDigit) : c.isWhitespace = false := by
  have hb := isDigit_bounds h
  by_contra hw
  rw [Bool.not_eq_false, Char.isWhitespace] at hw
  simp only [Bool.or_eq_true, decide_eq_true_eq] at hw
  rcases hw with ((rfl | rfl) | rfl) | rfl <;> simp at hb

theorem trim_digits {cs : List Char} (h : ∀ c ∈ cs, c.isDigit) : trim cs = cs := by
  have hdrop : ∀ ds : List Char, (∀ c ∈ ds, c.isDigit) → ds.dropWhile Char.isWhitespace = ds := by
    intro ds hds
    cases ds with
    | nil => rfl
    | cons d ds =>
      rw [List.dropWhile_cons_of_neg]
      rw [isWhitespace_digit (hds d List.mem_cons_self)]
      exact Bool.false_ne_true
  rw [trim, hdrop cs h, hdrop cs.reverse fun c hc => h c (List.mem_reverse.mp hc),
    List.reverse_reverse]

/-- A marker is read back as the part number it was written with. -/
theorem marker_parses {n : Nat} (h : n ≤ u64Max) :
    parseU64Chars (trim ((markerBytes n).map fun b => Char.ofNat b.toNat)) = some n := by
  rw [markerBytes_text, trim_digits, parseU64Chars_toDigits h]
  exact fun c hc => Nat.isDigit_of_mem_toDigits (by decide) (by decide) hc

end Marker

/-! ## Reading a complete upload -/

section Serving

variable {faults : Prop} {w w' : World} {u : UploadObjects}

theorem readCompletionMarker_spec {I : World → Prop} {n : Nat} (hn : n ≤ u64Max)
    (hmark : w.objects.lookup .complete = some (markerBytes n)) :
    SpecIn I faults (· = w) readCompletionMarker (Reads faults w (· = some n)) := by
  refine readObject_spec (fun b hb => ?_) (fun hnone => ?_) fun m hf => reads_error hf
  · obtain rfl := Option.some.inj (hb.symm.trans hmark)
    exact reads_done (marker_parses hn)
  · rw [hmark] at hnone
    cases hnone

/-- The upload has every byte of its persisted length. -/
def Complete (w : World) : Prop := w.log ≠ [] ∧ w.length = some (total w.log)

/-- The staged parts `1, …, n`, in this order, are the upload. -/
theorem Staged.contents_repair (hs : Staged w) :
    contents w ((repairNumbers w.log.length).map Key.part) = w.log.flatten := by
  rw [contents, repairNumbers, List.flatMap_map, List.flatMap_def]
  have hbody : ∀ i, bytesAt w (.part i) = (body w.log i).getD [] := fun i => by
    rw [bytesAt, hs.parts]
  simp only [hbody, map_body]

theorem Staged.found_repair (hs : Staged w) :
    ∀ k ∈ (repairNumbers w.log.length).map Key.part, ∃ b, w.objects.lookup k = some b := by
  intro k hk
  obtain ⟨i, hi, rfl⟩ := List.mem_map.mp hk
  have hrange := List.mem_range'_1.mp hi
  obtain ⟨b, hb⟩ := body_isSome.mpr (show 1 ≤ i ∧ i ≤ w.log.length by omega)
  exact ⟨b, (hs.parts i).trans hb⟩

/-- A listing of a staged upload names every part a repair needs. -/
theorem PartsOf.repairable {ns : List Nat} {parts : List PartObject} (h : PartsOf w ns parts)
    (hs : Staged w) : ∀ n ∈ repairNumbers w.log.length,
      n ∈ parts.filterMap fun part => partNumber part.key := by
  intro n hn
  have hmem : n ∈ ns := by
    rw [h.order hs, (materialOrder_perm _).mem_iff]
    exact hn
  have hkey : Key.part n ∈ parts.map PartObject.key := by
    rw [h.keys]
    exact List.mem_map_of_mem hmem
  obtain ⟨p, hp, hpk⟩ := List.mem_map.mp hkey
  exact List.mem_filterMap.mpr ⟨p, hp, by rw [hpk]; rfl⟩

/-- The result of making sure that a complete upload is materialised. -/
def Ensured (faults : Prop) (u : UploadObjects) (w : World) : Except Error Bool → World → Prop
  | .ok b, w' => b = true ∧ Finalized w w'
  | .error _, _ => u.Promotes → faults

theorem ensureMaterialized_spec (hw : Layout w) (hc : Complete w) (hfew : w.log.length < 10 ^ 10) :
    Spec faults (· = w) (ensureMaterialized u) (Ensured faults u w) := by
  refine stat_spec (fun b hb => ?_) (fun hn => ?_) fun m hf => Triple.done fun _ _ _ => hf
  · refine Triple.done ?_
    rintro _ rfl
    rcases hw.shape with hs | hp
    · rw [hs.main] at hb
      cases hb
    · exact ⟨rfl, hp, rfl, rfl, rfl, rfl⟩
  · have hs : Staged w := by
      rcases hw.shape with hs | hp
      · exact hs
      · rw [hp.main] at hn
        cases hn
    have hfull : ∀ l, w.length = some l → l = total w.log := fun l hl =>
      Option.some.inj (hl.symm.trans hc.2)
    have hprom := hs.put_main hc.1 hfull
    have hcontents : contents w ((repairNumbers w.log.length).map Key.part) = material w.log := by
      rw [hs.contents_repair, material_eq hfew]
    have hlayout : Layout (w.put .main (material w.log)) :=
      hw.of_shape (put_log rfl) (.put _ _) (.inr hprom)
    refine reads_bind (readCompletionMarker_spec hw.count (hs.marker hc.2 hc.1))
      (fun completing hcompleting => ?_) fun e hf => Triple.done fun _ _ _ => hf
    subst hcompleting
    refine stat_spec (fun b _ => ?_) (fun hmissing => ?_) fun m hf => Triple.done fun _ _ _ => hf
    · refine reads_bind listParts_spec (fun parts hlisted => ?_)
        fun e hf => Triple.done fun _ _ _ => hf
      obtain ⟨ns, hparts⟩ := hlisted
      refine Triple.ite (fun hgap => ?_) fun _ => ?_
      · -- no part is missing, so there is no gap
        rcases hgap with hzero | ⟨n, hmem, hnot⟩
        · exact absurd (List.length_eq_zero_iff.mp hzero) hc.1
        · exact absurd (hparts.repairable hs n hmem) hnot
      · refine Triple.bind _ (materialize_spec layout_closed hw "repair" _ hs.found_repair
          (hcontents ▸ hlayout)) fun r => ?_
        cases r with
        | ok _ =>
          refine Triple.done fun w' h => ⟨rfl, ?_⟩
          rw [Materialized, hcontents] at h
          exact ⟨h.promoted hprom, h.log.trans (put_log rfl), (SameRecord.put _ _).trans h.record⟩
        | error e =>
          refine spec_of_eq fun w₁ h₁ => ?_
          refine stat_spec (fun b hb => ?_) (fun _ => Triple.done fun _ _ => h₁.2)
            fun _ hf => Triple.done fun _ _ _ => hf
          rw [h₁.1.main, hs.main] at hb
          cases hb
    · -- the completing part is staged
      rw [hs.parts] at hmissing
      have hnonempty : 1 ≤ w.log.length := List.length_pos_iff.mpr hc.1
      obtain ⟨b, hb⟩ := body_isSome.mpr ⟨hnonempty, Nat.le_refl w.log.length⟩
      rw [hb] at hmissing
      cases hmissing

/-- A complete upload is read as it was staged. -/
theorem stream_spec (hw : Layout w) (hc : Complete w) (hfew : w.log.length < 10 ^ 10) :
    Spec faults (· = w) (stream u) (fun
      | .ok bytes, w' => bytes = w.log.flatten ∧ w'.log = w.log
      | .error _, _ => u.Promotes → faults) := by
  refine Triple.andThen _ (ensureMaterialized_spec hw hc hfew) (fun materialized => ?_)
    fun _ _ h => h
  refine spec_of_eq ?_
  rintro w₁ ⟨rfl, hfin⟩
  refine readObject_spec (fun b hb => ?_) (fun hn => ?_) fun m hf => Triple.done fun _ _ _ => hf
  · refine Triple.done fun w' h => ?_
    rw [hfin.promoted.main, Option.some.injEq] at hb
    subst h
    refine ⟨?_, hfin.log⟩
    rw [← hb, hfin.log]
    exact material_eq hfew
  · rw [hfin.promoted.main] at hn
    cases hn

end Serving

/-! ## The requests of the protocol -/

section Requests

variable {faults : Prop} {w w' : World} {u : UploadObjects} {id : String} {q : ReceiveRequest}
  {length : Option Nat} {completes : Bool} {bytes : Bytes}

/-- The length that decides whether an upload is complete is not lost: it is persisted when
the main object exists. -/
def Resumable (w : World) : Prop := w.objects.lookup .main ≠ none → w.length ≠ none

/-- A body whose upload has no known length fits. -/
def Fits (w : World) (q : ReceiveRequest) : Prop :=
  w.length = none → q.declared = none → total w.log + q.body.size ≤ u64Max

theorem load_spec {I : World → Prop} {α : Type} {k : Handle × Option Nat → Prog StoreSig α}
    {Q : α → World → Prop} (h : SpecIn I faults (· = w) (k (w.handle, w.length)) Q) :
    SpecIn I faults (· = w) (.step .load k) Q := by
  refine read_spec (· = (w.handle, w.length)) ?_ fun r hr => ?_
  · intro a w' he
    cases he
    exact ⟨rfl, rfl⟩
  · subst hr
    exact h

/-- What the checks before an append establish. -/
structure Admitted (w : World) (q : ReceiveRequest) (length : Option Nat)
    (completes : Bool) : Prop where
  fits : total w.log + q.body.size ≤ u64Max
  length_of_known : ∀ l, w.length = some l → length = some l
  within : ∀ l, length = some l → total w.log + q.body.size ≤ l ∧ l ≤ u64Max
  completes_iff : completes = true ↔ length = some (total w.log + q.body.size)

theorem checkReceive_ok (hstaged : total w.log ≤ u64Max)
    (hlength : ∀ l, w.length = some l → l ≤ u64Max) (hfits : Fits w q)
    (h : checkReceive q w.length (total w.log) = .ok (length, completes)) :
    Admitted w q length completes := by
  obtain ⟨resolved, hres, h⟩ := except_bind_ok h
  obtain ⟨hlimit, h⟩ := enforce_bind_ok h
  obtain ⟨p, hp, h⟩ := except_bind_ok h
  cases h
  have hproj := validateBodyForReceive_ok hp
  have hexact : ∀ l, length = some l → p.projectedOffset = total w.log + q.body.size ∧
      total w.log + q.body.size ≤ l ∧ l ≤ u64Max := by
    intro l hl
    have hle : l ≤ u64Max := by
      rcases resolveLength_declared hres hl with hl' | ⟨-, hl', -⟩
      · exact hlength l hl'
      · exact q.declared_fits l hl'
    have h := projection_exact hproj hl hle hstaged hlimit
    exact ⟨h.1, h.2, hle⟩
  have hsum : total w.log + q.body.size ≤ u64Max := by
    cases hlen : length with
    | some l =>
      obtain ⟨-, h₁, h₂⟩ := hexact l hlen
      exact h₁.trans h₂
    | none =>
      refine hfits ?_ ?_
      · by_contra hne
        obtain ⟨l, hl⟩ := Option.ne_none_iff_exists'.mp hne
        rw [resolveLength_known hres hl] at hlen
        cases hlen
      · by_contra hne
        obtain ⟨l, hl⟩ := Option.ne_none_iff_exists'.mp hne
        rw [hl, hlen] at hres
        cases hlen' : w.length with
        | some l' => cases resolveLength_known hres hlen'
        | none =>
          rw [hlen'] at hres
          cases (enforce_bind_ok hres).2
  refine ⟨hsum, fun l hl => resolveLength_known hres hl, fun l hl => (hexact l hl).2, ?_⟩
  rw [hproj.completes_iff, hproj.offset_eq, satAdd_eq hsum]

theorem Admitted.accepts (h : Admitted w q length completes) (hcount : w.log.length < u64Max)
    (hfresh : w.length = some (total w.log) → w.log = []) :
    Accepts w q.body.data.collect completes where
  count := hcount
  fits bytes hb := by
    rw [q.body.exact bytes hb]
    exact h.fits
  bounded bytes l hb hl := by
    rw [q.body.exact bytes hb]
    exact (h.within l (h.length_of_known l hl)).1
  completing bytes hb hl := by
    rw [q.body.exact bytes hb] at hl
    exact h.completes_iff.mpr (h.length_of_known _ hl)
  full hc bytes l hb hl := by
    have hlen := (h.length_of_known l hl).symm.trans (h.completes_iff.mp hc)
    rw [q.body.exact bytes hb]
    exact Option.some.inj hlen
  fresh := hfresh

/-- Saving the handle of an append with the length it worked with keeps the shape. -/
theorem Admitted.shape_saved (h : Admitted w q length completes)
    (hbytes : q.body.data.collect = some bytes) (hlog : w'.log = w.log ++ [bytes])
    (hshape : if completes then Promoted w' else Staged w') :
    if completes then
      Promoted (w'.saved ⟨some (w.log.length + 2), some (total w.log + bytes.length)⟩ length)
    else Staged (w'.saved ⟨some (w.log.length + 2), some (total w.log + bytes.length)⟩ length) := by
  have htotal : total w'.log = total w.log + q.body.size := by
    rw [hlog, total_append, q.body.exact bytes hbytes]
  split at hshape
  · next hc =>
    rw [if_pos hc]
    refine ⟨hshape.main, hshape.parts, hshape.nonempty, fun l hl => ?_⟩
    show l = total w'.log
    rw [htotal]
    exact Option.some.inj (hl.symm.trans (h.completes_iff.mp hc))
  · next hc =>
    rw [if_neg hc]
    refine ⟨hshape.main, hshape.parts, ?_, ?_, ?_, ?_⟩
    · show 1 ≤ w.log.length + 2
      omega
    · show w.log.length + 2 ≤ w'.log.length + 1
      rw [hlog, List.length_append]
      exact Nat.le_refl _
    · intro _ n hn
      show n = total w'.log
      rw [hlog, total_append]
      exact (Option.some.inj hn).symm
    · intro hl _
      -- a body that reaches the length completes the upload
      refine absurd (h.completes_iff.mpr ?_) hc
      rw [← htotal]
      exact hl

theorem Admitted.layout_saved (h : Admitted w q length completes) (hw : Layout w)
    (hcount : w.log.length < u64Max) (hbytes : q.body.data.collect = some bytes) (hlog : w'.log = w.log ++ [bytes])
    (hrec : SameRecord w w') (hshape : if completes then Promoted w' else Staged w') :
    Layout (w'.saved ⟨some (w.log.length + 2), some (total w.log + bytes.length)⟩ length) := by
  have htotal : total w'.log = total w.log + q.body.size := by
    rw [hlog, total_append, q.body.exact bytes hbytes]
  refine ⟨?_, ?_, ?_, ?_, ?_, ?_⟩
  · show w'.log.length ≤ u64Max
    rw [hlog, List.length_append]
    exact hcount
  · show total w'.log ≤ u64Max
    rw [htotal]
    exact h.fits
  · intro l hl
    show total w'.log ≤ l
    rw [htotal]
    exact (h.within l hl).1
  · exact fun l hl => (h.within l hl).2
  · intro l hl
    refine h.length_of_known l (hw.known l ?_)
    rw [← hrec.created]
    exact hl
  · have hsaved := h.shape_saved hbytes hlog hshape
    split at hsaved
    · exact .inr hsaved
    · exact .inl hsaved

/-- The protocol lets the body through to the storage. -/
def Ready (w : World) (q : ReceiveRequest) : Prop :=
  ¬Complete w ∧ ∃ a, checkReceive q w.length (total w.log) = .ok a

/-- The result of a request with a body. -/
def Received (faults : Prop) (u : UploadObjects) (w : World) (q : ReceiveRequest) :
    Except Error Unit → World → Prop
  | .ok _, w' => ∃ bytes completes, q.body.data.collect = some bytes ∧
      checkReceive q w.length (total w.log) = .ok (w'.length, completes) ∧
      w'.log = w.log ++ [bytes] ∧
      w'.handle = ⟨some (w.log.length + 2), some (total w.log + bytes.length)⟩ ∧
      if completes then Promoted w' else Staged w'
  | .error _, _ => u.Promotes → Ready w q → faults ∨ q.body.data.collect = none

/-- The result of saving a record: it is saved, unless there was a fault. -/
def Saved (faults : Prop) (saved : World) : Except Error Unit → World → Prop
  | .ok _, w' => w' = saved
  | .error _, _ => faults

theorem receive_spec (hw : Layout w) (hr : Resumable w) (hcount : w.log.length < u64Max)
    (hfits : Fits w q) :
    Spec faults (· = w) (receive u id q) (Received faults u w q) := by
  refine load_spec (reads_bind (storedSize_spec hw) (fun stored hstored => ?_)
    fun _ hf => Triple.done fun _ _ _ _ => .inl hf)
  subst hstored
  refine Triple.ite (fun hdone => Triple.done fun _ _ _ hready => ?_) fun hopen => ?_
  · refine absurd ?_ hready.1
    unfold reported at hdone
    split at hdone
    · exact absurd hdone.1 Bool.false_ne_true
    · next hne => exact ⟨hne, hdone.2.symm⟩
  rw [reported_getD]
  have hfresh : w.length = some (total w.log) → w.log = [] := by
    intro hl
    by_contra hne
    refine hopen ?_
    simp [reported, hne, hl]
  have hs : Staged w := by
    rcases hw.shape with hs | hp
    · exact hs
    · -- a materialised upload has its length, and was refused
      obtain ⟨l, hl⟩ := Option.ne_none_iff_exists'.mp (hr (by rw [hp.main]; simp))
      exact absurd (hfresh (hl.trans (congrArg some (hp.full l hl)))) hp.nonempty
  cases hcheck : checkReceive q w.length (total w.log) with
  | error e =>
    refine Triple.done fun _ _ _ hready => ?_
    obtain ⟨a, ha⟩ := hready.2
    rw [hcheck] at ha
    cases ha
  | ok admitted =>
    obtain ⟨length, completes⟩ := admitted
    have had := checkReceive_ok hw.fits hw.length_fits hfits hcheck
    refine Triple.bind _ (append_spec hw hs (had.accepts hcount hfresh)) fun r => ?_
    cases r with
    | error e => exact Triple.done fun _ h hp _ => h hp
    | ok h =>
      refine spec_of_eq ?_
      rintro w₁ ⟨bytes, hbytes, hlog, hrec, rfl, hshape, -⟩
      refine op_spec (Saved faults
        (w₁.saved ⟨some (w.log.length + 2), some (total w.log + bytes.length)⟩ length))
        ?_ fun r => ?_
      · intro a w' hi he
        cases he with
        | save => exact ⟨had.layout_saved hw hcount hbytes hlog hrec hshape, rfl⟩
        | saveFailed hf => exact ⟨hi, hf⟩
      · cases r with
        | error e => exact Triple.done fun _ hf _ _ => .inl hf
        | ok _ =>
          refine Triple.done ?_
          rintro _ rfl
          exact ⟨bytes, completes, hbytes, hcheck, hlog, rfl,
            had.shape_saved hbytes hlog hshape⟩

theorem download_spec (hw : Layout w) (hfew : w.log.length < 10 ^ 10) :
    Spec faults (· = w) (download u id) (fun
      | .ok bytes, _ => bytes = w.log.flatten
      | .error _, _ => True) := by
  refine load_spec (reads_bind (storedSize_spec hw) (fun stored hstored => ?_)
    fun _ _ => Triple.done fun _ _ => trivial)
  subst hstored
  dsimp only
  rw [reported_getD]
  refine Triple.ite (fun _ => Triple.done fun _ _ => trivial) fun hlen => ?_
  refine Triple.ite (fun hzero => Triple.done fun _ _ => ?_) fun hne => ?_
  · exact (List.length_eq_zero_iff.mp hzero).symm
  · have hc : Complete w := by
      refine ⟨fun hnil => hne ?_, not_not.mp hlen⟩
      rw [hnil]
      rfl
    refine (stream_spec hw hc hfew).weaken (fun _ h => h) fun r w' h => ?_
    cases r with
    | ok bytes => exact h.1
    | error e => trivial

end Requests

end Opendal

end TusRs
