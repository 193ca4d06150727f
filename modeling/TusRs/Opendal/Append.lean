import TusRs.Opendal.Layout

/-!
# Staging a body

Every object operation that writes an object, promotes a temporary one or stages a body
leaves one of the two shapes of a layout.

Results:

* `writePart_spec`: an object is written in full or not at all, whatever the chunks.
* `promoteObject_spec`: a temporary object is moved to its place, or nothing changes.
* `stageAt_spec`: a body is staged in full as the next part or not at all.
-/

namespace TusRs

open Interaction Protocol

namespace Opendal

/-! ## Lookups -/

section Lookups

variable {w : World} {k k' : Key} {b : Bytes}

@[simp] theorem lookup_put_self : (w.put k b).objects.lookup k = some b := by
  simp [World.put]

theorem lookup_put_ne (h : k' ≠ k) : (w.put k b).objects.lookup k' = w.objects.lookup k' := by
  simp [World.put, AList.lookup_insert_ne h]

@[simp] theorem lookup_erase_self : (w.erase k).objects.lookup k = none := by
  simp [World.erase]

theorem lookup_erase_ne (h : k' ≠ k) :
    (w.erase k).objects.lookup k' = w.objects.lookup k' := by
  simp [World.erase, AList.lookup_erase_ne h]

@[simp] theorem put_handle : (w.put k b).handle = w.handle := rfl

@[simp] theorem put_length : (w.put k b).length = w.length := rfl

@[simp] theorem put_part_log {i : Nat} : (w.put (.part i) b).log = w.log ++ [b] := rfl

theorem put_log (h : partNumber k = none) : (w.put k b).log = w.log := by
  simp [World.put, h]

end Lookups

/-- The worlds differ in temporary objects only. -/
structure Same (w w' : World) : Prop where
  log : w'.log = w.log
  handle : w'.handle = w.handle
  length : w'.length = w.length
  created : w'.created = w.created
  lookup : ∀ k, (∀ purpose uuid, k ≠ .temp purpose uuid) →
    w'.objects.lookup k = w.objects.lookup k

namespace Same

variable {w w' w'' : World}

theorem refl (w : World) : Same w w := ⟨rfl, rfl, rfl, rfl, fun _ _ => rfl⟩

theorem trans (h : Same w w') (h' : Same w' w'') : Same w w'' :=
  ⟨h'.log.trans h.log, h'.handle.trans h.handle, h'.length.trans h.length,
    h'.created.trans h.created, fun k hk => (h'.lookup k hk).trans (h.lookup k hk)⟩

theorem main (h : Same w w') : w'.objects.lookup .main = w.objects.lookup .main :=
  h.lookup _ nofun

theorem complete (h : Same w w') : w'.objects.lookup .complete = w.objects.lookup .complete :=
  h.lookup _ nofun

theorem part (h : Same w w') (i : Nat) :
    w'.objects.lookup (.part i) = w.objects.lookup (.part i) :=
  h.lookup _ nofun

theorem put_temp (w : World) (purpose : String) (uuid : Nat) (b : Bytes) :
    Same w (w.put (.temp purpose uuid) b) :=
  ⟨put_log rfl, rfl, rfl, rfl, fun _ hk => lookup_put_ne (hk purpose uuid)⟩

theorem erase_temp (w : World) (purpose : String) (uuid : Nat) :
    Same w (w.erase (.temp purpose uuid)) :=
  ⟨rfl, rfl, rfl, rfl, fun _ hk => lookup_erase_ne (hk purpose uuid)⟩

/-- Erasing an object that is not there changes nothing. -/
theorem erase_absent {k : Key} (h : w.objects.lookup k = none) : Same w (w.erase k) := by
  refine ⟨rfl, rfl, rfl, rfl, fun k' _ => ?_⟩
  by_cases hk : k' = k
  · rw [hk, lookup_erase_self, h]
  · exact lookup_erase_ne hk

theorem erase (h : Same w w') (k : Key) : Same (w.erase k) (w'.erase k) := by
  refine ⟨h.log, h.handle, h.length, h.created, fun k' hk' => ?_⟩
  by_cases hk : k' = k
  · rw [hk, lookup_erase_self, lookup_erase_self]
  · rw [lookup_erase_ne hk, lookup_erase_ne hk, h.lookup k' hk']

theorem put (h : Same w w') (k : Key) (b : Bytes) : Same (w.put k b) (w'.put k b) := by
  refine ⟨?_, h.handle, h.length, h.created, fun k' hk' => ?_⟩
  · simp only [World.put, h.log]
  · by_cases hk : k' = k
    · rw [hk, lookup_put_self, lookup_put_self]
    · rw [lookup_put_ne hk, lookup_put_ne hk, h.lookup k' hk']

theorem staged (h : Same w w') (hs : Staged w) : Staged w' where
  main := h.main.trans hs.main
  parts i := by rw [h.part, hs.parts, h.log]
  cursor_pos := by rw [h.handle]; exact hs.cursor_pos
  cursor_le := by rw [h.handle, h.log]; exact hs.cursor_le
  counted := by rw [h.handle, h.log]; exact hs.counted
  marker := by rw [h.length, h.log, h.complete]; exact hs.marker

theorem promoted (h : Same w w') (hp : Promoted w) : Promoted w' where
  main := by rw [h.main, h.log]; exact hp.main
  parts i b := by rw [h.part, h.log]; exact hp.parts i b
  nonempty := by rw [h.log]; exact hp.nonempty
  full := by rw [h.length, h.log]; exact hp.full

theorem layout (h : Same w w') (hw : Layout w) : Layout w' where
  count := by rw [h.log]; exact hw.count
  fits := by rw [h.log]; exact hw.fits
  bounded := by rw [h.length, h.log]; exact hw.bounded
  length_fits := by rw [h.length]; exact hw.length_fits
  known := by rw [h.length, h.created]; exact hw.known
  shape := hw.shape.imp h.staged h.promoted

end Same

/-! ## Writing objects -/

section Writing

variable {faults : Prop} {I : World → Prop} {α : Type} {w : World} {u : UploadObjects}

theorem spec_of_eq {P : World → Prop} {p : Prog StoreSig α} {Q : α → World → Prop}
    (h : ∀ w, P w → SpecIn I faults (· = w) p Q) : SpecIn I faults P p Q :=
  fun s hs => h s.world hs s rfl

/-- A delete whose outcome is ignored. -/
theorem deleteIgnored_spec {key : Key} {p : Prog StoreSig α} {Q : α → World → Prop}
    (herase : I (w.erase key))
    (hp : ∀ w', (w' = w ∨ w' = w.erase key) → SpecIn I faults (· = w') p Q) :
    SpecIn I faults (· = w) (.step (.delete key) fun _ => p) Q := by
  refine op_spec (fun _ w' => w' = w ∨ w' = w.erase key) ?_ fun _ => spec_of_eq hp
  intro a w' hi he
  cases he with
  | delete => exact ⟨herase, .inr rfl⟩
  | deleteMissing _ => exact ⟨hi, .inl rfl⟩
  | deleteFailed _ => exact ⟨hi, .inl rfl⟩

/-- A failed write leaves the object as it was, or removes it. -/
theorem discardPartialPart_spec {key : Key} {p : Prog StoreSig α} {Q : α → World → Prop}
    (herase : I (w.erase key))
    (hp : ∀ w', (w' = w ∨ w' = w.erase key) → SpecIn I faults (· = w') p Q) :
    SpecIn I faults (· = w) (Prog.bind (discardPartialPart key) fun _ => p) Q := by
  refine read_spec (fun _ => True) ?_ fun r _ => ?_
  · rintro a w' ⟨⟩
    exact ⟨rfl, trivial⟩
  · cases r with
    | ok _ => exact hp w (.inl rfl)
    | error _ => exact deleteIgnored_spec herase hp

/-- The result of writing `data` to `key`: all of it or nothing. -/
def Written (faults : Prop) (w : World) (key : Key) (data : Option Bytes) :
    Except Error Nat → World → Prop
  | .ok n, w' => ∃ bytes, data = some bytes ∧ w' = w.put key bytes ∧ (bytes.length ≤ u64Max → n = bytes.length)
  | .error _, w' => (w' = w ∨ w' = w.erase key) ∧ (faults ∨ data = none)

theorem written_failed {key : Key} {data : Option Bytes} {e : Error}
    (herase : I (w.erase key)) (h : faults ∨ data = none) :
    SpecIn I faults (· = w) (Prog.bind (discardPartialPart key) fun _ => .done (.error e))
      (Written faults w key data) := by
  refine discardPartialPart_spec herase fun w' hw' => Triple.done ?_
  rintro _ rfl
  exact ⟨hw', h⟩

theorem writeStream_spec {key : Key} (buffer : Bytes) (chunks : List (Except IoError Bytes))
    (hput : ∀ rest, chunks.mapM Except.toOption = some rest →
      I (w.put key (buffer ++ rest.flatten)))
    (herase : I (w.erase key)) :
    SpecIn I faults (· = w) (writeStream key buffer (min buffer.length u64Max) chunks)
      (Written faults w key ((chunks.mapM Except.toOption).map fun rest =>
        buffer ++ rest.flatten)) := by
  induction chunks generalizing buffer with
  | nil =>
    refine op_spec (fun
      | .ok _, w' => w' = w.put key buffer
      | .error _, w' => w' = w ∧ faults) ?_ fun r => ?_
    · intro a w' hi he
      cases he with
      | writerClose => exact ⟨by simpa using hput [] rfl, rfl⟩
      | writerCloseFailed hf => exact ⟨hi, rfl, hf⟩
    · cases r with
      | ok _ => exact Triple.done fun w' h => ⟨buffer, by simp, h, Nat.min_eq_left⟩
      | error e =>
        refine spec_of_eq ?_
        rintro _ ⟨rfl, hf⟩
        exact written_failed herase (.inl hf)
  | cons chunk chunks ih =>
    cases chunk with
    | error e => exact written_failed herase (.inr (by simp [Except.toOption]))
    | ok chunk =>
      have hmap : ((Except.ok chunk :: chunks).mapM Except.toOption).map
            (fun rest : List Bytes => buffer ++ rest.flatten) =
          (chunks.mapM (Except.toOption (ε := IoError))).map
            fun rest => buffer ++ chunk ++ rest.flatten := by
        cases h : chunks.mapM (Except.toOption (ε := IoError)) <;>
          simp [Except.toOption, h]
      refine read_spec (fun a => ∀ e, a = .error e → faults) ?_ fun r hr => ?_
      · intro a w' he
        cases he with
        | writerWrite => exact ⟨rfl, by simp⟩
        | writerWriteFailed hf => exact ⟨rfl, fun _ _ => hf⟩
      · cases r with
        | error e => exact written_failed herase (.inl (hr e rfl))
        | ok _ =>
          rw [hmap, satAdd_min, ← List.length_append]
          refine ih (buffer ++ chunk) fun rest hrest => ?_
          have := hput (chunk :: rest) (by simp [Except.toOption, hrest])
          simpa using this

theorem writePart_spec {key : Key} {data : ChunkStream}
    (hput : ∀ bytes, data.collect = some bytes → I (w.put key bytes))
    (herase : I (w.erase key)) :
    SpecIn I faults (· = w) (writePart key data) (Written faults w key data.collect) := by
  cases data with
  | buffered bytes =>
    refine op_spec (fun
      | .ok _, w' => w' = w.put key bytes
      | .error _, w' => w' = w ∧ faults) ?_ fun r => ?_
    · intro a w' hi he
      cases he with
      | write => exact ⟨hput bytes rfl, rfl⟩
      | writeFailed hf => exact ⟨hi, rfl, hf⟩
    · cases r with
      | ok _ => exact Triple.done fun w' h => ⟨bytes, rfl, h, fun _ => rfl⟩
      | error e => exact Triple.done fun w' h => ⟨.inl h.1, .inl h.2⟩
  | stream chunks =>
    refine read_spec (fun a => ∀ e, a = .error e → faults) ?_ fun r hr => ?_
    · intro a w' he
      cases he with
      | writer => exact ⟨rfl, nofun⟩
      | writerFailed hf => exact ⟨rfl, fun _ _ => hf⟩
    · cases r with
      | error e => exact Triple.done fun w' h => ⟨.inl h, .inl (hr e rfl)⟩
      | ok _ =>
        have h : SpecIn I faults (· = w) (writeStream key [] 0 chunks) (Written faults w key
            ((chunks.mapM Except.toOption).map fun rest => [] ++ rest.flatten)) :=
          writeStream_spec [] chunks
            (fun rest hrest => hput _ (by simp [ChunkStream.collect, hrest])) herase
        simpa [ChunkStream.collect] using h

/-- An invariant that says nothing about temporary objects. -/
def Closed (I : World → Prop) : Prop := ∀ ⦃w w' : World⦄, Same w w' → I w → I w'

theorem layout_closed : Closed Layout := fun _ _ h => h.layout

/-- The service can promote objects. -/
def UploadObjects.Promotes (u : UploadObjects) : Prop := u.rename = true ∨ u.copy = true

/-- The result of promoting a temporary object with content `b` to `target`. -/
def Moved (faults : Prop) (u : UploadObjects) (w : World) (target : Key) (b : Bytes) :
    Except Error Unit → World → Prop
  | .ok _, w' => Same (w.put target b) w'
  | .error _, w' => w' = w ∧ (u.Promotes → faults)

theorem promoteObject_spec (hI : Closed I) {purpose : String} {uuid : Nat} {target : Key}
    {b : Bytes} (hb : w.objects.lookup (.temp purpose uuid) = some b)
    (hput : I (w.put target b)) :
    SpecIn I faults (· = w) (promoteObject u (.temp purpose uuid) target) (Moved faults u w target b) := by
  have hrenamed : Same (w.put target b) ((w.erase (.temp purpose uuid)).put target b) :=
    (Same.erase_temp w purpose uuid).put target b
  refine Triple.ite (fun _ => ?_) fun hr => Triple.ite (fun _ => ?_) fun hc => ?_
  · refine op_spec (fun
      | .ok _, w' => Same (w.put target b) w'
      | .error _, w' => w' = w ∧ faults) ?_ fun r => ?_
    · intro a w' hi he
      cases he with
      | rename hb' =>
        obtain rfl := Option.some.inj (hb'.symm.trans hb)
        exact ⟨hI hrenamed hput, hrenamed⟩
      | renameMissing hn =>
        rw [hb] at hn
        cases hn
      | renameFailed hf => exact ⟨hi, rfl, hf⟩
    · cases r with
      | ok _ => exact Triple.done fun w' h => h
      | error e => exact Triple.done fun w' h => ⟨h.1, fun _ => h.2⟩
  · refine op_spec (fun
      | .ok _, w' => w' = w.put target b
      | .error _, w' => w' = w ∧ faults) ?_ fun r => ?_
    · intro a w' hi he
      cases he with
      | copy hb' =>
        obtain rfl := Option.some.inj (hb'.symm.trans hb)
        exact ⟨hput, rfl⟩
      | copyMissing hn =>
        rw [hb] at hn
        cases hn
      | copyFailed hf => exact ⟨hi, rfl, hf⟩
    · cases r with
      | error e => exact Triple.done fun w' h => ⟨h.1, fun _ => h.2⟩
      | ok _ =>
        have herase := Same.erase_temp (w.put target b) purpose uuid
        refine deleteIgnored_spec (hI herase hput) fun w' hw' => Triple.done ?_
        rintro _ rfl
        rcases hw' with rfl | rfl
        · exact Same.refl _
        · exact herase
  · refine Triple.done fun w' h => ⟨h, fun hp => ?_⟩
    exact absurd hp (not_or.mpr ⟨hr, hc⟩)

/-- A fresh name for a temporary object. -/
theorem tempKey_spec {purpose : String} {f : Key → StoreM α} {Q : Except Error α → World → Prop}
    (h : ∀ uuid, SpecIn I faults (· = w) (f (.temp purpose uuid)) Q) :
    SpecIn I faults (· = w) (tempKey purpose >>= f : StoreM α) Q := by
  refine read_spec (fun _ => True) ?_ fun uuid _ => h uuid
  rintro a w' ⟨⟩
  exact ⟨rfl, trivial⟩

/-- The result of staging `data` as the part at `key`: in full or not at all. -/
def StagedAt (faults : Prop) (u : UploadObjects) (w : World) (key : Key) (data : Option Bytes) :
    Except Error Nat → World → Prop
  | .ok n, w' => ∃ bytes, data = some bytes ∧ Same (w.put key bytes) w' ∧
      (bytes.length ≤ u64Max → n = bytes.length)
  | .error _, w' => Same w w' ∧ (u.Promotes → faults ∨ data = none)

theorem stageFinalPart_spec (hI : Closed I) (hw : I w) {number : Nat} {data : ChunkStream}
    (hput : ∀ bytes, data.collect = some bytes → I (w.put (.part number) bytes)) :
    SpecIn I faults (· = w) (stageFinalPart u (.part number) data)
      (StagedAt faults u w (.part number) data.collect) := by
  refine tempKey_spec fun uuid => ?_
  have hsame := Same.put_temp w "part" uuid
  have herase := Same.erase_temp w "part" uuid
  refine Triple.bind _ (writePart_spec (fun bytes _ => hI (hsame bytes) hw)
    (hI herase hw)) fun r => ?_
  cases r with
  | error e =>
    refine spec_of_eq fun w₁ h => ?_
    have hw₁ : Same w w₁ := by
      rcases h.1 with rfl | rfl
      · exact Same.refl _
      · exact herase
    have herase₁ := Same.erase_temp w₁ "part" uuid
    refine deleteIgnored_spec (hI (hw₁.trans herase₁) hw) fun w' hw' => Triple.done ?_
    rintro _ rfl
    refine ⟨?_, fun _ => h.2⟩
    rcases hw' with rfl | rfl
    · exact hw₁
    · exact hw₁.trans herase₁
  | ok n =>
    refine spec_of_eq ?_
    rintro _ ⟨bytes, hbytes, rfl, hn⟩
    have hmoved := (hsame bytes).put (.part number) bytes
    refine Triple.bind _ (promoteObject_spec hI lookup_put_self
      (hI hmoved (hput bytes hbytes))) fun r => ?_
    cases r with
    | ok _ => exact Triple.done fun w' h => ⟨bytes, hbytes, hmoved.trans h, hn⟩
    | error e =>
      refine Triple.done fun w' h => ⟨?_, fun hp => .inl (h.2 hp)⟩
      rw [h.1]
      exact hsame bytes

/-- Where a body is staged: one that completes the upload has its marker first. -/
def marked (w : World) (number : Nat) (completes : Bool) : World :=
  if completes then w.put .complete (markerBytes number) else w

/-- The result of staging `data` as part `number`: in full or not at all, and a marker may
outlive a body that failed. -/
def BodyAt (faults : Prop) (u : UploadObjects) (w : World) (number : Nat) (completes : Bool)
    (data : Option Bytes) : Except Error Nat → World → Prop
  | .ok n, w' => ∃ bytes, data = some bytes ∧
      Same ((marked w number completes).put (.part number) bytes) w' ∧
      (bytes.length ≤ u64Max → n = bytes.length)
  | .error _, w' => (Same w w' ∨ completes = true ∧
      (Same (marked w number completes) w' ∨ Same ((marked w number completes).erase .complete) w')) ∧
      (u.Promotes → faults ∨ data = none)

theorem stageAt_writes (hI : Closed I) (hw : I w) {position : AppendPosition}
    {data : ChunkStream} {completes : Bool}
    (habsent : w.objects.lookup (.part position.partNumber) = none)
    (hmark : completes = true → I (marked w position.partNumber completes) ∧
      I ((marked w position.partNumber completes).erase .complete))
    (hput : ∀ bytes, data.collect = some bytes →
      I ((marked w position.partNumber completes).put (.part position.partNumber) bytes)) :
    SpecIn I faults (· = w) (stageAt u position data completes)
      (BodyAt faults u w position.partNumber completes data.collect) := by
  cases completes with
  | true =>
    -- the marker first, then the part; the marker of a body that fails is removed
    obtain ⟨hmarked, hunmarked⟩ := hmark rfl
    refine Triple.bind (fun
      | .ok _, w' => w' = marked w position.partNumber true
      | .error _, w' => w' = w ∧ faults) ?_ fun r => ?_
    · refine op_spec (fun
        | .ok _, w' => w' = marked w position.partNumber true
        | .error _, w' => w' = w ∧ faults) ?_ fun r => ?_
      · intro a w' hi he
        cases he with
        | write => exact ⟨hmarked, rfl⟩
        | writeFailed hf => exact ⟨hi, rfl, hf⟩
      · cases r <;> exact Triple.done fun w' h => h
    · cases r with
      | error e => exact Triple.done fun w' h => ⟨.inl (h.1 ▸ Same.refl w), fun _ => .inl h.2⟩
      | ok _ =>
        refine Triple.bind _ (Triple.weaken (stageFinalPart_spec hI hmarked hput)
          (fun _ h => h) fun _ _ h => h) fun r => ?_
        cases r with
        | ok n => exact Triple.done fun w' h => h
        | error e =>
          refine spec_of_eq fun w₁ h => ?_
          obtain ⟨hsame, hwhy⟩ := h
          refine deleteIgnored_spec (hI (hsame.erase .complete) hunmarked)
            fun w' hw' => Triple.done ?_
          rintro _ rfl
          rcases hw' with rfl | rfl
          · exact ⟨.inr ⟨rfl, .inl hsame⟩, hwhy⟩
          · exact ⟨.inr ⟨rfl, .inr (hsame.erase .complete)⟩, hwhy⟩
  | false =>
    have herase := Same.erase_absent habsent
    refine (writePart_spec hput (hI herase hw)).weaken (fun _ h => h) fun r w' h => ?_
    cases r with
    | ok n =>
      obtain ⟨bytes, hbytes, rfl, hn⟩ := h
      exact ⟨bytes, hbytes, Same.refl _, hn⟩
    | error e =>
      obtain ⟨hw', hwhy⟩ := h
      refine ⟨.inl ?_, fun _ => hwhy⟩
      rcases hw' with rfl | rfl
      · exact Same.refl _
      · exact herase

end Writing

/-! ## Staging a body -/

section Staging

variable {faults : Prop} {α : Type} {w w' : World} {u : UploadObjects}

/-- What the protocol ensures about a body before it is appended: it fits, a body that
reaches a known length completes the upload and the other way round, and nothing is
appended to a complete upload. -/
structure Accepts (w : World) (data : Option Bytes) (completes : Bool) : Prop where
  count : w.log.length < u64Max
  fits : ∀ bytes, data = some bytes → total w.log + bytes.length ≤ u64Max
  bounded : ∀ bytes l, data = some bytes → w.length = some l → total w.log + bytes.length ≤ l
  completing : ∀ bytes, data = some bytes → w.length = some (total w.log + bytes.length) →
    completes = true
  full : completes = true → ∀ bytes l, data = some bytes → w.length = some l →
    l = total w.log + bytes.length
  fresh : w.length = some (total w.log) → w.log = []

/-- The persisted record is the same. -/
structure SameRecord (w w' : World) : Prop where
  handle : w'.handle = w.handle
  length : w'.length = w.length
  created : w'.created = w.created

theorem SameRecord.put (k : Key) (b : Bytes) : SameRecord w (w.put k b) := ⟨rfl, rfl, rfl⟩

theorem SameRecord.erase (k : Key) : SameRecord w (w.erase k) := ⟨rfl, rfl, rfl⟩

theorem Same.record (h : Same w w') : SameRecord w w' := ⟨h.handle, h.length, h.created⟩

theorem SameRecord.trans {w'' : World} (h : SameRecord w w') (h' : SameRecord w' w'') :
    SameRecord w w'' :=
  ⟨h'.handle.trans h.handle, h'.length.trans h.length, h'.created.trans h.created⟩

theorem Layout.of_shape (hw : Layout w) (hlog : w'.log = w.log) (hrec : SameRecord w w')
    (hs : Staged w' ∨ Promoted w') : Layout w' where
  count := by rw [hlog]; exact hw.count
  fits := by rw [hlog]; exact hw.fits
  bounded := by rw [hlog, hrec.length]; exact hw.bounded
  length_fits := by rw [hrec.length]; exact hw.length_fits
  known := by rw [hrec.length, hrec.created]; exact hw.known
  shape := hs

theorem marked_log (number : Nat) (completes : Bool) : (marked w number completes).log = w.log := by
  unfold marked
  split
  · exact put_log rfl
  · rfl

theorem marked_record (number : Nat) (completes : Bool) : SameRecord w (marked w number completes) := by
  unfold marked
  split
  · exact .put _ _
  · exact ⟨rfl, rfl, rfl⟩

/-- The next part extends a staged upload. -/
theorem Staged.put_next (hs : Staged w) {b : Bytes}
    (hmark : w.length = some (total w.log + b.length) →
      w.objects.lookup .complete = some (markerBytes (w.log.length + 1))) :
    Staged (w.put (.part (w.log.length + 1)) b) where
  main := by rw [lookup_put_ne (by simp)]; exact hs.main
  parts i := by
    rw [put_part_log, body_append]
    split
    · next h => rw [h, lookup_put_self]
    · next h => rw [lookup_put_ne (by simpa using h), hs.parts]
  cursor_pos := hs.cursor_pos
  cursor_le := by
    rw [put_part_log, List.length_append]
    exact hs.cursor_le.trans (Nat.le_add_right _ _)
  counted := by
    intro h
    rw [put_part_log, List.length_append, List.length_singleton, put_handle] at h
    have := hs.cursor_le
    omega
  marker := by
    intro hlen _
    rw [put_part_log, put_length, total_append] at hlen
    rw [lookup_put_ne (by simp), put_part_log, List.length_append, List.length_singleton]
    exact hmark hlen

theorem Accepts.layout_next {data : Option Bytes} {completes : Bool} {b : Bytes}
    (ha : Accepts w data completes) (hw : Layout w) (hs : Staged w) (hb : data = some b)
    (hmark : w.length = some (total w.log + b.length) →
      w.objects.lookup .complete = some (markerBytes (w.log.length + 1))) :
    Layout (w.put (.part (w.log.length + 1)) b) where
  count := by
    rw [put_part_log, List.length_append]
    exact ha.count
  fits := by
    rw [put_part_log, total_append]
    exact ha.fits b hb
  bounded := by
    intro l hl
    rw [put_part_log, total_append]
    exact ha.bounded b l hb hl
  length_fits := hw.length_fits
  known := hw.known
  shape := .inl (hs.put_next hmark)

/-- The marker of a body that is still to be staged. -/
theorem Staged.put_marker (hs : Staged w) (hfresh : w.length = some (total w.log) → w.log = [])
    (b : Bytes) : Staged (w.put .complete b) where
  main := by rw [lookup_put_ne (by simp)]; exact hs.main
  parts i := by rw [lookup_put_ne (by simp), put_log rfl]; exact hs.parts i
  cursor_pos := hs.cursor_pos
  cursor_le := by rw [put_log rfl]; exact hs.cursor_le
  counted := by rw [put_log rfl]; exact hs.counted
  marker := by
    rw [put_log rfl, put_length]
    exact fun hlen hne => absurd (hfresh hlen) hne

theorem Staged.erase_marker (hs : Staged w)
    (hfresh : w.length = some (total w.log) → w.log = []) : Staged (w.erase .complete) where
  main := by rw [lookup_erase_ne (by simp)]; exact hs.main
  parts i := by rw [lookup_erase_ne (by simp)]; exact hs.parts i
  cursor_pos := hs.cursor_pos
  cursor_le := hs.cursor_le
  counted := hs.counted
  marker := fun hlen hne => absurd (hfresh hlen) hne

/-- The result of staging a body: the next part, or nothing. -/
def BodyStaged (faults : Prop) (u : UploadObjects) (w : World) (data : Option Bytes) :
    Except Error Nat → World → Prop
  | .ok n, w' => ∃ bytes, data = some bytes ∧ Staged w' ∧ w'.log = w.log ++ [bytes] ∧
      SameRecord w w' ∧ n = bytes.length
  | .error _, w' => Staged w' ∧ w'.log = w.log ∧ SameRecord w w' ∧
      (u.Promotes → faults ∨ data = none)

theorem stageAt_spec (hw : Layout w) (hs : Staged w) {data : ChunkStream} {completes : Bool}
    (ha : Accepts w data.collect completes) :
    Spec faults (· = w) (stageAt u (nextPosition w.log) data completes)
      (BodyStaged faults u w data.collect) := by
  have habsent : w.objects.lookup (.part (w.log.length + 1)) = none := by
    rw [hs.parts]
    exact body_eq_none (.inr (Nat.lt_succ_self _))
  set wm := marked w (w.log.length + 1) completes with hwm
  have hlog : wm.log = w.log := marked_log _ _
  have hrec : SameRecord w wm := marked_record _ _
  have hsm : Staged wm := by
    rw [hwm, marked]
    split
    · exact hs.put_marker ha.fresh _
    · exact hs
  have hwm' : Layout wm := hw.of_shape hlog hrec (.inl hsm)
  have hfresh : wm.length = some (total wm.log) → wm.log = [] := by
    rw [hrec.length, hlog]
    exact ha.fresh
  have hnext : ∀ bytes, data.collect = some bytes →
      Staged (wm.put (.part (w.log.length + 1)) bytes) ∧
      Layout (wm.put (.part (w.log.length + 1)) bytes) := by
    intro bytes hbytes
    -- a body that reaches the length completes the upload, and its marker is there
    have hmark : wm.length = some (total wm.log + bytes.length) →
        wm.objects.lookup .complete = some (markerBytes (wm.log.length + 1)) := by
      rw [hrec.length, hlog]
      intro hlen
      rw [hwm, marked, if_pos (ha.completing bytes hbytes hlen), lookup_put_self]
    have ha' : Accepts wm data.collect completes := by
      refine ⟨?_, ?_, ?_, ?_, ?_, ?_⟩ <;> rw [hlog]
      · exact ha.count
      · exact ha.fits
      all_goals rw [hrec.length]
      · exact ha.bounded
      · exact ha.completing
      · exact ha.full
      · exact ha.fresh
    rw [← hlog]
    exact ⟨hsm.put_next hmark, ha'.layout_next hwm' hsm hbytes hmark⟩
  have hunmarked : Staged (wm.erase .complete) := hsm.erase_marker hfresh
  have hwe : Layout (wm.erase .complete) :=
    hw.of_shape hlog (hrec.trans (.erase _)) (.inl hunmarked)
  refine (stageAt_writes layout_closed hw habsent (fun _ => ⟨hwm', hwe⟩)
    fun bytes hb => (hnext bytes hb).2).weaken (fun _ h => h) fun r w' h => ?_
  cases r with
  | ok n =>
    obtain ⟨bytes, hbytes, hsame, hn⟩ := h
    refine ⟨bytes, hbytes, hsame.staged (hnext bytes hbytes).1, ?_,
      (hrec.trans (.put _ _)).trans hsame.record, hn ?_⟩
    · rw [hsame.log]
      exact congrArg (· ++ [bytes]) hlog
    · exact (Nat.le_add_left _ _).trans (ha.fits _ hbytes)
  | error e =>
    obtain ⟨hleft, hwhy⟩ := h
    rcases hleft with hsame | ⟨-, hsame | hsame⟩
    · exact ⟨hsame.staged hs, hsame.log, hsame.record, hwhy⟩
    · exact ⟨hsame.staged hsm, hsame.log.trans hlog, hrec.trans hsame.record, hwhy⟩
    · exact ⟨hsame.staged hunmarked, hsame.log.trans hlog,
        (hrec.trans (.erase _)).trans hsame.record, hwhy⟩

end Staging

end Opendal

end TusRs
