import Mathlib.Data.List.ReduceOption
import TusRs.Error
import TusRs.Num
import TusRs.Interaction.Prog
import TusRs.Protocol.Config

/-!
# Limits of a request body

The checks of `tus-protocol/src/lifecycle/receive.rs` on the size of a body, as functions
of the configuration and of the length and offset of the upload.

Results:

* `validateBodyForReceive_ok`: an accepted body ends within every limit.
* `projection_exact`: with a known length nothing saturates.
* `body_admitted_iff`: the limit before reading and the validation after it admit exactly the
  bodies that end within every limit.
-/

namespace TusRs

namespace Protocol

/-- `ReceiveBodyKind`. -/
inductive ReceiveBodyKind where
  | patch
  | creationWithUpload
deriving DecidableEq

/-- The smallest of the limits that are set. -/
def tightest (limits : List (Option Nat)) : Option Nat := limits.reduceOption.min?

/-- `receive_body_size_limit`. -/
def receiveBodySizeLimit (config : Config) (length : Option Nat) (offset : Nat) : Option Nat :=
  tightest [config.maxChunkSize, config.maxSize.map (· - offset), length.map (· - offset)]

/-- `creation_with_upload_body_size_limit`: the cap on chunks is not applied. -/
def creationWithUploadBodySizeLimit (config : Config) (length : Option Nat) (offset : Nat) :
    Option Nat :=
  tightest [config.maxSize.map (· - offset), length.map (· - offset)]

def receiveBodyLimit (config : Config) (length : Option Nat) (offset : Nat) :
    ReceiveBodyKind → Option Nat
  | .patch => receiveBodySizeLimit config length offset
  | .creationWithUpload => creationWithUploadBodySizeLimit config length offset

structure ReceiveProjection where
  projectedOffset : Nat
  completesUpload : Bool

/-- Fail when a limit is set and `size` exceeds it. -/
def enforce (limit : Option Nat) (size : Nat) : Except Error Unit :=
  match limit with
  | some max => if size > max then .error (.sizeExceeded size max) else .ok ()
  | none => .ok ()

/-- `validate_creation_with_upload_body`. -/
def validateCreationWithUploadBody (config : Config) (length : Option Nat) (offset bodyLen : Nat) :
    Except Error ReceiveProjection := do
  let projectedOffset := satAdd offset bodyLen
  enforce config.maxSize projectedOffset
  enforce length projectedOffset
  pure ⟨projectedOffset, decide (length = some projectedOffset)⟩

/-- `validate_receive_body`. -/
def validateReceiveBody (config : Config) (length : Option Nat) (offset bodyLen : Nat) :
    Except Error ReceiveProjection := do
  enforce config.maxChunkSize bodyLen
  validateCreationWithUploadBody config length offset bodyLen

def validateBodyForReceive (config : Config) (length : Option Nat) (offset bodyLen : Nat) :
    ReceiveBodyKind → Except Error ReceiveProjection
  | .patch => validateReceiveBody config length offset bodyLen
  | .creationWithUpload => validateCreationWithUploadBody config length offset bodyLen

/-- The length an upload has after a request that may declare one: a declared length
resolves a deferred one, within `max_size`, and cannot change a known one. -/
def resolveLength (config : Config) (length declared : Option Nat) : Except Error (Option Nat) :=
  match declared, length with
  | some l, some existing =>
    if l ≠ existing then
      .error (.invalidHeader "Upload-Length" s!"cannot change Upload-Length after it is set (existing: {existing}, provided: {l})")
    else .ok length
  | some l, none => do
    enforce config.maxSize l
    pure (some l)
  | none, _ => .ok length

section Limits

variable {config : Config} {length : Option Nat} {offset size : Nat}

theorem enforce_ok {limit : Option Nat} (h : enforce limit size = .ok ()) :
    ∀ max, limit = some max → size ≤ max := by
  rintro max rfl
  by_contra hgt
  simp only [enforce, if_pos (Nat.not_le.mp hgt)] at h
  cases h

theorem enforce_bind_ok {α : Type} {limit : Option Nat} {f : Unit → Except Error α} {a : α}
    (h : enforce limit size >>= f = .ok a) :
    (∀ max, limit = some max → size ≤ max) ∧ f () = .ok a := by
  obtain ⟨_, he, hf⟩ := Interaction.except_bind_ok h
  exact ⟨enforce_ok he, hf⟩

/-- What an accepted body projects, and that it ends within the size limits. -/
structure Projected (config : Config) (length : Option Nat) (offset size : Nat)
    (p : ReceiveProjection) : Prop where
  offset_eq : p.projectedOffset = satAdd offset size
  completes_iff : p.completesUpload = true ↔ length = some p.projectedOffset
  within_max : ∀ m, config.maxSize = some m → p.projectedOffset ≤ m
  within_length : ∀ l, length = some l → p.projectedOffset ≤ l

theorem validateCreationWithUploadBody_ok {p : ReceiveProjection}
    (h : validateCreationWithUploadBody config length offset size = .ok p) :
    Projected config length offset size p := by
  obtain ⟨hmax, h⟩ := enforce_bind_ok h
  obtain ⟨hlen, h⟩ := enforce_bind_ok h
  cases h
  exact ⟨rfl, decide_eq_true_iff, hmax, hlen⟩

theorem validateBodyForReceive_ok {kind : ReceiveBodyKind} {p : ReceiveProjection}
    (h : validateBodyForReceive config length offset size kind = .ok p) :
    Projected config length offset size p := by
  cases kind with
  | patch => exact validateCreationWithUploadBody_ok (enforce_bind_ok h).2
  | creationWithUpload => exact validateCreationWithUploadBody_ok h

theorem tightest_le (limits : List (Option Nat)) {limit : Nat} (h : some limit ∈ limits) :
    ∃ m, tightest limits = some m ∧ m ≤ limit := by
  have hmem : limit ∈ limits.reduceOption := List.reduceOption_mem_iff.mpr h
  cases hmin : limits.reduceOption.min? with
  | none => simp [List.min?_eq_none_iff.mp hmin] at hmem
  | some m => exact ⟨m, hmin, (List.min?_eq_some_iff.mp hmin).2 limit hmem⟩

/-- A known length limits the body to what is missing. -/
theorem receiveBodyLimit_le (config : Config) (offset : Nat) (kind : ReceiveBodyKind) {l : Nat}
    (h : length = some l) :
    ∃ m, receiveBodyLimit config length offset kind = some m ∧ m ≤ l - offset := by
  subst h
  cases kind <;> exact tightest_le _ (by simp)

/-- A known length that fits a `u64` keeps the projection from saturating. -/
theorem projection_exact {kind : ReceiveBodyKind} {p : ReceiveProjection} {l : Nat}
    (hp : Projected config length offset size p) (hl : length = some l) (hfit : l ≤ u64Max)
    (hoffset : offset ≤ u64Max)
    (hsize : ∀ m, receiveBodyLimit config length offset kind = some m → size ≤ m) :
    p.projectedOffset = offset + size ∧ offset + size ≤ l := by
  obtain ⟨m, hm, hle⟩ := receiveBodyLimit_le config offset kind hl
  have hsz := hsize m hm
  have hwithin := hp.within_length l hl
  rw [hp.offset_eq] at hwithin ⊢
  simp only [satAdd] at hwithin ⊢
  omega

theorem resolveLength_known {declared resolved : Option Nat} {l : Nat}
    (h : resolveLength config length declared = .ok resolved) (hl : length = some l) :
    resolved = some l := by
  subst hl
  cases declared with
  | none => exact (Except.ok.inj h).symm
  | some d =>
    simp only [resolveLength] at h
    split at h
    · cases h
    · exact (Except.ok.inj h).symm

theorem resolveLength_declared {declared resolved : Option Nat} {l : Nat}
    (h : resolveLength config length declared = .ok resolved) (hl : resolved = some l) :
    length = some l ∨ length = none ∧ declared = some l ∧ ∀ m, config.maxSize = some m → l ≤ m := by
  cases hlen : length with
  | some existing =>
    rw [resolveLength_known h hlen] at hl
    exact .inl hl
  | none =>
    subst hlen
    cases declared with
    | none =>
      cases h
      cases hl
    | some d =>
      obtain ⟨hmax, h⟩ := enforce_bind_ok h
      cases h
      cases hl
      exact .inr ⟨rfl, rfl, hmax⟩

theorem enforce_ok_iff {limit : Option Nat} :
    enforce limit size = .ok () ↔ ∀ max, limit = some max → size ≤ max := by
  refine ⟨enforce_ok, fun h => ?_⟩
  cases limit with
  | none => rfl
  | some max => exact if_neg (Nat.not_lt.mpr (h max rfl))

theorem enforce_bind_ok_iff {α : Type} {limit : Option Nat} {f : Unit → Except Error α} {a : α} :
    enforce limit size >>= f = .ok a ↔ (∀ max, limit = some max → size ≤ max) ∧ f () = .ok a := by
  refine ⟨enforce_bind_ok, fun ⟨hle, hf⟩ => ?_⟩
  rw [enforce_ok_iff.mpr hle]
  exact hf

/-- The tightest limit enforces every one that is set. -/
theorem le_tightest_iff {limits : List (Option Nat)} :
    (∀ m, tightest limits = some m → size ≤ m) ↔ ∀ limit, some limit ∈ limits → size ≤ limit := by
  constructor
  · intro h limit hmem
    obtain ⟨m, hm, hle⟩ := tightest_le _ hmem
    exact (h m hm).trans hle
  · intro h m hm
    have hmem : m ∈ limits.reduceOption := (List.min?_eq_some_iff.mp hm).1
    exact h m (List.reduceOption_mem_iff.mp hmem)

/-- The limits of a body of `size` bytes at `offset`, in unbounded integers. -/
structure Allowed (config : Config) (length : Option Nat) (offset size : Nat)
    (kind : ReceiveBodyKind) : Prop where
  within_length : ∀ l, length = some l → offset + size ≤ l
  within_max : ∀ m, config.maxSize = some m → offset + size ≤ m
  chunk : kind = .patch → ∀ c, config.maxChunkSize = some c → size ≤ c

theorem le_map_sub_iff {limit : Option Nat} :
    (∀ m, some m = limit.map (· - offset) → size ≤ m) ↔ ∀ l, limit = some l → size ≤ l - offset := by
  cases limit <;> simp

/-- What the limit before reading requires. -/
theorem le_receiveBodyLimit_iff {kind : ReceiveBodyKind} :
    (∀ m, receiveBodyLimit config length offset kind = some m → size ≤ m) ↔
      (kind = .patch → ∀ c, config.maxChunkSize = some c → size ≤ c) ∧
        (∀ m, config.maxSize = some m → size ≤ m - offset) ∧
        ∀ l, length = some l → size ≤ l - offset := by
  rw [← le_map_sub_iff, ← le_map_sub_iff]
  cases kind with
  | patch =>
    refine le_tightest_iff.trans ?_
    simp only [List.mem_cons, List.not_mem_nil, or_false, or_imp, forall_and, forall_const]
    exact and_congr_left fun _ => forall_congr' fun c => imp_congr_left eq_comm
  | creationWithUpload =>
    refine le_tightest_iff.trans ?_
    simp only [List.mem_cons, List.not_mem_nil, or_false, or_imp, forall_and, reduceCtorEq,
      false_implies, true_and]

theorem validateCreationWithUploadBody_ok_iff {p : ReceiveProjection} :
    validateCreationWithUploadBody config length offset size = .ok p ↔
      (∀ m, config.maxSize = some m → satAdd offset size ≤ m) ∧
        (∀ l, length = some l → satAdd offset size ≤ l) ∧
        p = ⟨satAdd offset size, decide (length = some (satAdd offset size))⟩ := by
  refine enforce_bind_ok_iff.trans (and_congr_right fun _ => ?_)
  refine enforce_bind_ok_iff.trans (and_congr_right fun _ => ?_)
  exact ⟨fun h => (Except.ok.inj h).symm, fun h => h ▸ rfl⟩

theorem validateBodyForReceive_ok_iff {kind : ReceiveBodyKind} {p : ReceiveProjection} :
    validateBodyForReceive config length offset size kind = .ok p ↔
      (kind = .patch → ∀ c, config.maxChunkSize = some c → size ≤ c) ∧
        validateCreationWithUploadBody config length offset size = .ok p := by
  cases kind with
  | patch => exact enforce_bind_ok_iff.trans (and_congr_left' ⟨fun h _ => h, fun h => h rfl⟩)
  | creationWithUpload => exact ⟨fun h => ⟨nofun, h⟩, And.right⟩

/-- A limit that both checks enforce is one on the unbounded sum. -/
theorem add_le_of_checks {limit : Nat} (hoffset : offset ≤ u64Max) (hlimit : limit ≤ u64Max)
    (hread : size ≤ limit - offset) (hend : satAdd offset size ≤ limit) : offset + size ≤ limit := by
  unfold satAdd at hend
  omega

theorem Allowed.fits {kind : ReceiveBodyKind} (h : Allowed config length offset size kind)
    (hlength : ∀ l, length = some l → l ≤ u64Max)
    (hmax : ∀ m, config.maxSize = some m → m ≤ u64Max)
    (hfit : length.isSome ∨ config.maxSize.isSome ∨ offset + size ≤ u64Max) :
    offset + size ≤ u64Max := by
  rcases hfit with hsome | hsome | hsum
  · obtain ⟨l, hl⟩ := Option.isSome_iff_exists.mp hsome
    exact (h.within_length l hl).trans (hlength l hl)
  · obtain ⟨m, hm⟩ := Option.isSome_iff_exists.mp hsome
    exact (h.within_max m hm).trans (hmax m hm)
  · exact hsum

/-- The limit before reading and the validation after it admit a body exactly when it ends
within every limit, and then project its exact end. -/
theorem body_admitted_iff {kind : ReceiveBodyKind} {p : ReceiveProjection}
    (hlength : ∀ l, length = some l → l ≤ u64Max)
    (hmax : ∀ m, config.maxSize = some m → m ≤ u64Max) (hoffset : offset ≤ u64Max)
    (hfit : length.isSome ∨ config.maxSize.isSome ∨ offset + size ≤ u64Max) :
    (do enforce (receiveBodyLimit config length offset kind) size
        validateBodyForReceive config length offset size kind) = .ok p ↔
      Allowed config length offset size kind ∧
        p = ⟨offset + size, decide (length = some (offset + size))⟩ := by
  rw [enforce_bind_ok_iff, le_receiveBodyLimit_iff, validateBodyForReceive_ok_iff,
    validateCreationWithUploadBody_ok_iff]
  constructor
  · rintro ⟨⟨hchunk, hreadmax, hreadlen⟩, -, hendmax, hendlen, rfl⟩
    have hallowed : Allowed config length offset size kind := by
      refine ⟨fun l hl => ?_, fun m hm => ?_, hchunk⟩
      · exact add_le_of_checks hoffset (hlength l hl) (hreadlen l hl) (hendlen l hl)
      · exact add_le_of_checks hoffset (hmax m hm) (hreadmax m hm) (hendmax m hm)
    exact ⟨hallowed, by rw [satAdd_eq (hallowed.fits hlength hmax hfit)]⟩
  · rintro ⟨hallowed, rfl⟩
    rw [satAdd_eq (hallowed.fits hlength hmax hfit)]
    refine ⟨⟨hallowed.chunk, fun m hm => ?_, fun l hl => ?_⟩, hallowed.chunk, hallowed.within_max,
      hallowed.within_length, rfl⟩
    · exact Nat.le_sub_of_add_le' (hallowed.within_max m hm)
    · exact Nat.le_sub_of_add_le' (hallowed.within_length l hl)

/-- The last byte of the largest upload. -/
theorem body_admitted_iff_last :
    (do enforce (receiveBodyLimit .default (some u64Max) (u64Max - 1) .patch) 1
        validateBodyForReceive .default (some u64Max) (u64Max - 1) 1 .patch) =
      .ok ⟨u64Max, true⟩ := by
  refine (body_admitted_iff ?_ ?_ ?_ ?_).mpr ⟨⟨?_, ?_, ?_⟩, ?_⟩
  · rintro l ⟨⟩
    exact Nat.le_refl _
  · exact nofun
  · exact Nat.sub_le _ _
  · exact .inl rfl
  · rintro l ⟨⟩
    decide
  · exact nofun
  · exact fun _ => nofun
  · rfl

end Limits

end Protocol

end TusRs
