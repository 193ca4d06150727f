import TusRs.Storage.Concat

/-!
# Uploads in memory

`MemoryStorage` of `tus-protocol/src/storage/memory.rs`: a byte vector for each key. The
lock is never poisoned. `append` measures the vector again after it has read the body; one
call at a time finds it as it was.

Result:

* `concat_received`: a concatenation holds the bodies of the parts, one after the other.
-/

namespace TusRs

open Protocol

namespace MemoryStorage

/-- The contents by key. -/
abbrev Data := String → Option Bytes

def entry (data : Data) (handle : StorageHandle) : Except Error Bytes :=
  match data handle.key with
  | some content => .ok content
  | none => .error (.notFound handle.key)

def create (data : Data) (uploadId : String) : Data × StorageHandle :=
  let key := "memory://" ++ uploadId
  (Function.update data key (some []), ⟨key, []⟩)

def size (data : Data) (handle : StorageHandle) : Option Nat := (data handle.key).map List.length

/-- The loop over a body: its bytes, or the error that ends it. -/
def readBody (data : ChunkStream) : Except IoError Bytes :=
  (FileStorage.chunksOf data).foldlM (fun buffer chunk => chunk.map (buffer ++ ·)) []

def append (data : Data) (request : FileStorage.AppendRequest) :
    Data × Except Error StorageHandle :=
  match entry data request.handle with
  | .error e => (data, .error e)
  | .ok content =>
    if content.length ≠ request.expectedOffset then
      let size := content.length
      let offset := request.expectedOffset
      let key := request.handle.key
      (data, .error (.internal s!"memory storage size {size} does not match expected offset {offset} for key {key}"))
    else match readBody request.data with
      | .error e => (data, .error (.io e))
      | .ok bytes =>
        (Function.update data request.handle.key (some (content ++ bytes)), .ok request.handle)

/-- The loop over the parts; `combined` holds what was read so far. -/
def combine (data : Data) : Bytes → List StorageHandle → Except Error Bytes
  | combined, [] => .ok combined
  | combined, part :: parts => do
    let content ← entry data part
    combine data (combined ++ content) parts

def concat (data : Data) (request : FileStorage.ConcatRequest) :
    Data × Except Error StorageHandle :=
  match combine data [] request.parts with
  | .error e => (data, .error e)
  | .ok combined =>
    (Function.update data request.target.key (some combined), .ok request.target)

/-! ## What was received -/

/-- One append for each body, at the size reached. -/
def appendAll (data : Data) (handle : StorageHandle) : List Bytes → Except Error Data
  | [] => .ok data
  | body :: bodies =>
    match append data ⟨handle, (size data handle).getD 0, .buffered body⟩ with
    | (_, .error e) => .error e
    | (data, .ok handle) => appendAll data handle bodies

/-- The storage holds under `handle` what `create` and the bodies left there. -/
def Received (data : Data) (handle : StorageHandle) (bodies : List Bytes) : Prop :=
  ∃ before id after, (create before id).2 = handle ∧
    appendAll (create before id).1 handle bodies = .ok after ∧ data handle.key = after handle.key

section Received

variable {data after : Data} {handle : StorageHandle} {content : Bytes} {bodies : List Bytes}

theorem append_body (h : data handle.key = some content) (body : Bytes) :
    append data ⟨handle, (size data handle).getD 0, .buffered body⟩ =
      (Function.update data handle.key (some (content ++ body)), .ok handle) := by
  have hsize : (size data handle).getD 0 = content.length := by simp [size, h]
  simp [append, entry, h, hsize, readBody, FileStorage.chunksOf, Except.map, bind, Except.bind,
    pure, Except.pure]

/-- No append at the size reached is refused. -/
theorem appendAll_exists (h : data handle.key = some content) (bodies : List Bytes) :
    ∃ after, appendAll data handle bodies = .ok after := by
  induction bodies generalizing data content with
  | nil => exact ⟨data, rfl⟩
  | cons body bodies ih =>
    obtain ⟨after, hafter⟩ := ih (Function.update_self handle.key (some (content ++ body)) data)
    exact ⟨after, by rw [appendAll, append_body h body, ← hafter]⟩

theorem appendAll_content (h : data handle.key = some content)
    (hafter : appendAll data handle bodies = .ok after) :
    after handle.key = some (content ++ bodies.flatten) := by
  induction bodies generalizing data content with
  | nil =>
    obtain rfl := Except.ok.inj hafter
    simp [h]
  | cons body bodies ih =>
    rw [appendAll, append_body h body] at hafter
    have hcontent := ih (Function.update_self handle.key _ data) hafter
    rw [hcontent, List.flatten_cons, List.append_assoc]

theorem Received.held (h : Received data handle bodies) :
    data handle.key = some bodies.flatten := by
  obtain ⟨before, id, after, rfl, hafter, hdata⟩ := h
  have hcreated : (create before id).1 (create before id).2.key = some [] :=
    Function.update_self ..
  rw [hdata]
  exact appendAll_content hcreated hafter

/-- The parts are combined in the order of the request. -/
theorem combine_contents {α : Type} {handle : α → StorageHandle} {content : α → Bytes}
    (combined : Bytes) {parts : List α}
    (h : ∀ part ∈ parts, data (handle part).key = some (content part)) :
    combine data combined (parts.map handle) = .ok (combined ++ parts.flatMap content) := by
  induction parts generalizing combined with
  | nil => simp [combine]
  | cons part parts ih =>
    have hpart := h part List.mem_cons_self
    have hrest := ih (combined ++ content part) fun p hp => h p (List.mem_cons_of_mem part hp)
    simp only [List.map_cons, combine, entry, hpart, bind, Except.bind, hrest,
      List.flatMap_cons, List.append_assoc]

theorem concat_received {α : Type} {handle : α → StorageHandle} {bodies : α → List Bytes}
    {parts : List α} (target : StorageHandle)
    (h : ∀ part ∈ parts, Received data (handle part) (bodies part)) :
    concat data ⟨target, parts.map handle⟩ =
      (Function.update data target.key (some (parts.flatMap fun part => (bodies part).flatten)),
        .ok target) := by
  have hheld : ∀ part ∈ parts, data (handle part).key = some (bodies part).flatten :=
    fun part hpart => (h part hpart).held
  rw [concat, combine_contents [] hheld]
  rfl

end Received

end MemoryStorage

end TusRs
