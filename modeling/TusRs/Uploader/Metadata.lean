import TusRs.Protocol.Headers
import TusRs.Uploader.Client

/-!
# Metadata on the wire

`Upload-Metadata` as the server writes it in a HEAD (`protocol/head.rs`) and as the client
writes and reads it (`helpers.rs` of `tus-uploader`), with the server's parser. A hash map
gives its entries in any order, so a map is a list of entries with distinct keys and two
lists are the same map if they are permutations of each other.

Results:

* `parsePairs_pairText`, `decodePairs_pairText`: both loops read back what is written.
* `metadata_round_trip`: the three round trips.
-/

namespace TusRs

open Interaction Protocol

/-! ## The server's header -/

/-- `encode_upload_metadata`. -/
def Protocol.encodeUploadMetadata (base64 : Base64.Codec) (entries : Metadata) : String :=
  if entries.isEmpty then ""
  else ",".intercalate (entries.map fun entry => entry.1 ++ " " ++ base64.encode entry.2)

/-- The header of a HEAD. -/
def Protocol.headMetadata (base64 : Base64.Codec) (entries : Metadata) : Option String :=
  if entries.isEmpty then none else some (encodeUploadMetadata base64 entries)

/-! ## The client -/

namespace Uploader

section Codec

variable (base64 : Base64.Codec)

/-- One pair of `encode_metadata`; the check of a key is a copy of the server's. -/
def encodePair (entry : String × Bytes) : Except Error String :=
  if !isValidMetadataKey entry.1 then .error (.invalidRequestHeader "Upload-Metadata" entry.1)
  else .ok (entry.1 ++ " " ++ base64.encode entry.2)

/-- `encode_metadata`. -/
def encodeMetadata (entries : Metadata) : Except Error String :=
  (entries.mapM (encodePair base64)).map ",".intercalate

/-- The header of a request: left out when nothing is encoded. -/
def requestMetadata (entries : Metadata) : Except Error (Option String) :=
  (encodeMetadata base64 entries).map fun encoded => if encoded.isEmpty then none else some encoded

/-- `HashMap::insert`. -/
def insertEntry (metadata : Metadata) (key : String) (value : Bytes) : Metadata :=
  metadata.filter (fun entry => entry.1 ≠ key) ++ [(key, value)]

/-- One pair of `decode_metadata`, trimmed. -/
def decodePair (pair : Text.Chars) : Except Error (String × Bytes) :=
  let refused := Error.invalidHeader "Upload-Metadata" (String.ofList pair)
  match Text.splitOnce ' ' pair with
  | some (key, encoded) =>
    match base64.decode (String.ofList encoded) with
    | .error _ => .error refused
    | .ok value =>
      if !isValidMetadataKey (String.ofList key) then .error refused
      else .ok (String.ofList key, value)
  | none =>
    if !isValidMetadataKey (String.ofList pair) then .error refused
    else .ok (String.ofList pair, [])

/-- The loop of `decode_metadata`. -/
def decodePairs : Metadata → List Text.Chars → Except Error Metadata
  | metadata, [] => .ok metadata
  | metadata, pair :: pairs =>
    match decodePair base64 (Text.trim pair) with
    | .error e => .error e
    | .ok (key, value) => decodePairs (insertEntry metadata key value) pairs

/-- `decode_metadata`; `lossy` is `String::from_utf8_lossy`. -/
def decodeMetadata (lossy : Bytes → String) (value : Option Bytes) : Except Error Metadata :=
  match value with
  | none => .ok []
  | some raw =>
    match toStr raw with
    | none => .error (.invalidHeader "Upload-Metadata" (lossy raw))
    | some value =>
      if value.isEmpty then .ok [] else decodePairs base64 [] (value.toList.splitOn ',')

end Codec

end Uploader

/-! ## Maps and headers -/

/-- A metadata map: distinct keys that the server's parser accepts. -/
structure ValidMetadata (entries : Metadata) : Prop where
  keys : ∀ entry ∈ entries, isValidMetadataKey entry.1 = true
  distinct : (entries.map fun entry => entry.1).Nodup

/-- The headers of a message with or without metadata. -/
def metadataHeaders (value : Option String) : HeaderMap :=
  match value with
  | none => []
  | some value => [("upload-metadata", headerBytes value)]

/-- The map the server reads; an absent header stands for the empty one. -/
def readMetadata (base64 : Base64.Codec) (h : HeaderMap) : Except Error Metadata :=
  match parseUploadMetadata base64 h with
  | .error e => .error e
  | .ok metadata => .ok (metadata.getD [])

/-! ## Characters -/

/-- A character of a key or of an encoded value. -/
def Plain (c : Char) : Prop := 0x21 ≤ c.toNat ∧ c.toNat ≤ 0x7E ∧ c ≠ ','

instance (c : Char) : Decidable (Plain c) := inferInstanceAs (Decidable (_ ∧ _ ∧ _))

theorem Plain.ne_space {c : Char} (h : Plain c) : c ≠ ' ' := by
  rintro rfl
  exact absurd h.1 (by decide)

theorem Plain.not_whitespace {c : Char} (h : Plain c) : c.isWhitespace = false := by
  by_contra hw
  rw [Bool.not_eq_false, Char.isWhitespace] at hw
  simp only [Bool.or_eq_true, decide_eq_true_eq] at hw
  rcases hw with ((rfl | rfl) | rfl) | rfl <;> exact absurd h.1 (by decide)

theorem plain_of_key {key : String} (h : isValidMetadataKey key = true) :
    key.toList ≠ [] ∧ ∀ c ∈ key.toList, Plain c := by
  rw [isValidMetadataKey, Bool.and_eq_true, Bool.not_eq_true', List.all_eq_true] at h
  refine ⟨fun hnil => ?_, fun c hc => ?_⟩
  · rw [String.toList_eq_nil_iff.mp hnil] at h
    exact absurd h.1 (by decide)
  · simpa [Plain, and_assoc] using h.2 c hc

theorem plain_of_encode {base64 : Base64.Codec} (hb : base64.Lawful) (value : Bytes) :
    ∀ c ∈ (base64.encode value).toList, Plain c := by
  intro c hc
  rcases hb.mem_encode value c hc with h | rfl
  · have hall : ∀ c ∈ Base64.alphabet, Plain c :=
      Text.forall_of_all (by decide +kernel)
    exact hall c h
  · decide

/-! ## Pairs -/

section Pairs

variable {base64 : Base64.Codec}

/-- A pair as it is written. -/
def pairText (base64 : Base64.Codec) (entry : String × Bytes) : Text.Chars :=
  entry.1.toList ++ ' ' :: (base64.encode entry.2).toList

variable {entry : String × Bytes}

theorem pairText_mem (hb : base64.Lawful) (hkey : isValidMetadataKey entry.1 = true) {c : Char}
    (hc : c ∈ pairText base64 entry) : c = ' ' ∨ Plain c := by
  simp only [pairText, List.mem_append, List.mem_cons] at hc
  rcases hc with hc | hc | hc
  · exact .inr ((plain_of_key hkey).2 c hc)
  · exact .inl hc
  · exact .inr (plain_of_encode hb entry.2 c hc)

/-- Trimming a pair takes nothing away but the space before an empty value. -/
theorem trim_pairText (hb : base64.Lawful) (hkey : isValidMetadataKey entry.1 = true) :
    Text.trim (pairText base64 entry) =
      if base64.encode entry.2 = "" then entry.1.toList else pairText base64 entry := by
  obtain ⟨hne, hplain⟩ := plain_of_key hkey
  have htight : Text.Tight entry.1.toList :=
    .of_forall fun c hc => (hplain c hc).not_whitespace
  split
  · next hempty =>
    rw [pairText, hempty]
    exact Text.trim_append_space htight hne
  · next hsome =>
    have hlast : (base64.encode entry.2).toList ≠ [] := fun h =>
      hsome (String.toList_eq_nil_iff.mp h)
    refine Text.Tight.trim ⟨fun c hc => htight.1 c ?_, fun c hc => ?_⟩
    · rwa [pairText, List.head?_append_of_ne_nil _ hne] at hc
    · refine (plain_of_encode hb entry.2 c (List.mem_of_mem_getLast? ?_)).not_whitespace
      rwa [pairText, List.getLast?_append_of_ne_nil _ (List.cons_ne_nil _ _),
        List.getLast?_cons_of_ne_nil hlast] at hc

/-- Both parsers cut a trimmed pair at its space, if there still is one. -/
theorem trim_cases (hb : base64.Lawful) (hkey : isValidMetadataKey entry.1 = true) :
    (Text.trim (pairText base64 entry) = entry.1.toList ∧
      Text.splitOnce ' ' entry.1.toList = none ∧ entry.2 = []) ∨
    (Text.trim (pairText base64 entry) = pairText base64 entry ∧
      Text.splitOnce ' ' (pairText base64 entry) =
        some (entry.1.toList, (base64.encode entry.2).toList)) := by
  have hspace : ' ' ∉ entry.1.toList := fun h => ((plain_of_key hkey).2 _ h).ne_space rfl
  rw [trim_pairText hb hkey]
  by_cases hempty : base64.encode entry.2 = ""
  · exact .inl ⟨if_pos hempty, Text.splitOnce_eq_none hspace, hb.eq_nil hempty⟩
  · exact .inr ⟨if_neg hempty, Text.splitOnce_append _ hspace⟩

theorem trim_ne_nil (hb : base64.Lawful) (hkey : isValidMetadataKey entry.1 = true) :
    (Text.trim (pairText base64 entry)).isEmpty = false := by
  rw [← Bool.not_eq_true, List.isEmpty_iff]
  obtain ⟨htrim, -⟩ | ⟨htrim, -⟩ := trim_cases hb hkey
  · rw [htrim]
    exact (plain_of_key hkey).1
  · rw [htrim, pairText]
    simp

theorem parsePair_trim (hb : base64.Lawful) (hkey : isValidMetadataKey entry.1 = true) :
    parsePair base64 (Text.trim (pairText base64 entry)) = .ok entry := by
  have hne : entry.1.isEmpty = false := by
    rw [isValidMetadataKey, Bool.and_eq_true, Bool.not_eq_true'] at hkey
    exact hkey.1
  obtain ⟨htrim, hsplit, hvalue⟩ | ⟨htrim, hsplit⟩ := trim_cases hb hkey
  · rw [htrim, parsePair, hsplit]
    simp [String.ofList_toList, hne, hkey, ← hvalue]
  · rw [htrim, parsePair, hsplit]
    simp [String.ofList_toList, hne, hkey, hb.decode_encode]

theorem decodePair_trim (hb : base64.Lawful) (hkey : isValidMetadataKey entry.1 = true) :
    Uploader.decodePair base64 (Text.trim (pairText base64 entry)) = .ok entry := by
  obtain ⟨htrim, hsplit, hvalue⟩ | ⟨htrim, hsplit⟩ := trim_cases hb hkey
  · rw [htrim, Uploader.decodePair, hsplit]
    simp [String.ofList_toList, hkey, ← hvalue]
  · rw [htrim, Uploader.decodePair, hsplit]
    simp [String.ofList_toList, hkey, hb.decode_encode]

/-! ## Loops -/

theorem lookup_of_not_mem {metadata : Metadata} {key : String}
    (h : key ∉ metadata.map fun entry => entry.1) : metadata.lookup key = none := by
  rw [List.lookup_eq_none_iff]
  intro entry hentry
  rw [bne_iff_ne]
  rintro rfl
  exact h (List.mem_map_of_mem hentry)

theorem insertEntry_of_not_mem {metadata : Metadata} {key : String} (value : Bytes)
    (h : key ∉ metadata.map fun entry => entry.1) :
    Uploader.insertEntry metadata key value = metadata ++ [(key, value)] := by
  rw [Uploader.insertEntry, List.filter_eq_self.mpr]
  intro entry hentry
  rw [decide_eq_true_eq]
  rintro rfl
  exact h (List.mem_map_of_mem hentry)

/-- What has been read is a part of a map, so the next key is new. -/
theorem ValidMetadata.next {read rest : Metadata} {entry : String × Bytes}
    (h : ValidMetadata (read ++ entry :: rest)) :
    isValidMetadataKey entry.1 = true ∧ entry.1 ∉ (read.map fun entry => entry.1) ∧
      ValidMetadata ((read ++ [entry]) ++ rest) := by
  have hdistinct := h.distinct
  rw [List.map_append, List.map_cons, List.nodup_middle, List.nodup_cons, List.mem_append,
    not_or] at hdistinct
  rw [List.append_assoc, List.singleton_append]
  exact ⟨h.keys entry (List.mem_append_right _ List.mem_cons_self), hdistinct.1.1, h⟩

/-- The server's loop reads back the pairs of a map. -/
theorem parsePairs_pairText (hb : base64.Lawful) {read entries : Metadata}
    (h : ValidMetadata (read ++ entries)) :
    parsePairs base64 read (entries.map (pairText base64)) = .ok (read ++ entries) := by
  induction entries generalizing read with
  | nil => rw [List.map_nil, parsePairs, List.append_nil]
  | cons entry rest ih =>
    obtain ⟨hkey, hnew, hnext⟩ := h.next
    rw [List.map_cons, parsePairs, trim_ne_nil hb hkey, if_neg Bool.false_ne_true,
      parsePair_trim hb hkey]
    dsimp only
    rw [lookup_of_not_mem hnew, if_neg (by simp), ih hnext, List.append_assoc,
      List.singleton_append]

/-- The client's loop reads back the pairs of a map. -/
theorem decodePairs_pairText (hb : base64.Lawful) {read entries : Metadata}
    (h : ValidMetadata (read ++ entries)) :
    Uploader.decodePairs base64 read (entries.map (pairText base64)) = .ok (read ++ entries) := by
  induction entries generalizing read with
  | nil => rw [List.map_nil, Uploader.decodePairs, List.append_nil]
  | cons entry rest ih =>
    obtain ⟨hkey, hnew, hnext⟩ := h.next
    rw [List.map_cons, Uploader.decodePairs, decodePair_trim hb hkey]
    dsimp only
    rw [insertEntry_of_not_mem _ hnew, ih hnext, List.append_assoc, List.singleton_append]

/-! ## Headers -/

/-- The value of a header for a map that is not empty. -/
def metadataValue (base64 : Base64.Codec) (entries : Metadata) : String :=
  ",".intercalate (entries.map fun entry => entry.1 ++ " " ++ base64.encode entry.2)

theorem metadataValue_toList (entries : Metadata) :
    (metadataValue base64 entries).toList = [','].intercalate (entries.map (pairText base64)) := by
  rw [metadataValue, String.toList_intercalate, List.map_map]
  congr 1
  refine List.map_congr_left fun entry _ => ?_
  simp [pairText]

theorem splitOn_metadataValue (hb : base64.Lawful) {entries : Metadata} (h : ValidMetadata entries)
    (hne : entries ≠ []) :
    (metadataValue base64 entries).toList.splitOn ',' = entries.map (pairText base64) := by
  rw [metadataValue_toList]
  refine List.splitOn_intercalate ',' ?_ (by simpa using hne)
  intro pair hpair hcomma
  obtain ⟨entry, hentry, rfl⟩ := List.mem_map.mp hpair
  rcases pairText_mem hb (h.keys entry hentry) hcomma with hc | hc
  · exact absurd hc (by decide)
  · exact hc.2.2 rfl

theorem metadataValue_visible (hb : base64.Lawful) {entries : Metadata}
    (h : ValidMetadata entries) :
    ∀ c ∈ (metadataValue base64 entries).toList, 32 ≤ c.toNat ∧ c.toNat < 127 := by
  intro c hc
  rw [metadataValue_toList] at hc
  obtain rfl | ⟨pair, hpair, hc⟩ := Text.mem_intercalate hc
  · decide
  obtain ⟨entry, hentry, rfl⟩ := List.mem_map.mp hpair
  obtain rfl | hplain := pairText_mem hb (h.keys entry hentry) hc
  · decide
  · exact ⟨Nat.le_of_succ_le hplain.1, Nat.lt_succ_of_le hplain.2.1⟩

theorem metadataValue_ne_empty (hb : base64.Lawful) {entries : Metadata} (h : ValidMetadata entries)
    (hne : entries ≠ []) : (metadataValue base64 entries).isEmpty = false := by
  rw [← Bool.not_eq_true, String.isEmpty_iff]
  intro hempty
  have hsplit := splitOn_metadataValue hb h hne
  rw [hempty] at hsplit
  have hmem : [] ∈ entries.map (pairText base64) := hsplit ▸ List.mem_singleton.mpr rfl
  obtain ⟨entry, -, hnil⟩ := List.mem_map.mp hmem
  simp [pairText] at hnil

/-- The server reads back a map that is not empty. -/
theorem readMetadata_value (hb : base64.Lawful) {entries : Metadata} (h : ValidMetadata entries)
    (hne : entries ≠ []) :
    readMetadata base64 (metadataHeaders (some (metadataValue base64 entries))) = .ok entries := by
  have htext : (metadataHeaders (some (metadataValue base64 entries))).text "upload-metadata" =
      some (metadataValue base64 entries) := toStr_headerBytes (metadataValue_visible hb h)
  have hpairs : parsePairs base64 [] (entries.map (pairText base64)) = .ok ([] ++ entries) :=
    parsePairs_pairText hb h
  rw [readMetadata, parseUploadMetadata, htext]
  dsimp only
  rw [metadataValue_ne_empty hb h hne, if_neg Bool.false_ne_true, splitOn_metadataValue hb h hne,
    hpairs]
  rfl

/-- The client reads back a map that is not empty. -/
theorem decodeMetadata_value (hb : base64.Lawful) (lossy : Bytes → String) {entries : Metadata}
    (h : ValidMetadata entries) (hne : entries ≠ []) :
    Uploader.decodeMetadata base64 lossy (some (headerBytes (metadataValue base64 entries))) =
      .ok entries := by
  rw [Uploader.decodeMetadata, toStr_headerBytes (metadataValue_visible hb h)]
  dsimp only
  rw [metadataValue_ne_empty hb h hne, if_neg Bool.false_ne_true, splitOn_metadataValue hb h hne]
  exact decodePairs_pairText hb h

theorem headMetadata_eq (base64 : Base64.Codec) {entries : Metadata} (hne : entries ≠ []) :
    headMetadata base64 entries = some (metadataValue base64 entries) := by
  have hempty : entries.isEmpty = false := Bool.eq_false_iff.mpr fun h =>
    hne (List.isEmpty_iff.mp h)
  rw [headMetadata, encodeUploadMetadata, hempty]
  rfl

/-- The client's encoder does not refuse a key of a map. -/
theorem encodeMetadata_eq {entries : Metadata} (h : ValidMetadata entries) :
    Uploader.encodeMetadata base64 entries = .ok (metadataValue base64 entries) := by
  have hall : ∀ rest : Metadata, (∀ entry ∈ rest, isValidMetadataKey entry.1 = true) →
      rest.mapM (Uploader.encodePair base64) =
        .ok (rest.map fun entry => entry.1 ++ " " ++ base64.encode entry.2) := by
    intro rest hkeys
    induction rest with
    | nil => rfl
    | cons entry rest ih =>
      rw [List.mapM_cons, Uploader.encodePair, hkeys entry List.mem_cons_self,
        ih fun entry hentry => hkeys entry (List.mem_cons_of_mem _ hentry)]
      rfl
  rw [Uploader.encodeMetadata, hall entries h.keys]
  rfl

theorem requestMetadata_eq (hb : base64.Lawful) {entries : Metadata} (h : ValidMetadata entries) :
    Uploader.requestMetadata base64 entries = .ok (headMetadata base64 entries) := by
  rw [Uploader.requestMetadata, encodeMetadata_eq h]
  by_cases hne : entries = []
  · rw [hne]
    rfl
  · rw [headMetadata_eq base64 hne]
    show Except.ok (if (metadataValue base64 entries).isEmpty then _ else _) = _
    rw [metadataValue_ne_empty hb h hne]
    rfl

end Pairs

theorem ValidMetadata.perm {a b : Metadata} (h : ValidMetadata b) (hab : a.Perm b) :
    ValidMetadata a :=
  ⟨fun entry hentry => h.keys entry (hab.mem_iff.mp hentry),
    (hab.map _).nodup_iff.mpr h.distinct⟩

/-- Whatever order a map is written in, by the server or by the client, the other side reads the
same map. -/
theorem metadata_round_trip {base64 : Base64.Codec} (hb : base64.Lawful) (lossy : Bytes → String)
    {metadata entries : Metadata} (hm : ValidMetadata metadata) (horder : entries.Perm metadata) :
    (∃ read, readMetadata base64 (metadataHeaders (headMetadata base64 entries)) = .ok read ∧
      read.Perm metadata) ∧
    (∃ header read, Uploader.requestMetadata base64 entries = .ok header ∧
      readMetadata base64 (metadataHeaders header) = .ok read ∧ read.Perm metadata) ∧
    ∃ read, Uploader.decodeMetadata base64 lossy
      ((metadataHeaders (headMetadata base64 entries)).get "upload-metadata") = .ok read ∧
      read.Perm metadata := by
  have h := hm.perm horder
  have hserver : readMetadata base64 (metadataHeaders (headMetadata base64 entries)) =
      .ok entries := by
    by_cases hne : entries = []
    · rw [hne]
      rfl
    · rw [headMetadata_eq base64 hne, readMetadata_value hb h hne]
  refine ⟨⟨entries, hserver, horder⟩,
    ⟨_, entries, requestMetadata_eq hb h, hserver, horder⟩, entries, ?_, horder⟩
  by_cases hne : entries = []
  · rw [hne]
    rfl
  · rw [headMetadata_eq base64 hne]
    exact decodeMetadata_value hb lossy h hne

/-- A value and an empty value. -/
def twoEntries : Metadata := [("filename", [97, 98]), ("empty", [])]

theorem twoEntries_valid : ValidMetadata twoEntries := ⟨by decide, by decide⟩

theorem metadata_round_trip_two :
    (∃ read, readMetadata Base64.standard (metadataHeaders
        (headMetadata Base64.standard twoEntries.reverse)) = .ok read ∧ read.Perm twoEntries) ∧
    (∃ header read, Uploader.requestMetadata Base64.standard twoEntries.reverse = .ok header ∧
      readMetadata Base64.standard (metadataHeaders header) = .ok read ∧ read.Perm twoEntries) ∧
    ∃ read, Uploader.decodeMetadata Base64.standard (fun _ => "") ((metadataHeaders
        (headMetadata Base64.standard twoEntries.reverse)).get "upload-metadata") = .ok read ∧
      read.Perm twoEntries :=
  metadata_round_trip Base64.standard_lawful (fun _ => "") twoEntries_valid
    (List.reverse_perm twoEntries)

example : headMetadata Base64.standard twoEntries = some "filename YWI=,empty " := by decide

end TusRs
