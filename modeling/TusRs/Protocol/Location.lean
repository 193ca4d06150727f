import Mathlib.Data.List.TakeWhile
import TusRs.Percent
import TusRs.Protocol.Handlers
import TusRs.Protocol.Headers

/-!
# Upload URLs

The URLs of uploads: the `Location` of a creation (`Config::upload_url`) and the
`Upload-Concat` of a HEAD write them, the routes of `tus-axum` and `extract_partial_id` read
them. Percent-encoding and the routing of a path are those of other crates and stand here as
parameters.

Results:

* `location_item`: where a `Location` leads.
* `extract_url`: what the parser of `Upload-Concat` makes of one.
* `url_round_trips_iff`: when the three round trips hold.
-/

namespace TusRs

open Interaction

namespace Protocol

/-! ## Writing -/

/-- RFC 3986 unreserved characters. -/
def isUnreserved (c : Char) : Bool :=
  c.isAlphanum || c = '-' || c = '_' || c = '.' || c = '~'

/-- `PATH_SEGMENT_ENCODE`. -/
def pathSegmentEncode (c : Char) : Bool := !isUnreserved c

/-- `Config::upload_url`; `baseUrl` is the configured one. -/
def uploadUrl (percent : Percent.Codec) (baseUrl : Option String) (basePath id : String)
    (requestBaseUrl : Option String) : String :=
  let id := percent.encode pathSegmentEncode id
  match baseUrl.or requestBaseUrl with
  | some base => base ++ basePath ++ "/" ++ id
  | none => basePath ++ "/" ++ id

/-! ## Reading -/

/-- `tus-axum` route templates. -/
structure RoutePaths where
  base : String
  upload : String

inductive RouterError where
  | invalidBasePath (path : String)

/-- The text contains `//`. -/
def hasEmptySegment : Text.Chars → Bool
  | [] => false
  | c :: cs => "//".toList.isPrefixOf (c :: cs) || hasEmptySegment cs

/-- `route_paths`. -/
def routePaths (basePath : String) : Except RouterError RoutePaths :=
  let raw := basePath.toList
  if raw.head? ≠ some '/' || raw.contains '{' || raw.contains '}' || hasEmptySegment raw then
    .error (.invalidBasePath basePath)
  else
    let base := if 1 < raw.length && raw.getLast? = some '/' then raw.dropLast else raw
    let upload := if base = ['/'] then "/{upload_id}".toList else base ++ "/{upload_id}".toList
    .ok ⟨String.ofList base, String.ofList upload⟩

/-- What a router captures of a path by a template. -/
abbrev Router := Text.Chars → Text.Chars → Option Text.Chars

/-- A template that ends in a capture takes any segment after the text before it. -/
def Router.Lawful (route : Router) : Prop :=
  ∀ base segment, '{' ∉ base → segment ≠ [] → '/' ∉ segment →
    route (base ++ "/{upload_id}".toList) (base ++ '/' :: segment) = some segment

/-- The path of a URL without query and fragment. -/
def pathOf (url : Text.Chars) : Option Text.Chars :=
  (urlPath url).map fun path => path.takeWhile fun c => c ≠ '?' && c ≠ '#'

/-- The upload a request path names by the item route: `Path` decodes the captured segment,
`TusUploadId` checks it. -/
def itemId (percent : Percent.Codec) (route : Router) (paths : RoutePaths) (path : Text.Chars) :
    Option String := do
  let segment ← route paths.upload.toList path
  let id ← percent.decode (String.ofList segment)
  (UploadId.parse id).toOption

/-- The parts of a final upload by its `Upload-Concat` header. -/
def concatIds (basePath value : String) : Option (List String) :=
  match parseUploadConcat [("upload-concat", headerBytes value)] with
  | .ok (some (.finalUpload urls)) => urls.mapM fun url => extractPartialId url basePath
  | _ => none

/-! ## Round trips -/

/-- Visible characters that do not end a path. -/
def UrlChar (c : Char) : Prop := 0x21 ≤ c.toNat ∧ c.toNat ≤ 0x7E ∧ c ≠ '?' ∧ c ≠ '#'

/-- A scheme and a host. -/
def IsOrigin (url : String) : Prop :=
  ∃ scheme host, url.toList = scheme ++ "://".toList ++ host ∧
    (∀ c ∈ scheme, UrlChar c ∧ c ≠ ':') ∧ ∀ c ∈ host, UrlChar c ∧ c ≠ '/'

/-- The URLs of the uploads `ids` lead back to them. -/
structure RoundTrips (percent : Percent.Codec) (route : Router) (baseUrl requestUrl : Option String)
    (basePath : String) (paths : RoutePaths) (ids : List String) : Prop where
  location : ∀ id ∈ ids,
    (pathOf (uploadUrl percent baseUrl basePath id requestUrl).toList).bind
      (itemId percent route paths) = some id
  concat : ∀ urls, List.Forall₂ (fun url id =>
      url = uploadUrl percent none basePath id none ∨
      url = uploadUrl percent baseUrl basePath id requestUrl) urls ids →
    concatIds basePath ("final;" ++ " ".intercalate urls) = some ids
  head : ∀ (config : Config) (state : UploadState), config.basePath = basePath →
    state.isPartial = false → state.isFinal = true → state.parts = some ids →
    (concatHeader config state).bind (concatIds basePath) = some ids

/-- A base path that ends in a name, without white space, query and fragment. -/
structure GoodBase (basePath : String) : Prop where
  noTrailingSlash : basePath.toList.getLast? ≠ some '/'
  chars : ∀ c ∈ basePath.toList, UrlChar c

/-! ## Paths of URLs -/

theorem hasEmptySegment_iff {cs : Text.Chars} : hasEmptySegment cs = true ↔ ['/', '/'] <:+: cs := by
  induction cs with
  | nil => simp [hasEmptySegment]
  | cons c cs ih =>
    rw [hasEmptySegment, Bool.or_eq_true, ih, List.infix_cons_iff]
    exact or_congr_left List.isPrefixOf_iff_prefix

/-- A separator needs two slashes in a row. -/
theorem splitOnce_eq_none {cs : Text.Chars} (h : ¬['/', '/'] <:+: cs) :
    urlPath.splitOnce cs = none := by
  induction cs with
  | nil => rfl
  | cons c cs ih =>
    rw [List.infix_cons_iff, not_or] at h
    rw [urlPath.splitOnce, if_neg, ih h.2]
    intro hcolon
    obtain ⟨rest, hrest⟩ := List.isPrefixOf_iff_prefix.mp hcolon
    refine h.2 ⟨[], rest, ?_⟩
    exact (List.cons.inj hrest).2

theorem splitOnce_scheme {scheme rest : Text.Chars} (h : ':' ∉ scheme) :
    urlPath.splitOnce (scheme ++ "://".toList ++ rest) = some rest := by
  induction scheme with
  | nil => rfl
  | cons c cs ih =>
    rw [List.cons_append, List.cons_append, urlPath.splitOnce, if_neg,
      ih fun hm => h (List.mem_cons_of_mem c hm)]
    intro hcolon
    obtain ⟨_, hrest⟩ := List.isPrefixOf_iff_prefix.mp hcolon
    exact h ((List.cons.inj hrest).1 ▸ List.mem_cons_self)

/-- What follows a separator has two slashes fewer. -/
theorem splitOnce_count {cs rest : Text.Chars} (h : urlPath.splitOnce cs = some rest) :
    rest.count '/' + 2 ≤ cs.count '/' := by
  induction cs with
  | nil => cases h
  | cons c cs ih =>
    rw [urlPath.splitOnce] at h
    split at h
    · next hcolon =>
      obtain ⟨tail, htail⟩ := List.isPrefixOf_iff_prefix.mp hcolon
      have hsep : "://".toList = [':', '/', '/'] := rfl
      rw [hsep] at htail
      obtain ⟨rfl, rfl⟩ := List.cons.inj htail
      cases h
      simp
    · exact (ih h).trans List.count_le_count_cons

theorem routePaths_ok {basePath : String} {paths : RoutePaths}
    (h : routePaths basePath = .ok paths) :
    basePath.toList.head? = some '/' ∧ '{' ∉ basePath.toList ∧
      ¬['/', '/'] <:+: basePath.toList := by
  unfold routePaths at h
  dsimp only at h
  split at h
  · cases h
  · next hraw =>
    simp only [Bool.or_eq_true, decide_eq_true_eq, not_or, not_not, List.contains_iff_mem,
      hasEmptySegment_iff] at hraw
    exact ⟨hraw.1.1.1, hraw.1.1.2, hraw.2⟩

section Urls

variable {base segment path : Text.Chars} {basePath : String}

/-- A segment after a path that does not end in a slash. -/
theorem no_empty_segment (hbase : ¬['/', '/'] <:+: base) (hlast : base.getLast? ≠ some '/')
    (hsegment : '/' ∉ segment) : ¬['/', '/'] <:+: base ++ '/' :: segment := by
  induction base with
  | nil =>
    rw [List.nil_append, List.infix_cons_iff, List.cons_prefix_cons]
    rintro (⟨-, h⟩ | h)
    · exact hsegment (h.subset List.mem_cons_self)
    · exact hsegment (h.subset List.mem_cons_self)
  | cons c cs ih =>
    rw [List.infix_cons_iff, not_or] at hbase
    rw [List.cons_append, List.infix_cons_iff, List.cons_prefix_cons]
    rintro (⟨rfl, h⟩ | h)
    · cases cs with
      | nil => exact hlast rfl
      | cons d ds =>
        rw [List.cons_append, List.cons_prefix_cons] at h
        refine hbase.1 (List.cons_prefix_cons.mpr ⟨rfl, List.cons_prefix_cons.mpr ⟨h.1, ?_⟩⟩)
        exact List.nil_prefix
    · refine ih hbase.2 ?_ h
      cases cs with
      | nil => exact nofun
      | cons d ds => rwa [List.getLast?_cons_cons] at hlast

theorem takeWhile_url (h : ∀ c ∈ path, UrlChar c) :
    (path.takeWhile fun c => c ≠ '?' && c ≠ '#') = path := by
  have hall : ∀ c ∈ path, decide (c ≠ '?') && decide (c ≠ '#') := fun c hc => by
    simp [(h c hc).2.2.1, (h c hc).2.2.2]
  exact List.takeWhile_eq_self_iff.mpr hall

theorem pathOf_relative (hno : ¬['/', '/'] <:+: path) (h : ∀ c ∈ path, UrlChar c) :
    pathOf path = some path := by
  rw [pathOf, urlPath, splitOnce_eq_none hno, Option.map_some, takeWhile_url h]

theorem pathOf_absolute {origin : String} (ho : IsOrigin origin) (hpath : path.head? = some '/')
    (h : ∀ c ∈ path, UrlChar c) : pathOf (origin.toList ++ path) = some path := by
  obtain ⟨scheme, host, heq, hscheme, hhost⟩ := ho
  have hsplit : urlPath.splitOnce (scheme ++ "://".toList ++ (host ++ path)) = some (host ++ path) :=
    splitOnce_scheme fun hm => (hscheme ':' hm).2 rfl
  have hslash : (host ++ path).contains '/' = true := by
    rw [List.contains_iff_mem]
    exact List.mem_append_right _ (List.mem_of_mem_head? hpath)
  have hdrop : (host ++ path).dropWhile (fun c => decide (c ≠ '/')) = path := by
    rw [List.dropWhile_append_of_pos fun c hc => decide_eq_true (hhost c hc).2]
    cases path with
    | nil => cases hpath
    | cons c cs =>
      cases hpath
      rfl
  rw [pathOf, heq, List.append_assoc, urlPath, hsplit]
  dsimp only
  rw [hslash, if_pos rfl, hdrop, Option.map_some, takeWhile_url h]

/-- The id after the base path. -/
def partId (basePath : String) (path : Text.Chars) : Option String :=
  let base := basePath.toList
  let start := if base.getLast? = some '/' then base else base ++ ['/']
  if start.isPrefixOf path then
    let id := path.drop start.length
    if id.isEmpty || id.contains '/' then none
    else (UploadId.parse (String.ofList id)).toOption
  else none

theorem extractPartialId_eq (url basePath : String) :
    extractPartialId url basePath = (pathOf url.toList).bind (partId basePath) := by
  rw [extractPartialId, pathOf]
  cases urlPath url.toList with
  | none => rfl
  | some path => rfl

theorem partId_segment (hlast : basePath.toList.getLast? ≠ some '/') (hne : segment ≠ [])
    (hsegment : '/' ∉ segment) :
    partId basePath (basePath.toList ++ '/' :: segment) =
      (UploadId.parse (String.ofList segment)).toOption := by
  have hpath : basePath.toList ++ '/' :: segment = (basePath.toList ++ ['/']) ++ segment := by
    rw [List.append_assoc, List.singleton_append]
  have hstart : (basePath.toList ++ ['/']).isPrefixOf (basePath.toList ++ ['/'] ++ segment) = true :=
    List.isPrefixOf_iff_prefix.mpr (List.prefix_append _ _)
  have hid : (segment.isEmpty || segment.contains '/') = false := by
    simp [hne, hsegment]
  rw [partId, hpath]
  dsimp only
  rw [if_neg hlast, hstart, if_pos rfl, List.drop_left, hid]
  rfl

/-- An id that is found comes after the base path. -/
theorem partId_some {id : String} (h : partId basePath path = some id) :
    ∃ rest, path = (if basePath.toList.getLast? = some '/' then basePath.toList
      else basePath.toList ++ ['/']) ++ rest ∧ '/' ∉ rest := by
  unfold partId at h
  dsimp only at h
  generalize (if basePath.toList.getLast? = some '/' then basePath.toList
    else basePath.toList ++ ['/']) = start at h ⊢
  split at h
  · next hstart =>
    split at h
    · cases h
    · next hid =>
      obtain ⟨rest, hrest⟩ := List.isPrefixOf_iff_prefix.mp hstart
      rw [← hrest, List.drop_left] at hid
      refine ⟨rest, hrest.symm, fun hm => hid ?_⟩
      simp [hm]
  · cases h

end Urls

/-! ## Ids in URLs -/

/-- An encoded id in a URL. -/
def encodedId (percent : Percent.Codec) (id : String) : String :=
  percent.encode pathSegmentEncode id

theorem parse_ne_empty {id : String} (h : UploadId.parse id = .ok id) : id ≠ "" := by
  rintro rfl
  cases h

theorem parse_ok {id id' : String} (h : UploadId.parse id = .ok id') : id' = id := by
  unfold UploadId.parse at h
  split at h
  · cases h
  · split at h
    · cases h
    · split at h
      · exact (Except.ok.inj h).symm
      · cases h

theorem unreserved_url {c : Char} (h : Percent.Kept pathSegmentEncode c) : UrlChar c ∧ c ≠ '/' := by
  have hall : ∀ k : Fin 128, isUnreserved (Char.ofNat k) = true →
      (0x21 ≤ (Char.ofNat k).toNat ∧ (Char.ofNat k).toNat ≤ 0x7E ∧ Char.ofNat k ≠ '?' ∧
        Char.ofNat k ≠ '#') ∧ Char.ofNat k ≠ '/' := by decide +kernel
  have hc := hall ⟨c.toNat, h.1⟩
  rw [Char.ofNat_toNat] at hc
  refine hc ?_
  have hkept := h.2
  rwa [pathSegmentEncode, Bool.not_eq_false'] at hkept

section Ids

variable {percent : Percent.Codec} {id basePath : String}

theorem encodedId_chars (hp : percent.Lawful) :
    ∀ c ∈ (encodedId percent id).toList, UrlChar c ∧ c ≠ '/' := by
  intro c hc
  rcases hp.mem_encode pathSegmentEncode id c hc with rfl | hhex | hkept
  · exact ⟨⟨by decide, by decide, by decide, by decide⟩, by decide⟩
  · have hall : ∀ c ∈ Percent.hexDigits, (0x21 ≤ c.toNat ∧ c.toNat ≤ 0x7E ∧ c ≠ '?' ∧ c ≠ '#') ∧
        c ≠ '/' := Text.forall_of_all (by decide)
    exact hall c hhex
  · exact unreserved_url hkept

theorem encodedId_ne_nil (hp : percent.Lawful) (hid : UploadId.parse id = .ok id) :
    (encodedId percent id).toList ≠ [] := by
  intro h
  have hempty : percent.encode pathSegmentEncode "" = "" :=
    (hp.encode_eq_self pathSegmentEncode "").mpr fun c hc => nomatch hc
  have hdecode := hp.decode_encode pathSegmentEncode id rfl
  have hnone := hp.decode_encode pathSegmentEncode "" rfl
  rw [show percent.encode pathSegmentEncode id = "" from String.toList_eq_nil_iff.mp h] at hdecode
  rw [hempty, hdecode] at hnone
  exact parse_ne_empty hid (Option.some.inj hnone)

/-- The path of an upload. -/
def uploadPath (percent : Percent.Codec) (basePath id : String) : Text.Chars :=
  basePath.toList ++ '/' :: (encodedId percent id).toList

theorem uploadPath_chars (hp : percent.Lawful) (hbase : GoodBase basePath) :
    ∀ c ∈ uploadPath percent basePath id, UrlChar c := by
  intro c hc
  simp only [uploadPath, List.mem_append, List.mem_cons] at hc
  rcases hc with hc | rfl | hc
  · exact hbase.chars c hc
  · exact ⟨by decide, by decide, by decide, by decide⟩
  · exact (encodedId_chars hp c hc).1

theorem uploadUrl_relative :
    (uploadUrl percent none basePath id none).toList = uploadPath percent basePath id := by
  simp [uploadUrl, uploadPath, encodedId]

theorem uploadUrl_toList (baseUrl requestUrl : Option String) :
    (uploadUrl percent baseUrl basePath id requestUrl).toList =
      (baseUrl.or requestUrl).elim [] String.toList ++ uploadPath percent basePath id := by
  rw [uploadUrl]
  cases baseUrl.or requestUrl with
  | none => simp [uploadPath, encodedId]
  | some base => simp [uploadPath, encodedId]

variable {paths : RoutePaths} {baseUrl requestUrl : Option String}

/-- The path of a `Location` is the base path and the encoded id. -/
theorem pathOf_uploadUrl (hp : percent.Lawful) (hpaths : routePaths basePath = .ok paths)
    (hbase : GoodBase basePath) (ho : ∀ url ∈ baseUrl.or requestUrl, IsOrigin url) :
    pathOf (uploadUrl percent baseUrl basePath id requestUrl).toList =
      some (uploadPath percent basePath id) := by
  obtain ⟨hslash, -, hempty⟩ := routePaths_ok hpaths
  have hchars : ∀ c ∈ uploadPath percent basePath id, UrlChar c := uploadPath_chars hp hbase
  rw [uploadUrl_toList]
  cases hor : baseUrl.or requestUrl with
  | none =>
    refine pathOf_relative (no_empty_segment hempty hbase.noTrailingSlash ?_) hchars
    exact fun h => (encodedId_chars hp '/' h).2 rfl
  | some url =>
    refine pathOf_absolute (ho url hor) ?_ hchars
    rw [uploadPath, List.head?_append, hslash]
    rfl

theorem extract_url (hp : percent.Lawful) (hpaths : routePaths basePath = .ok paths)
    (hbase : GoodBase basePath) (ho : ∀ url ∈ baseUrl.or requestUrl, IsOrigin url)
    (hid : UploadId.parse id = .ok id) :
    extractPartialId (uploadUrl percent baseUrl basePath id requestUrl) basePath =
      (UploadId.parse (encodedId percent id)).toOption := by
  have hslash : '/' ∉ (encodedId percent id).toList := fun h => (encodedId_chars hp '/' h).2 rfl
  rw [extractPartialId_eq, pathOf_uploadUrl hp hpaths hbase ho, Option.bind_some, uploadPath,
    partId_segment hbase.noTrailingSlash (encodedId_ne_nil hp hid) hslash, String.ofList_toList]

theorem routePaths_upload (hpaths : routePaths basePath = .ok paths) (hbase : GoodBase basePath) :
    paths.upload.toList = basePath.toList ++ "/{upload_id}".toList := by
  have hroot : basePath.toList ≠ ['/'] := fun h => hbase.noTrailingSlash (by rw [h]; rfl)
  unfold routePaths at hpaths
  dsimp only at hpaths
  split at hpaths
  · cases hpaths
  · cases hpaths
    simp [hbase.noTrailingSlash, hroot]

/-- A `Location` leads to the upload it was made for, whatever characters its id has. -/
theorem location_item {route : Router} (hp : percent.Lawful) (hroute : route.Lawful)
    (hpaths : routePaths basePath = .ok paths) (hbase : GoodBase basePath)
    (ho : ∀ url ∈ baseUrl.or requestUrl, IsOrigin url) (hid : UploadId.parse id = .ok id) :
    (pathOf (uploadUrl percent baseUrl basePath id requestUrl).toList).bind
      (itemId percent route paths) = some id := by
  obtain ⟨-, hbrace, -⟩ := routePaths_ok hpaths
  have hslash : '/' ∉ (encodedId percent id).toList := fun h => (encodedId_chars hp '/' h).2 rfl
  have hsegment : route paths.upload.toList (uploadPath percent basePath id) =
      some (encodedId percent id).toList := by
    rw [routePaths_upload hpaths hbase]
    exact hroute _ _ hbrace (encodedId_ne_nil hp hid) hslash
  have hdecode : percent.decode (encodedId percent id) = some id :=
    hp.decode_encode pathSegmentEncode id rfl
  rw [pathOf_uploadUrl hp hpaths hbase ho, Option.bind_some, itemId, hsegment]
  simp only [Option.bind_eq_bind, Option.bind_some, String.ofList_toList, hdecode, hid]
  rfl

end Ids

/-! ## The Upload-Concat parser -/

theorem UrlChar.visible {c : Char} (h : UrlChar c) : 32 ≤ c.toNat ∧ c.toNat < 127 :=
  ⟨Nat.le_of_succ_le h.1, Nat.lt_succ_of_le h.2.1⟩

theorem UrlChar.not_whitespace {c : Char} (h : UrlChar c) : c.isWhitespace = false := by
  by_contra hw
  rw [Bool.not_eq_false, Char.isWhitespace] at hw
  simp only [Bool.or_eq_true, decide_eq_true_eq] at hw
  rcases hw with ((rfl | rfl) | rfl) | rfl <;> exact absurd h.1 (by decide)

/-- A text that is read from a header is visible ASCII. -/
theorem toStr_chars {raw : Bytes} {value : String} (h : toStr raw = some value) :
    ∀ c ∈ value.toList, c.isWhitespace = false → 0x21 ≤ c.toNat ∧ c.toNat ≤ 0x7E := by
  unfold toStr Text.read at h
  split at h
  · next hall =>
    cases h
    rw [String.toList_ofList]
    intro c hc hspace
    obtain ⟨b, hb, rfl⟩ := List.mem_map.mp hc
    have hvisible : ∀ k : Fin 256, Text.visible (UInt8.ofNat k) = true →
        (Text.charOf (UInt8.ofNat k)).isWhitespace = false →
        0x21 ≤ (Text.charOf (UInt8.ofNat k)).toNat ∧
          (Text.charOf (UInt8.ofNat k)).toNat ≤ 0x7E := by decide +kernel
    have hk := hvisible ⟨b.toNat, b.toNat_lt⟩
    rw [UInt8.ofNat_toNat] at hk
    exact hk (List.all_eq_true.mp hall b hb) hspace
  · cases h

section Concat

variable {basePath : String} {urls ids : List String}

/-- A list of URLs is read as it is written. -/
theorem concatIds_urls (hne : urls ≠ []) (h : ∀ url ∈ urls, url.toList ≠ [] ∧
    ∀ c ∈ url.toList, UrlChar c) :
    concatIds basePath ("final;" ++ " ".intercalate urls) =
      urls.mapM fun url => extractPartialId url basePath := by
  have hjoin : ("final;" ++ " ".intercalate urls).toList =
      "final;".toList ++ [' '].intercalate (urls.map String.toList) := by
    rw [String.toList_append, String.toList_intercalate]
    rfl
  have hread : toStr (headerBytes ("final;" ++ " ".intercalate urls)) =
      some ("final;" ++ " ".intercalate urls) := by
    refine toStr_headerBytes fun c hc => ?_
    rw [hjoin, List.mem_append] at hc
    rcases hc with hc | hc
    · have hfinal : ∀ c ∈ "final;".toList, 32 ≤ c.toNat ∧ c.toNat < 127 :=
        Text.forall_of_all (by decide)
      exact hfinal c hc
    · obtain rfl | ⟨piece, hpiece, hc⟩ := Text.mem_intercalate hc
      · decide
      · obtain ⟨url, hurl, rfl⟩ := List.mem_map.mp hpiece
        exact ((h url hurl).2 c hc).visible
  have hwords : Text.words ([' '].intercalate (urls.map String.toList)) =
      urls.map String.toList := by
    refine Text.words_intercalate fun word hword => ?_
    obtain ⟨url, hurl, rfl⟩ := List.mem_map.mp hword
    exact ⟨(h url hurl).1, fun c hc => ((h url hurl).2 c hc).not_whitespace⟩
  have hdrop : ("final;" ++ " ".intercalate urls).toList.drop 6 =
      [' '].intercalate (urls.map String.toList) := by
    rw [hjoin]
    rfl
  have hother : ("final;" ++ " ".intercalate urls) ≠ "partial" := by
    intro h
    have hchars := hjoin
    rw [h] at hchars
    exact absurd (List.cons.inj hchars).1 (by decide)
  have hstarts : "final;".toList.isPrefixOf ("final;" ++ " ".intercalate urls).toList = true := by
    rw [List.isPrefixOf_iff_prefix, hjoin]
    exact List.prefix_append _ _
  have hback : (urls.map String.toList).map String.ofList = urls := by
    simp [List.map_map, Function.comp_def]
  have hparse : parseUploadConcat [("upload-concat",
      headerBytes ("final;" ++ " ".intercalate urls))] = .ok (some (.finalUpload urls)) := by
    have htext : HeaderMap.text [("upload-concat",
        headerBytes ("final;" ++ " ".intercalate urls))] "upload-concat" =
        some ("final;" ++ " ".intercalate urls) := hread
    rw [parseUploadConcat, htext]
    dsimp only
    rw [if_neg hother, hstarts, if_pos rfl, hdrop, hwords]
    cases urls with
    | nil => exact absurd rfl hne
    | cons url urls => exact congrArg (Except.ok ∘ some ∘ UploadConcat.finalUpload) hback
  rw [concatIds, hparse]

/-- The words of a header of which all parts are found. -/
theorem concatIds_some {value : String} (h : concatIds basePath value = some ids) :
    ∃ words : List Text.Chars, words ≠ [] ∧
      (∀ word ∈ words, ∀ c ∈ word, 0x21 ≤ c.toNat ∧ c.toNat ≤ 0x7E) ∧
      words.mapM (fun word => (pathOf word).bind (partId basePath)) = some ids := by
  unfold concatIds at h
  split at h
  · next urls hparse =>
    have htext : ∃ text, HeaderMap.text [("upload-concat", headerBytes value)] "upload-concat" =
        some text ∧ Text.words (text.toList.drop 6) ≠ [] ∧
        urls = (Text.words (text.toList.drop 6)).map String.ofList := by
      unfold parseUploadConcat at hparse
      split at hparse
      · cases hparse
      · next text htext =>
        split at hparse
        · cases hparse
        · split at hparse
          · split at hparse
            · cases hparse
            · next hwords =>
              cases hparse
              exact ⟨text, htext, hwords, rfl⟩
          · cases hparse
    obtain ⟨text, htext, hne, rfl⟩ := htext
    refine ⟨_, hne, fun word hword c hc => ?_, ?_⟩
    · obtain ⟨hmem, hspace⟩ := (Text.mem_words hword).2 c hc
      exact toStr_chars htext c (List.mem_of_mem_drop hmem) hspace
    · rw [List.mapM_map] at h
      simpa [extractPartialId_eq, Function.comp_def] using h
  · cases h

theorem mapM_some_mem {α β : Type} {f : α → Option β} {xs : List α} {ys : List β}
    (h : xs.mapM f = some ys) : ∀ x ∈ xs, ∃ y, f x = some y := by
  induction xs generalizing ys with
  | nil => exact fun x hx => nomatch hx
  | cons x xs ih =>
    rw [List.mapM_cons] at h
    cases hx : f x with
    | none =>
      rw [hx] at h
      cases h
    | some y =>
      cases hxs : xs.mapM f with
      | none =>
        rw [hx, hxs] at h
        cases h
      | some ys' =>
        intro z hz
        rcases List.mem_cons.mp hz with rfl | hz
        · exact ⟨y, hx⟩
        · exact ih hxs z hz

/-- A map that gives a list back gives each of its elements back. -/
theorem mapM_fixes_iff {α : Type} {f : α → Option α} {xs : List α} :
    xs.mapM f = some xs ↔ ∀ x ∈ xs, f x = some x := by
  induction xs with
  | nil => simp
  | cons x xs ih =>
    rw [List.mapM_cons, List.forall_mem_cons, ← ih]
    cases f x with
    | none => simp
    | some y =>
      cases xs.mapM f with
      | none => simp
      | some ys => simp

theorem splitOnce_mem {cs rest : Text.Chars} (h : urlPath.splitOnce cs = some rest) :
    ∀ c ∈ rest, c ∈ cs := by
  induction cs with
  | nil => cases h
  | cons d ds ih =>
    rw [urlPath.splitOnce] at h
    split at h
    · cases h
      exact fun c hc => List.mem_cons_of_mem d (List.mem_of_mem_drop hc)
    · exact fun c hc => List.mem_cons_of_mem d (ih h c hc)

/-- The path of a URL is the URL up to its end, or has two slashes fewer. -/
theorem pathOf_some {url path : Text.Chars} (h : pathOf url = some path) :
    (∀ c ∈ path, c ∈ url ∧ c ≠ '?' ∧ c ≠ '#') ∧
      (path = (url.takeWhile fun c => c ≠ '?' && c ≠ '#') ∨
        path.count '/' + 2 ≤ url.count '/') := by
  obtain ⟨whole, hwhole, rfl⟩ := Option.map_eq_some_iff.mp h
  have hend : ∀ c ∈ (whole.takeWhile fun c => c ≠ '?' && c ≠ '#'), c ≠ '?' ∧ c ≠ '#' := by
    intro c hc
    simpa using List.mem_takeWhile_imp hc
  unfold urlPath at hwhole
  split at hwhole
  · next rest hsplit =>
    split at hwhole
    · cases hwhole
      refine ⟨fun c hc => ⟨?_, hend c hc⟩, .inr ?_⟩
      · exact splitOnce_mem hsplit c ((List.dropWhile_suffix _).subset
          ((List.takeWhile_prefix _).subset hc))
      · refine le_trans (Nat.add_le_add_right ?_ 2) (splitOnce_count hsplit)
        exact ((List.takeWhile_prefix _).sublist.trans
          (List.dropWhile_suffix _).sublist).count_le '/'
    · cases hwhole
  · cases hwhole
    exact ⟨fun c hc => ⟨(List.takeWhile_prefix _).subset hc, hend c hc⟩, .inl rfl⟩

/-- A base path under which a listed upload is found has no character that ends a path. -/
theorem base_chars {value : String} (h : concatIds basePath value = some ids) :
    ∀ c ∈ basePath.toList, UrlChar c := by
  obtain ⟨words, hne, hchars, hids⟩ := concatIds_some h
  obtain ⟨word, rest, rfl⟩ := List.exists_cons_of_ne_nil hne
  obtain ⟨id, hid⟩ := mapM_some_mem hids word List.mem_cons_self
  obtain ⟨path, hpath, hpart⟩ := Option.bind_eq_some_iff.mp hid
  obtain ⟨after, hafter, -⟩ := partId_some hpart
  intro c hc
  have hmem : c ∈ path := by
    rw [hafter]
    split
    · exact List.mem_append_left _ hc
    · exact List.mem_append_left _ (List.mem_append_left _ hc)
  obtain ⟨hword, hquery, hfragment⟩ := (pathOf_some hpath).1 c hmem
  obtain ⟨hlow, hhigh⟩ := hchars word List.mem_cons_self c hword
  exact ⟨hlow, hhigh, hquery, hfragment⟩

/-- Under a base path that ends in a slash no id is found after the slash that is written. -/
theorem partId_trailing {segment : Text.Chars} (hslash : basePath.toList.getLast? = some '/')
    (hchars : ∀ c ∈ basePath.toList ++ '/' :: segment, UrlChar c) (hsegment : '/' ∉ segment) :
    (pathOf (basePath.toList ++ '/' :: segment)).bind (partId basePath) = none := by
  rw [Option.eq_none_iff_forall_ne_some]
  intro id hid
  obtain ⟨path, hpath, hpart⟩ := Option.bind_eq_some_iff.mp hid
  obtain ⟨after, hafter, hplain⟩ := partId_some hpart
  rw [if_pos hslash] at hafter
  have hcount : path.count '/' = basePath.toList.count '/' := by
    rw [hafter, List.count_append, List.count_eq_zero_of_not_mem hplain, Nat.add_zero]
  have hurl : (basePath.toList ++ '/' :: segment).count '/' = basePath.toList.count '/' + 1 := by
    rw [List.count_append, List.count_cons_self, List.count_eq_zero_of_not_mem hsegment]
  rcases (pathOf_some hpath).2 with hwhole | hfewer
  · rw [takeWhile_url hchars] at hwhole
    rw [hwhole] at hcount
    omega
  · omega

end Concat

/-! ## The round trips -/

section RoundTrips

variable {percent : Percent.Codec} {route : Router} {basePath : String} {paths : RoutePaths}
  {baseUrl requestUrl : Option String} {ids : List String}

/-- The paths of uploads, joined as a header lists them. -/
theorem relative_urls (hp : percent.Lawful) (hchars : ∀ c ∈ basePath.toList, UrlChar c) :
    ∀ url ∈ ids.map fun id => uploadUrl percent none basePath id none,
      url.toList ≠ [] ∧ ∀ c ∈ url.toList, UrlChar c := by
  intro url hurl
  obtain ⟨id, -, rfl⟩ := List.mem_map.mp hurl
  rw [uploadUrl_relative, uploadPath]
  refine ⟨by simp, fun c hc => ?_⟩
  simp only [List.mem_append, List.mem_cons] at hc
  rcases hc with hc | rfl | hc
  · exact hchars c hc
  · exact ⟨by decide, by decide, by decide, by decide⟩
  · exact (encodedId_chars hp c hc).1

/-- What listed relative URLs say about the base path and the ids. -/
theorem concat_clean (hp : percent.Lawful) (hpaths : routePaths basePath = .ok paths)
    (hids : ∀ id ∈ ids, UploadId.parse id = .ok id) (hne : ids ≠ [])
    (h : concatIds basePath ("final;" ++ " ".intercalate
      (ids.map fun id => uploadUrl percent none basePath id none)) = some ids) :
    GoodBase basePath ∧ ∀ id ∈ ids, ∀ c ∈ id.toList, isUnreserved c := by
  have hchars := base_chars h
  rw [concatIds_urls (by simpa using hne) (relative_urls hp hchars), List.mapM_map,
    mapM_fixes_iff] at h
  replace h : ∀ id ∈ ids,
      extractPartialId (uploadUrl percent none basePath id none) basePath = some id := h
  have hbase : GoodBase basePath := by
    refine ⟨fun hslash => ?_, hchars⟩
    obtain ⟨id, rest, rfl⟩ := List.exists_cons_of_ne_nil hne
    have hid := h id List.mem_cons_self
    have hurl : ∀ c ∈ (uploadUrl percent none basePath id none).toList, UrlChar c :=
      (relative_urls hp hchars _ (List.mem_map_of_mem (List.mem_singleton.mpr rfl))).2
    rw [extractPartialId_eq, uploadUrl_relative, uploadPath, partId_trailing hslash] at hid
    · cases hid
    · rwa [uploadUrl_relative] at hurl
    · exact fun hm => (encodedId_chars hp '/' hm).2 rfl
  refine ⟨hbase, fun id hid c hc => ?_⟩
  have hextract := h id hid
  rw [extract_url hp hpaths hbase (by simp) (hids id hid)] at hextract
  have hsame : encodedId percent id = id := by
    cases hparse : UploadId.parse (encodedId percent id) with
    | error e =>
      rw [hparse] at hextract
      cases hextract
    | ok id' =>
      rw [hparse] at hextract
      exact (parse_ok hparse).symm.trans (Option.some.inj hextract)
  have hkept := ((hp.encode_eq_self pathSegmentEncode id).mp hsame c hc).2
  rwa [pathSegmentEncode, Bool.not_eq_false'] at hkept

theorem unreserved_ascii {c : Char} (h : isUnreserved c = true) : c.toNat < 128 := by
  delta isUnreserved Char.isAlphanum Char.isAlpha Char.isUpper Char.isLower Char.isDigit at h
  simp only [Bool.or_eq_true, Bool.and_eq_true, decide_eq_true_eq, ge_iff_le,
    UInt32.le_iff_toNat_le] at h
  show c.val.toNat < 128
  rcases h with (((((h | h) | h) | rfl) | rfl) | rfl) | rfl
  · exact Nat.lt_of_le_of_lt h.2 (by decide)
  · exact Nat.lt_of_le_of_lt h.2 (by decide)
  · exact Nat.lt_of_le_of_lt h.2 (by decide)
  all_goals decide

theorem encodedId_eq (hp : percent.Lawful) {id : String} (h : ∀ c ∈ id.toList, isUnreserved c) :
    encodedId percent id = id := by
  refine (hp.encode_eq_self pathSegmentEncode id).mpr fun c hc => ?_
  exact ⟨unreserved_ascii (h c hc), by rw [pathSegmentEncode, h c hc]; rfl⟩

/-- A URL of an upload as a list of parts may have it. -/
theorem listed_url (hp : percent.Lawful) (hbase : GoodBase basePath)
    (ho : ∀ url ∈ baseUrl.or requestUrl, IsOrigin url) (id : String) :
    (uploadUrl percent baseUrl basePath id requestUrl).toList ≠ [] ∧
      ∀ c ∈ (uploadUrl percent baseUrl basePath id requestUrl).toList, UrlChar c := by
  rw [uploadUrl_toList]
  refine ⟨by simp [uploadPath], fun c hc => ?_⟩
  rcases List.mem_append.mp hc with hc | hc
  · cases hor : baseUrl.or requestUrl with
    | none =>
      rw [hor] at hc
      cases hc
    | some url =>
      rw [hor] at hc
      obtain ⟨scheme, host, heq, hscheme, hhost⟩ := ho url hor
      rw [show (some url).elim [] String.toList = url.toList from rfl, heq] at hc
      simp only [List.mem_append] at hc
      rcases hc with (hc | hc) | hc
      · exact (hscheme c hc).1
      · have hsep : ∀ c ∈ "://".toList, 0x21 ≤ c.toNat ∧ c.toNat ≤ 0x7E ∧ c ≠ '?' ∧ c ≠ '#' :=
          Text.forall_of_all (by decide)
        exact hsep c hc
      · exact (hhost c hc).1
  · exact uploadPath_chars hp hbase c hc

theorem clean_concat (hp : percent.Lawful) (hpaths : routePaths basePath = .ok paths)
    (ho : ∀ url ∈ baseUrl.or requestUrl, IsOrigin url)
    (hids : ∀ id ∈ ids, UploadId.parse id = .ok id) (hne : ids ≠ []) (hbase : GoodBase basePath)
    (hplain : ∀ id ∈ ids, ∀ c ∈ id.toList, isUnreserved c) {urls : List String}
    (hurls : List.Forall₂ (fun url id => url = uploadUrl percent none basePath id none ∨
      url = uploadUrl percent baseUrl basePath id requestUrl) urls ids) :
    concatIds basePath ("final;" ++ " ".intercalate urls) = some ids := by
  have hsound : ∀ url id, UploadId.parse id = .ok id → (∀ c ∈ id.toList, isUnreserved c) →
      (url = uploadUrl percent none basePath id none ∨
        url = uploadUrl percent baseUrl basePath id requestUrl) →
      (url.toList ≠ [] ∧ ∀ c ∈ url.toList, UrlChar c) ∧ extractPartialId url basePath = some id := by
    rintro url id hid hchars (rfl | rfl)
    · refine ⟨listed_url hp hbase (by simp) id, ?_⟩
      rw [extract_url hp hpaths hbase (by simp) hid, encodedId_eq hp hchars, hid]
      rfl
    · refine ⟨listed_url hp hbase ho id, ?_⟩
      rw [extract_url hp hpaths hbase ho hid, encodedId_eq hp hchars, hid]
      rfl
  have hall : (∀ url ∈ urls, url.toList ≠ [] ∧ ∀ c ∈ url.toList, UrlChar c) ∧
      urls.mapM (fun url => extractPartialId url basePath) = some ids := by
    clear hne
    induction hurls with
    | nil => exact ⟨by simp, rfl⟩
    | @cons url id urls ids hurl _ ih =>
      obtain ⟨hchars, hid⟩ := hsound url id (hids id List.mem_cons_self)
        (hplain id List.mem_cons_self) hurl
      obtain ⟨hrest, hmap⟩ := ih (fun i hi => hids i (List.mem_cons_of_mem id hi))
        fun i hi => hplain i (List.mem_cons_of_mem id hi)
      refine ⟨List.forall_mem_cons.mpr ⟨hchars, hrest⟩, ?_⟩
      rw [List.mapM_cons, hid, hmap]
      rfl
  have hlisted : urls ≠ [] := by
    rintro rfl
    cases hurls
    exact hne rfl
  rw [concatIds_urls hlisted hall.1, hall.2]

/-- The URLs of uploads lead back to them exactly if the base path ends in a name and has no
character that ends a path or a URL in a list, and the ids have unreserved characters only. -/
theorem url_round_trips_iff (hp : percent.Lawful) (hroute : route.Lawful)
    (hpaths : routePaths basePath = .ok paths) (ho : ∀ url ∈ baseUrl.or requestUrl, IsOrigin url)
    (hids : ∀ id ∈ ids, UploadId.parse id = .ok id) (hne : ids ≠ []) :
    RoundTrips percent route baseUrl requestUrl basePath paths ids ↔
      GoodBase basePath ∧ ∀ id ∈ ids, ∀ c ∈ id.toList, isUnreserved c := by
  constructor
  · intro h
    refine concat_clean hp hpaths hids hne (h.concat _ ?_)
    rw [List.forall₂_map_left_iff]
    exact List.forall₂_same.mpr fun id _ => .inl rfl
  · rintro ⟨hbase, hplain⟩
    refine ⟨fun id hid => location_item hp hroute hpaths hbase ho (hids id hid),
      fun urls hurls => clean_concat hp hpaths ho hids hne hbase hplain hurls, ?_⟩
    intro config state hconfig hpartial hfinal hparts
    have hurls : List.Forall₂ (fun url id => url = uploadUrl percent none basePath id none ∨
        url = uploadUrl percent baseUrl basePath id requestUrl)
        (ids.map fun id => config.basePath ++ "/" ++ id) ids := by
      rw [List.forall₂_map_left_iff]
      refine List.forall₂_same.mpr fun id hid => .inl ?_
      rw [uploadUrl, ← encodedId, encodedId_eq hp (hplain id hid), hconfig]
      rfl
    have hheader : concatHeader config state =
        some ("final;" ++ " ".intercalate (ids.map fun id => config.basePath ++ "/" ++ id)) := by
      rw [concatHeader, hpartial, hfinal, hparts]
      cases ids with
      | nil => exact absurd rfl hne
      | cons id ids => rfl
    rw [hheader, Option.bind_some]
    exact clean_concat hp hpaths ho hids hne hbase hplain hurls

end RoundTrips

/-- A router for templates that end in a capture. -/
def segmentRoute : Router := fun template path =>
  let base := template.take (template.length - "/{upload_id}".toList.length)
  if (base ++ ['/']).isPrefixOf path then
    let segment := path.drop (base.length + 1)
    if segment.contains '/' then none else some segment
  else none

theorem segmentRoute_lawful : segmentRoute.Lawful := by
  intro base segment _ _ hsegment
  have hbase : (base ++ "/{upload_id}".toList).take
      ((base ++ "/{upload_id}".toList).length - "/{upload_id}".toList.length) = base := by
    rw [List.length_append, Nat.add_sub_cancel, List.take_left]
  have hpath : base ++ '/' :: segment = (base ++ ['/']) ++ segment := by simp
  have hstart : (base ++ ['/']).isPrefixOf (base ++ ['/'] ++ segment) = true :=
    List.isPrefixOf_iff_prefix.mpr (List.prefix_append _ _)
  have hdrop : (base ++ ['/'] ++ segment).drop (base.length + 1) = segment := by
    rw [← List.length_singleton (a := '/'), ← List.length_append, List.drop_left]
  have hplain : segment.contains '/' = false := by simpa using hsegment
  rw [segmentRoute]
  dsimp only
  rw [hbase, hpath, hstart, if_pos rfl, hdrop, hplain]
  rfl

theorem url_round_trips_two :
    RoundTrips Percent.standard segmentRoute none (some "https://host") "/files"
      ⟨"/files", "/files/{upload_id}"⟩ ["a", "b-1"] := by
  refine (url_round_trips_iff Percent.standard_lawful segmentRoute_lawful rfl ?_ ?_ ?_).mpr ?_
  · rintro url ⟨⟩
    exact ⟨"https".toList, "host".toList, rfl, by simp [UrlChar], by simp [UrlChar]⟩
  · decide
  · decide
  · exact ⟨⟨by decide, by simp [UrlChar]⟩, by simp [isUnreserved]⟩

/-- At the root path, a `Location` and the URLs of a HEAD have a slash too many. -/
theorem root_location_lost :
    routePaths "/" = .ok ⟨"/", "/{upload_id}"⟩ ∧
    uploadUrl Percent.standard none "/" "a" none = "//a" ∧
    segmentRoute "/{upload_id}".toList "//a".toList = none ∧
    concatIds "/" "final;//a" = none ∧
    ¬RoundTrips Percent.standard segmentRoute none none "/" ⟨"/", "/{upload_id}"⟩ ["a"] := by
  refine ⟨rfl, by decide, by decide, by decide, fun h => ?_⟩
  have hconcat := h.concat ["//a"] (.cons (.inl (by decide)) .nil)
  exact absurd hconcat (by decide)

end Protocol

end TusRs
