import TusRs.Opendal.Store
import TusRs.Paths
import TusRs.Protocol.UploadId

/-!
# The keyspace of an upload

Every object of an upload has a key under the upload's own `{key}/`. What two keys have to
do with each other depends on how the operator normalises a path and on whether the service
behind it reads dot segments.

Results:

* `keyspaces_isolated_iff`: when the keys of two uploads have nothing to do with each other.
-/

namespace TusRs

open Paths

namespace Opendal

/-! ## Keys -/

/-- `OpendalStorage::with_prefix`: trailing slashes are normalised away. -/
def withPrefix (pre : List Char) : List Char := pre.rdropWhile (· == '/')

/-- `make_key`, for the prefix that `with_prefix` keeps. -/
def makeKey (pre id : List Char) : List Char :=
  if (withPrefix pre).isEmpty then id else withPrefix pre ++ '/' :: id

/-- The purposes of temporary objects. -/
def purposes : List String := ["finalize", "repair", "concat", "part"]

/-- What the storage names for one upload: an object, or a prefix that it lists or deletes. -/
inductive Named where
  | object (k : Key)
  | pre (p : Prefix)

/-- Temporaries are made for the purposes the code has. -/
def Named.Used : Named → Prop
  | .object (.temp purpose _) => purpose ∈ purposes
  | _ => True

/-- `main_key`, `part_key`, `temp_key`, `completion_marker_key`, `parts_prefix`,
`temp_prefix` and `container_prefix`. -/
def Named.path (key : List Char) : Named → List Char
  | .object k => key ++ '/' :: k.name
  | .pre p => key ++ '/' :: p.name

def Named.isPrefix : Named → Bool
  | .object _ => false
  | .pre _ => true

/-! ## Paths of the operator -/

/-- `char::is_whitespace`: the Unicode property White_Space. -/
def isWhiteSpace (c : Char) : Bool :=
  (0x9 ≤ c.toNat && c.toNat ≤ 0xd) || c.toNat == 0x20 || c.toNat == 0x85 || c.toNat == 0xa0 ||
  c.toNat == 0x1680 || (0x2000 ≤ c.toNat && c.toNat ≤ 0x200a) || c.toNat == 0x2028 ||
  c.toNat == 0x2029 || c.toNat == 0x202f || c.toNat == 0x205f || c.toNat == 0x3000

/-- `normalize_path` of OpenDAL, through which every path goes: whitespace at both ends and
slashes at the front are trimmed, repeated slashes are one, and the empty path is `/`. -/
def normalizePath (path : List Char) : List Char :=
  let trimmed := ((path.dropWhile isWhiteSpace).rdropWhile isWhiteSpace).dropWhile (· == '/')
  if trimmed.isEmpty then ['/']
  else if trimmed.getLast? = some '/' then ['/'].intercalate (segments trimmed) ++ ['/']
  else ['/'].intercalate (segments trimmed)

/-- The services behind an operator: a flat object store, or one that is a file system. -/
inductive Service where
  | flat
  | filesystem
deriving DecidableEq

/-- Where names lead from a directory. -/
def Service.walk (service : Service) (dir names : List Name) : List Name :=
  match service with
  | .flat => dir ++ names
  | .filesystem => follow dir names

/-- Where a path of the operator ends up, under the root it was configured with. -/
def Service.resolve (service : Service) (root : List Name) (path : List Char) : List Name :=
  service.walk root (segments (normalizePath path))

/-- The first path is the second, or lies under it where that is a prefix. -/
def Reaches (service : Service) (root : List Name) (x : List Char) (key : List Char) (y : Named) :
    Prop :=
  service.resolve root x = service.resolve root (y.path key) ∨
  y.isPrefix = true ∧ service.resolve root (y.path key) <+: service.resolve root x

/-- Nothing that the storage names for one of two keys is named for the other or lies under
a prefix named for it. -/
def Isolated (service : Service) (root : List Name) (a b : List Char) : Prop :=
  ∀ x y : Named, x.Used → y.Used →
    ¬Reaches service root (x.path a) b y ∧ ¬Reaches service root (y.path b) a x

/-! ## Names under a key -/

section Names

/-- Normalising does not touch the names of a path. -/
theorem segments_normalizePath (path : List Char) :
    segments (normalizePath path) =
      segments ((path.dropWhile isWhiteSpace).rdropWhile isWhiteSpace) := by
  rw [← segments_dropWhile_slash ((path.dropWhile isWhiteSpace).rdropWhile isWhiteSpace)]
  unfold normalizePath
  generalize ((path.dropWhile isWhiteSpace).rdropWhile isWhiteSpace).dropWhile (· == '/') = trimmed
  have hjoin : segments (['/'].intercalate (segments trimmed)) = segments trimmed :=
    segments_intercalate fun name hn => ⟨mem_segments hn, fun hc => (mem_of_mem_segments hn hc).2 rfl⟩
  dsimp only
  split
  · next h => rw [List.isEmpty_iff.mp h]; rfl
  · split
    · rw [segments_append_slash, hjoin, segments_nil, List.append_nil]
    · exact hjoin

/-- The names of a key and of what is named under it. -/
theorem segments_path {key rest : List Char} (h : ∀ c, rest.getLast? = some c → isWhiteSpace c = false) :
    segments (normalizePath (key ++ '/' :: rest)) =
      segments (key.dropWhile isWhiteSpace) ++ segments rest := by
  rw [segments_normalizePath, Text.dropWhile_append_cons (by decide)]
  have hkeep : (key.dropWhile isWhiteSpace ++ '/' :: rest).rdropWhile isWhiteSpace =
      key.dropWhile isWhiteSpace ++ '/' :: rest := by
    rw [List.rdropWhile_eq_self_iff]
    intro hne
    rw [List.getLast_append_of_right_ne_nil _ _ (List.cons_ne_nil _ _)]
    cases hrest : rest.getLast? with
    | none =>
      obtain rfl := List.getLast?_eq_none_iff.mp hrest
      decide
    | some c =>
      obtain ⟨init, rfl⟩ := List.getLast?_eq_some_iff.mp hrest
      simp [h c hrest]
  rw [hkeep, segments_append_slash]

/-- The name of the upload's directory as the operator sees it: without a prefix the
whitespace in front of the id is trimmed. -/
def storedName (pre id : List Char) : Name :=
  if (withPrefix pre).isEmpty then id.dropWhile isWhiteSpace else id

/-- The directory of the prefix. -/
def prefixNames (pre : List Char) : List Name := segments ((withPrefix pre).dropWhile isWhiteSpace)

/-- The names of an id's own directory, below that of the prefix. -/
def ownNames (pre id : List Char) : List Name :=
  if storedName pre id = [] then [] else [storedName pre id]

theorem segments_makeKey {pre id : List Char} (hid : '/' ∉ id) :
    segments ((makeKey pre id).dropWhile isWhiteSpace) = prefixNames pre ++ ownNames pre id := by
  unfold makeKey prefixNames ownNames storedName
  cases h : (withPrefix pre).isEmpty with
  | true =>
    rw [List.isEmpty_iff.mp h]
    have hdrop : '/' ∉ id.dropWhile isWhiteSpace := fun hm =>
      hid ((List.dropWhile_sublist _).mem hm)
    exact segments_of_not_mem hdrop
  | false =>
    simp only [Bool.false_eq_true, if_false]
    rw [Text.dropWhile_append_cons (by decide), segments_append_slash, segments_of_not_mem hid]

/-- The part of a key after the upload's own. -/
def Named.rest : Named → List Char
  | .object k => k.name
  | .pre p => p.name

theorem Named.path_eq (key : List Char) (x : Named) : x.path key = key ++ '/' :: x.rest := by
  cases x <;> rfl

/-- Neither a dot nor whitespace. -/
def Tame (c : Char) : Prop := c ≠ '.' ∧ isWhiteSpace c = false

instance (c : Char) : Decidable (Tame c) := inferInstanceAs (Decidable (_ ∧ _))

theorem tame_digitChar {d : Nat} (h : d < 16) : Tame d.digitChar := by
  revert d
  decide

theorem tame_toDigits {b n : Nat} (hb : 1 < b) (hb' : b ≤ 16) : ∀ c ∈ Nat.toDigits b n, Tame c := by
  intro c hc
  obtain ⟨d, hd, rfl⟩ := mem_toDigits hb hc
  exact tame_digitChar (Nat.lt_of_lt_of_le hd hb')

/-- Digits with zeros in front. -/
theorem tame_zeros {k b n : Nat} (hb : 1 < b) (hb' : b ≤ 16) :
    ∀ c ∈ List.replicate k '0' ++ Nat.toDigits b n, Tame c := by
  intro c hc
  rcases List.mem_append.mp hc with hc | hc
  · rw [List.eq_of_mem_replicate hc]
    decide
  · exact tame_toDigits hb hb' c hc

theorem tame_purpose {purpose : String} (h : purpose ∈ purposes) :
    ∀ c ∈ purpose.toList, Tame c := by
  have hall : (purposes.all fun p => p.toList.all fun c => decide (Tame c)) = true := by decide
  exact Text.forall_of_all (List.all_eq_true.mp hall purpose h)

/-- Below the upload's own directory there is neither a dot nor whitespace. -/
theorem tame_rest {x : Named} (h : x.Used) : ∀ c ∈ x.rest, Tame c := by
  cases x with
  | pre p => cases p <;> exact Text.forall_of_all (by decide)
  | object k =>
    cases k with
    | main => exact Text.forall_of_all (by decide)
    | complete => exact Text.forall_of_all (by decide)
    | part n =>
      have hparts : ∀ c ∈ "parts/".toList, Tame c := Text.forall_of_all (by decide)
      intro c hc
      rcases List.mem_append.mp hc with hc | hc
      · exact hparts c hc
      · exact tame_zeros (by decide) (by decide) c hc
    | temp purpose uuid =>
      have htmp : ∀ c ∈ "tmp/".toList, Tame c := Text.forall_of_all (by decide)
      intro c hc
      rcases List.mem_append.mp hc with hc | hc
      · rcases List.mem_append.mp hc with hc | hc
        · exact htmp c hc
        · exact tame_purpose h c hc
      · rcases List.mem_cons.mp hc with rfl | hc
        · decide
        · exact tame_zeros (by decide) (by decide) c hc

theorem plain_of_tame {path : List Char} (h : ∀ c ∈ path, Tame c) :
    ∀ name ∈ segments path, Plain name := by
  intro name hn
  constructor
  · rintro rfl
    exact (h '.' (mem_of_mem_segments hn List.mem_cons_self).1).1 rfl
  · rintro rfl
    exact (h '.' (mem_of_mem_segments hn List.mem_cons_self).1).1 rfl

end Names

/-! ## Isolation -/

section Isolation

variable {service : Service} {root : List Name} {pre a b : List Char}

theorem Service.walk_append (dir names rest : List Name) :
    service.walk dir (names ++ rest) = service.walk (service.walk dir names) rest := by
  cases service with
  | flat => exact (List.append_assoc dir names rest).symm
  | filesystem => exact follow_append dir names rest

theorem Service.walk_plain {dir names : List Name} (h : ∀ name ∈ names, Plain name) :
    service.walk dir names = dir ++ names := by
  cases service with
  | flat => rfl
  | filesystem => exact follow_plain h

/-- The directory in which everything of an id lies. -/
def home (service : Service) (root : List Name) (pre id : List Char) : List Name :=
  service.walk (service.walk root (prefixNames pre)) (ownNames pre id)

theorem resolve_path {id : List Char} {x : Named} (hid : '/' ∉ id) (hx : x.Used) :
    service.resolve root (x.path (makeKey pre id)) = home service root pre id ++ segments x.rest := by
  have htame := tame_rest hx
  have hlast : ∀ c, x.rest.getLast? = some c → isWhiteSpace c = false := fun c hc =>
    (htame c (List.mem_of_getLast? hc)).2
  unfold Service.resolve home
  rw [x.path_eq, segments_path hlast, segments_makeKey hid, service.walk_append,
    service.walk_append, service.walk_plain (plain_of_tame htame)]

/-- Two keyspaces have nothing to do with each other exactly when neither directory lies in
the other. -/
theorem isolated_iff_not_nested (ha : '/' ∉ a) (hb : '/' ∉ b) :
    Isolated service root (makeKey pre a) (makeKey pre b) ↔
      ¬Nested (home service root pre a) (home service root pre b) := by
  have hunder : ∀ {id id' : List Char} {x y : Named}, '/' ∉ id → '/' ∉ id' → x.Used → y.Used →
      Reaches service root (x.path (makeKey pre id)) (makeKey pre id') y →
      Nested (home service root pre id) (home service root pre id') := by
    rintro id id' x y hid hid' hx hy (heq | ⟨-, hpre⟩)
    · rw [resolve_path hid hx, resolve_path hid' hy] at heq
      exact nested_of_common (List.prefix_append _ _) (heq.symm ▸ List.prefix_append _ _)
    · rw [resolve_path hid hx, resolve_path hid' hy] at hpre
      exact nested_of_common (List.prefix_append _ _) ((List.prefix_append _ _).trans hpre)
  -- the deliverable of the inner upload lies under the container of the outer one
  have hinner : ∀ {id id' : List Char}, '/' ∉ id → '/' ∉ id' →
      home service root pre id' <+: home service root pre id →
      Reaches service root ((Named.object .main).path (makeKey pre id)) (makeKey pre id')
        (.pre .container) := by
    intro id id' hid hid' h
    refine .inr ⟨rfl, ?_⟩
    have hmain : (Named.object .main).Used := trivial
    have hcontainer : (Named.pre .container).Used := trivial
    rw [resolve_path hid hmain, resolve_path hid' hcontainer]
    show home service root pre id' ++ segments [] <+: _
    rw [segments_nil, List.append_nil]
    exact h.trans (List.prefix_append _ _)
  constructor
  · rintro h (hn | hn)
    · exact (h (.pre .container) (.object .main) trivial trivial).2 (hinner hb ha hn)
    · exact (h (.object .main) (.pre .container) trivial trivial).1 (hinner ha hb hn)
  · intro h x y hx hy
    refine ⟨fun hr => h (hunder ha hb hx hy hr), fun hr => h ?_⟩
    exact (hunder hb ha hy hx hr).symm

/-- A name that gives an upload a directory of its own below the prefix: not empty, and no
dot segment where these are read as directions. -/
def Service.Proper (service : Service) (name : Name) : Prop :=
  name ≠ [] ∧ (service = .filesystem → Plain name)

theorem home_of_proper {id : List Char} (h : service.Proper (storedName pre id)) :
    home service root pre id =
      service.walk root (prefixNames pre) ++ [storedName pre id] := by
  unfold home ownNames
  rw [if_neg h.1]
  cases service with
  | flat => rfl
  | filesystem => exact enter_plain (h.2 rfl)

/-- Without a directory of its own an upload's objects lie at the prefix or above it. -/
theorem home_of_not_proper {id : List Char} (h : ¬service.Proper (storedName pre id)) :
    home service root pre id <+: service.walk root (prefixNames pre) := by
  unfold home ownNames
  split
  · cases service with
    | flat =>
      show _ ++ [] <+: _
      rw [List.append_nil]
    | filesystem => exact List.prefix_rfl
  · next hne =>
    cases service with
    | flat => exact absurd ⟨hne, nofun⟩ h
    | filesystem =>
      show enter _ _ <+: _
      unfold enter
      split
      · exact List.prefix_rfl
      · split
        · exact List.dropLast_prefix _
        · next h₁ h₂ => exact absurd ⟨hne, fun _ => ⟨h₁, h₂⟩⟩ h

/-- Every directory lies in that of an upload without a proper name, or the other way. -/
theorem nested_of_not_proper (h : ¬service.Proper (storedName pre a)) :
    Nested (home service root pre a) (home service root pre b) := by
  have hup : home service root pre a <+: service.walk root (prefixNames pre) :=
    home_of_not_proper h
  by_cases hb : service.Proper (storedName pre b)
  · rw [home_of_proper hb]
    exact .inl (hup.trans (List.prefix_append _ _))
  · exact nested_of_common hup (home_of_not_proper hb)

/-- The condition on two names under which their uploads do not meet. -/
theorem not_nested_iff :
    ¬Nested (home service root pre a) (home service root pre b) ↔
      service.Proper (storedName pre a) ∧ service.Proper (storedName pre b) ∧
        storedName pre a ≠ storedName pre b := by
  by_cases ha : service.Proper (storedName pre a)
  · by_cases hb : service.Proper (storedName pre b)
    · rw [home_of_proper ha, home_of_proper hb, nested_children]
      exact ⟨fun h => ⟨ha, hb, h⟩, fun h => h.2.2⟩
    · exact ⟨fun h => absurd (nested_of_not_proper hb).symm h, fun h => absurd h.2.1 hb⟩
  · exact ⟨fun h => absurd (nested_of_not_proper ha) h, fun h => absurd h.1 ha⟩

end Isolation

/-- What `from_str` accepts has no slash. -/
theorem slash_not_mem_of_parse {id : String} (h : UploadId.parse id = .ok id) : '/' ∉ id.toList := by
  have hchars : ∀ cs : List Char, UploadId.checkChars cs = .ok () → '/' ∉ cs := by
    intro cs
    induction cs with
    | nil => exact fun _ => List.not_mem_nil
    | cons c cs ih =>
      intro hc hmem
      rw [UploadId.checkChars] at hc
      split at hc
      · cases hc
      · next hsep =>
        split at hc
        · cases hc
        · rcases List.mem_cons.mp hmem with rfl | hmem
          · exact hsep (.inl rfl)
          · exact ih hc hmem
  unfold UploadId.parse at h
  split at h
  · cases h
  · split at h
    · cases h
    · split at h
      · next hc => exact hchars _ hc
      · cases h

/-- The keyspaces of two upload ids are isolated exactly when each id gives its upload a
directory of its own: the ids, which an operator without a prefix takes without the
whitespace in front, are neither empty nor dot segments and differ. -/
theorem keyspaces_isolated_iff (service : Service) (root : List Name) (pre a b : String)
    (ha : UploadId.parse a = .ok a) (hb : UploadId.parse b = .ok b) :
    Isolated service root (makeKey pre.toList a.toList) (makeKey pre.toList b.toList) ↔
      service.Proper (storedName pre.toList a.toList) ∧
      service.Proper (storedName pre.toList b.toList) ∧
      storedName pre.toList a.toList ≠ storedName pre.toList b.toList :=
  (isolated_iff_not_nested (slash_not_mem_of_parse ha) (slash_not_mem_of_parse hb)).trans
    not_nested_iff

theorem keyspaces_isolated_dotted :
    Isolated .filesystem [] (makeKey [] "report".toList) (makeKey [] "report.complete".toList) :=
  (keyspaces_isolated_iff .filesystem [] "" "report" "report.complete" rfl rfl).mpr
    ⟨⟨by decide, fun _ => by decide⟩, ⟨by decide, fun _ => by decide⟩, by decide⟩

/-- On a file system the staged parts of the upload `.` are looked for where the upload
`parts` keeps its objects. -/
theorem keyspaces_meet_at_dot :
    ¬∀ (service : Service) (root : List Name) (pre a b : String), a ≠ b →
      UploadId.parse a = .ok a → UploadId.parse b = .ok b →
      Isolated service root (makeKey pre.toList a.toList) (makeKey pre.toList b.toList) := by
  intro hclaim
  have h := hclaim .filesystem [] "" "." "parts" (by decide) rfl rfl
  refine (h (.pre .parts) (.object .main) trivial trivial).2 (.inr ⟨rfl, ?_⟩)
  decide

end Opendal

end TusRs
