import TusRs.Text

/-!
# Origins of URLs

How a browser reads the scheme, host and port of an absolute URL of a web server: white space
is removed, the authority ends at a slash, a backslash, a query or a fragment, user information
ends at the last at sign, and an omitted port is that of the scheme. The parser of hosts is a
parameter.
-/

namespace Url

open Text (Chars)

/-- C0 controls and the space. -/
def isControl (c : Char) : Bool := decide (c.toNat ≤ 0x20)

/-- Tabs and newlines are removed wherever they stand. -/
def isTabOrNewline (c : Char) : Bool := c == '\t' || c == '\n' || c == '\r'

def isSlash (c : Char) : Bool := c == '/' || c == '\\'

/-- What ends an authority. -/
def isDelimiter (c : Char) : Bool := isSlash c || c == '?' || c == '#'

def withoutTabs (s : Chars) : Chars := s.filter fun c => !isTabOrNewline c

def clean (s : Chars) : Chars := withoutTabs ((s.dropWhile isControl).rdropWhile isControl)

def lower (s : Chars) : Chars := s.map Char.toLower

structure HostParser (Host : Type) where
  parse : Chars → Option Host

/-- What is relied on: the case of letters does not matter, no host has controls or spaces, and
a bracket that opens is closed at the end. -/
structure HostParser.Lawful {Host : Type} (hosts : HostParser Host) : Prop where
  parse_lower : ∀ text, hosts.parse (lower text) = hosts.parse text
  not_control : ∀ text host, hosts.parse text = some host → ∀ c ∈ text, isControl c = false
  bracket : ∀ text host, hosts.parse text = some host → '[' ∈ text → text.getLast? = some ']'

structure Origin (Host : Type) where
  scheme : Chars
  host : Host
  port : Nat
deriving DecidableEq

def defaultPort (scheme : Chars) : Option Nat :=
  if scheme = "http".toList then some 80
  else if scheme = "https".toList then some 443
  else none

/-- The host, and the port after the first colon outside of brackets. -/
def splitPort : Bool → Chars → Chars × Option Chars
  | _, [] => ([], none)
  | inside, c :: cs =>
    if c = ':' ∧ inside = false then ([], some cs)
    else
      let split := splitPort (if c = '[' then true else if c = ']' then false else inside) cs
      (c :: split.1, split.2)

/-- An empty port is an omitted one. -/
def readPort (default : Nat) : Option Chars → Option Nat
  | none => some default
  | some [] => some default
  | some ds =>
    if ds.all Char.isDigit ∧ Nat.ofDigitChars 10 ds 0 ≤ 65535 then some (Nat.ofDigitChars 10 ds 0)
    else none

section Origins

variable {Host : Type} (hosts : HostParser Host)

/-- The origin of a scheme and what follows the user information. -/
def hostPort (scheme text : Chars) : Option (Origin Host) := do
  let default ← defaultPort scheme
  let split := splitPort false text
  if split.1 = [] then none
  else
    let host ← hosts.parse split.1
    let port ← readPort default split.2
    some { scheme, host, port }

def authority (rest : Chars) : Chars :=
  (rest.dropWhile isSlash).takeWhile fun c => !isDelimiter c

def withoutUser (authority : Chars) : Chars := authority.rtakeWhile fun c => c != '@'

/-- The scheme with what follows its colon. -/
def splitScheme (s : Chars) : Chars × Chars :=
  (s.takeWhile fun c => c != ':', (s.dropWhile fun c => c != ':').tail)

/-- The origin of a URL of a web server; other URLs have none here. -/
def origin (s : Chars) : Option (Origin Host) :=
  let split := splitScheme (clean s)
  hostPort hosts (lower split.1) (withoutUser (authority split.2))

end Origins

/-! ## Case -/

theorem isAlpha_iff (c : Char) : c.isAlpha = true ↔
    (65 ≤ c.val.toNat ∧ c.val.toNat ≤ 90) ∨ 97 ≤ c.val.toNat ∧ c.val.toNat ≤ 122 := by
  delta Char.isAlpha Char.isUpper Char.isLower
  simp only [Bool.or_eq_true, Bool.and_eq_true, decide_eq_true_eq, ge_iff_le,
    UInt32.le_iff_toNat_le]
  rfl

theorem toNat_lowered {c : Char} (h : 65 ≤ c.val.toNat ∧ c.val.toNat ≤ 90) :
    (c.val + ('a'.val - 'A'.val)).toNat = c.val.toNat + 32 := by
  have hadd : ('a'.val - 'A'.val).toNat = 32 := by decide
  rw [UInt32.toNat_add, hadd]
  exact Nat.mod_eq_of_lt (by omega)

theorem toLower_cases (c : Char) :
    c.toLower = c ∨ c.isAlpha = true ∧ c.toLower.isAlpha = true := by
  rw [isAlpha_iff, isAlpha_iff]
  unfold Char.toLower
  split
  · next h =>
    have hlow : 65 ≤ c.val.toNat := UInt32.le_iff_toNat_le.mp h.1
    have hhigh : c.val.toNat ≤ 90 := UInt32.le_iff_toNat_le.mp h.2
    exact .inr ⟨.inl ⟨hlow, hhigh⟩, .inr (by rw [toNat_lowered ⟨hlow, hhigh⟩]; omega)⟩
  · exact .inl rfl

/-- A predicate that is the same for all letters. -/
theorem apply_toLower {p : Char → Bool} (b : Bool) (h : ∀ c, c.isAlpha = true → p c = b) (c : Char) :
    p c.toLower = p c := by
  rcases toLower_cases c with heq | ⟨hc, hlower⟩
  · rw [heq]
  · rw [h c hc, h _ hlower]

theorem ne_of_isAlpha {c d : Char} (h : c.isAlpha = true) (hd : d.isAlpha = false) : c ≠ d := by
  intro heq
  rw [heq, hd] at h
  cases h

theorem beq_toLower {d : Char} (hd : d.isAlpha = false) (c : Char) : (c.toLower == d) = (c == d) :=
  apply_toLower (p := fun c => c == d) false (fun _ h => beq_false_of_ne (ne_of_isAlpha h hd)) c

theorem eq_toLower {d : Char} (hd : d.isAlpha = false) (c : Char) : c.toLower = d ↔ c = d := by
  rw [← beq_iff_eq, beq_toLower hd, beq_iff_eq]

theorem isControl_of_isAlpha {c : Char} (h : c.isAlpha = true) : isControl c = false := by
  refine decide_eq_false fun hle => ?_
  have hval : c.val.toNat ≤ 32 := hle
  rcases (isAlpha_iff c).mp h with ⟨hlow, -⟩ | ⟨hlow, -⟩ <;> omega

theorem isControl_toLower (c : Char) : isControl c.toLower = isControl c :=
  apply_toLower (p := isControl) false (fun _ => isControl_of_isAlpha) c

theorem isTabOrNewline_toLower (c : Char) : isTabOrNewline c.toLower = isTabOrNewline c := by
  simp [isTabOrNewline, beq_toLower]

theorem isSlash_toLower (c : Char) : isSlash c.toLower = isSlash c := by
  simp [isSlash, beq_toLower]

theorem isDelimiter_toLower (c : Char) : isDelimiter c.toLower = isDelimiter c := by
  simp [isDelimiter, isSlash_toLower, beq_toLower]

theorem toLower_toLower (c : Char) : c.toLower.toLower = c.toLower := by
  unfold Char.toLower
  split
  · next h =>
    have hlow : 65 ≤ c.val.toNat := UInt32.le_iff_toNat_le.mp h.1
    have hhigh : c.val.toNat ≤ 90 := UInt32.le_iff_toNat_le.mp h.2
    rw [dif_neg]
    intro hupper
    have hval : (c.val + ('a'.val - 'A'.val)).toNat ≤ 90 := UInt32.le_iff_toNat_le.mp hupper.2
    rw [toNat_lowered ⟨hlow, hhigh⟩] at hval
    omega
  · rfl

theorem lower_lower (s : Chars) : lower (lower s) = lower s := by
  rw [lower, lower, List.map_map, show Char.toLower ∘ Char.toLower = Char.toLower from
    funext toLower_toLower]

theorem lower_dropWhile {p : Char → Bool} (hp : ∀ c, p c.toLower = p c) (s : Chars) :
    (lower s).dropWhile p = lower (s.dropWhile p) := by
  rw [lower, List.dropWhile_map, lower, show p ∘ Char.toLower = p from funext hp]

theorem lower_takeWhile {p : Char → Bool} (hp : ∀ c, p c.toLower = p c) (s : Chars) :
    (lower s).takeWhile p = lower (s.takeWhile p) := by
  rw [lower, List.takeWhile_map, lower, show p ∘ Char.toLower = p from funext hp]

theorem lower_reverse (s : Chars) : (lower s).reverse = lower s.reverse := List.map_reverse.symm

theorem lower_rdropWhile {p : Char → Bool} (hp : ∀ c, p c.toLower = p c) (s : Chars) :
    (lower s).rdropWhile p = lower (s.rdropWhile p) := by
  rw [List.rdropWhile, lower_reverse, lower_dropWhile hp, lower_reverse, List.rdropWhile]

theorem lower_rtakeWhile {p : Char → Bool} (hp : ∀ c, p c.toLower = p c) (s : Chars) :
    (lower s).rtakeWhile p = lower (s.rtakeWhile p) := by
  rw [List.rtakeWhile, lower_reverse, lower_takeWhile hp, lower_reverse, List.rtakeWhile]

theorem lower_withoutTabs (s : Chars) : withoutTabs (lower s) = lower (withoutTabs s) := by
  rw [withoutTabs, lower, List.filter_map, withoutTabs, lower]
  exact congrArg _ (List.filter_congr fun c _ => congrArg _ (isTabOrNewline_toLower c))

theorem lower_clean (s : Chars) : clean (lower s) = lower (clean s) := by
  rw [clean, lower_dropWhile isControl_toLower, lower_rdropWhile isControl_toLower,
    lower_withoutTabs, clean]

theorem bne_toLower {d : Char} (hd : d.isAlpha = false) (c : Char) : (c.toLower != d) = (c != d) := by
  rw [bne, beq_toLower hd, bne]

theorem splitPort_lower (inside : Bool) (s : Chars) :
    splitPort inside (lower s) =
      (lower (splitPort inside s).1, (splitPort inside s).2.map lower) := by
  induction s generalizing inside with
  | nil => rfl
  | cons c cs ih =>
    show splitPort inside (c.toLower :: lower cs) = _
    simp only [splitPort, eq_toLower (show ':'.isAlpha = false from rfl),
      eq_toLower (show '['.isAlpha = false from rfl), eq_toLower (show ']'.isAlpha = false from rfl)]
    split
    · rfl
    · rw [ih]
      rfl

theorem isDigit_of_isAlpha {c : Char} (h : c.isAlpha = true) : c.isDigit = false := by
  cases hdigit : c.isDigit with
  | false => rfl
  | true =>
    simp only [Char.isDigit, Bool.and_eq_true, decide_eq_true_eq, ge_iff_le,
      UInt32.le_iff_toNat_le] at hdigit
    have hval : c.val.toNat ≤ 57 := hdigit.2
    rcases (isAlpha_iff c).mp h with ⟨hlow, -⟩ | ⟨hlow, -⟩ <;> omega

theorem isControl_of_isDigit {c : Char} (h : c.isDigit = true) : isControl c = false := by
  simp only [Char.isDigit, Bool.and_eq_true, decide_eq_true_eq, ge_iff_le,
    UInt32.le_iff_toNat_le] at h
  have hval : 48 ≤ c.val.toNat := h.1
  refine decide_eq_false fun hle => ?_
  have hsmall : c.val.toNat ≤ 32 := hle
  omega

theorem isDigit_toLower (c : Char) : c.toLower.isDigit = c.isDigit :=
  apply_toLower (p := Char.isDigit) false (fun _ => isDigit_of_isAlpha) c

theorem lower_eq_self {s : Chars} (h : ∀ c ∈ s, c.isAlpha = false) : lower s = s := by
  have hmap : ∀ c ∈ s, c.toLower = c := by
    intro c hc
    rcases toLower_cases c with heq | ⟨halpha, -⟩
    · exact heq
    · rw [h c hc] at halpha
      cases halpha
  rw [lower, List.map_congr_left hmap, List.map_id']

theorem not_isAlpha_of_isDigit {c : Char} (h : c.isDigit = true) : c.isAlpha = false := by
  cases halpha : c.isAlpha with
  | false => rfl
  | true =>
    rw [isDigit_of_isAlpha halpha] at h
    cases h

/-- There are no letters among digits. -/
theorem lower_digits {ds : Chars} (h : ds.all Char.isDigit = true) : lower ds = ds :=
  lower_eq_self fun c hc => not_isAlpha_of_isDigit (List.all_eq_true.mp h c hc)

theorem readPort_lower (default : Nat) (port : Option Chars) :
    readPort default (port.map lower) = readPort default port := by
  cases port with
  | none => rfl
  | some ds =>
    have hall : (lower ds).all Char.isDigit = ds.all Char.isDigit := by
      rw [lower, List.all_map, show Char.isDigit ∘ Char.toLower = Char.isDigit from
        funext isDigit_toLower]
    cases hd : ds.all Char.isDigit with
    | true => rw [Option.map_some, lower_digits hd]
    | false =>
      cases ds with
      | nil => rfl
      | cons c cs =>
        rw [hd] at hall
        show (if (lower (c :: cs)).all Char.isDigit = true ∧ _ then _ else none) = 
          if (c :: cs).all Char.isDigit = true ∧ _ then _ else none
        rw [if_neg (by simp [hall]), if_neg (by simp [hd])]

section Origins

variable {Host : Type} {hosts : HostParser Host}

theorem hostPort_lower (h : hosts.Lawful) (scheme text : Chars) :
    hostPort hosts scheme (lower text) = hostPort hosts scheme text := by
  have hempty : lower (splitPort false text).1 = [] ↔ (splitPort false text).1 = [] :=
    List.map_eq_nil_iff
  simp only [hostPort, splitPort_lower, h.parse_lower, readPort_lower, hempty]

theorem authority_lower (rest : Chars) : authority (lower rest) = lower (authority rest) := by
  rw [authority, lower_dropWhile isSlash_toLower, lower_takeWhile, authority]
  exact fun c => congrArg _ (isDelimiter_toLower c)

/-- The case of letters does not matter. -/
theorem origin_lower (h : hosts.Lawful) (s : Chars) : origin hosts (lower s) = origin hosts s := by
  have hcolon := bne_toLower (show ':'.isAlpha = false from rfl)
  have hat := bne_toLower (show '@'.isAlpha = false from rfl)
  have htail (t : Chars) : (lower t).tail = lower t.tail := List.map_tail.symm
  rw [origin, lower_clean, splitScheme, lower_takeWhile hcolon, lower_dropWhile hcolon, htail]
  dsimp only
  rw [lower_lower, authority_lower, withoutUser, lower_rtakeWhile hat, hostPort_lower h]
  rfl

end Origins

/-! ## Where the authority stands -/

/-- What is left of the text before the first `://`, and of the one after it. -/
def front (pre : Chars) : Chars := withoutTabs (pre.dropWhile isControl)

def back (rest : Chars) : Chars := withoutTabs (rest.rdropWhile isControl)

theorem clean_colon (pre rest : Chars) :
    clean (pre ++ ':' :: '/' :: '/' :: rest) = front pre ++ ':' :: '/' :: '/' :: back rest := by
  have hleft := Text.dropWhile_append_cons (show isControl ':' = false by decide) pre
    ('/' :: '/' :: rest)
  have hright := Text.rdropWhile_append_cons (show isControl '/' = false by decide)
    (pre.dropWhile isControl ++ [':', '/']) rest
  rw [List.append_assoc, List.append_assoc] at hright
  rw [clean, hleft]
  refine (congrArg withoutTabs hright).trans ?_
  simp [withoutTabs, front, back, isTabOrNewline]

section Authority

variable {Host : Type} {hosts : HostParser Host}

/-- When a colon comes before the first `://`, the authority ends there at the latest. -/
theorem origin_inside {pre : Chars} (h : ':' ∈ front pre) (x y : Chars) :
    origin hosts (pre ++ ':' :: '/' :: '/' :: x) = origin hosts (pre ++ ':' :: '/' :: '/' :: y) := by
  have hne : (front pre).dropWhile (fun c => c != ':') ≠ [] := by
    intro hnil
    have hall := List.dropWhile_eq_nil_iff.mp hnil ':' h
    simp at hall
  have hsplit (t : Chars) : splitScheme (front pre ++ ':' :: t) =
      ((front pre).takeWhile (fun c => c != ':'),
        ((front pre).dropWhile fun c => c != ':').tail ++ ':' :: t) := by
    rw [splitScheme, Text.takeWhile_append_cons (by simp), Text.dropWhile_append_cons (by simp),
      List.tail_append_of_ne_nil hne]
  have hauthority (w t : Chars) : authority (w ++ ':' :: '/' :: t) = authority (w ++ [':']) := by
    rw [authority, authority, Text.dropWhile_append_cons (by decide),
      Text.dropWhile_append_cons (by decide)]
    have hcut := Text.takeWhile_append_cons (p := fun c => !isDelimiter c) (c := '/') (by decide)
      (w.dropWhile isSlash ++ [':']) t
    rwa [List.append_assoc] at hcut
  rw [origin, origin, clean_colon, clean_colon, hsplit, hsplit]
  dsimp only
  rw [hauthority, hauthority]

/-- Otherwise the scheme is what comes before it. -/
theorem origin_after {pre : Chars} (h : ':' ∉ front pre) (rest : Chars) :
    origin hosts (pre ++ ':' :: '/' :: '/' :: rest) =
      hostPort hosts (lower (front pre)) (withoutUser (authority (back rest))) := by
  have hall : ∀ c ∈ front pre, (c != ':') = true := by
    intro c hc
    exact bne_iff_ne.mpr fun heq => h (heq ▸ hc)
  have hsplit : splitScheme (front pre ++ ':' :: '/' :: '/' :: back rest) =
      (front pre, '/' :: '/' :: back rest) := by
    rw [splitScheme, List.takeWhile_append_of_pos hall, List.dropWhile_append_of_pos hall]
    simp
  rw [origin, clean_colon, hsplit]
  rfl

end Authority

/-! ## Hosts and ports -/

theorem splitPort_plain {s : Chars} (h : ':' ∉ s) (inside : Bool) : splitPort inside s = (s, none) := by
  induction s generalizing inside with
  | nil => rfl
  | cons c cs ih =>
    have hc : ¬(c = ':' ∧ inside = false) := fun hc => h (hc.1 ▸ List.mem_cons_self)
    rw [splitPort, if_neg hc, ih fun hm => h (List.mem_cons_of_mem c hm)]

/-- Nothing of the text is lost. -/
theorem splitPort_append (inside : Bool) (s : Chars) :
    s = (splitPort inside s).1 ++ (match (splitPort inside s).2 with
      | none => []
      | some port => ':' :: port) := by
  induction s generalizing inside with
  | nil => rfl
  | cons c cs ih =>
    rw [splitPort]
    split
    · next hc => rw [hc.1]; rfl
    · exact congrArg (c :: ·) (ih _)

/-- A colon with digits behind a text: the text has a colon of its own that ends the host, or
the new one does, or it stands in a bracket that is not closed. -/
theorem splitPort_colon {d : Chars} (hd : ':' ∉ d) (inside : Bool) (s : Chars) :
    (∃ port, (splitPort inside s).2 = some port ∧
      (splitPort inside (s ++ ':' :: d)).2 = some (port ++ ':' :: d)) ∨
    (splitPort inside s = (s, none) ∧ splitPort inside (s ++ ':' :: d) = (s, some d)) ∨
    ((inside = true ∨ '[' ∈ s) ∧ splitPort inside (s ++ ':' :: d) = (s ++ ':' :: d, none)) := by
  induction s generalizing inside with
  | nil =>
    cases inside with
    | false => exact .inr (.inl ⟨rfl, rfl⟩)
    | true =>
      refine .inr (.inr ⟨.inl rfl, ?_⟩)
      rw [List.nil_append, splitPort, if_neg (fun h => Bool.noConfusion h.2), splitPort_plain hd]
  | cons c cs ih =>
    by_cases hc : c = ':' ∧ inside = false
    · refine .inl ⟨cs, ?_, ?_⟩
      · rw [splitPort, if_pos hc]
      · rw [List.cons_append, splitPort, if_pos hc]
    · rw [List.cons_append, splitPort, if_neg hc, splitPort, if_neg hc]
      rcases ih (if c = '[' then true else if c = ']' then false else inside) with
        ⟨port, h, h'⟩ | ⟨h, h'⟩ | ⟨hin, h'⟩
      · exact .inl ⟨port, h, h'⟩
      · rw [h, h']
        exact .inr (.inl ⟨rfl, rfl⟩)
      · rw [h']
        refine .inr (.inr ⟨?_, rfl⟩)
        rcases hin with hin | hin
        · split at hin
          · next hopen => exact .inr (hopen ▸ List.mem_cons_self)
          · split at hin
            · cases hin
            · exact .inl hin
        · exact .inr (List.mem_cons_of_mem c hin)

section HostPort

variable {Host : Type} {hosts : HostParser Host} {scheme text d : Chars} {o : Origin Host}

theorem hostPort_eq_some (h : hostPort hosts scheme text = some o) :
    ∃ default, defaultPort scheme = some default ∧ o.scheme = scheme ∧
      hosts.parse (splitPort false text).1 = some o.host ∧
      readPort default (splitPort false text).2 = some o.port := by
  simp only [hostPort, Option.bind_eq_bind, Option.bind_eq_some_iff] at h
  obtain ⟨default, hdefault, h⟩ := h
  split at h
  · cases h
  · obtain ⟨host, hhost, h⟩ := Option.bind_eq_some_iff.mp h
    obtain ⟨port, hport, heq⟩ := Option.bind_eq_some_iff.mp h
    cases heq
    exact ⟨default, hdefault, rfl, hhost, hport⟩

theorem readPort_some {default port : Nat} (h : readPort default (some d) = some port) :
    d = [] ∨ d.all Char.isDigit = true ∧ Nat.ofDigitChars 10 d 0 = port := by
  cases d with
  | nil => exact .inl rfl
  | cons c cs =>
    obtain ⟨hd, hport⟩ := Option.ite_none_right_eq_some.mp h
    exact .inr ⟨hd.1, Option.some.inj hport⟩

/-- Nothing but a host and digits. -/
theorem hostPort_not_control (h : hosts.Lawful) (ho : hostPort hosts scheme text = some o) :
    ∀ c ∈ text, isControl c = false := by
  obtain ⟨default, -, -, hhost, hport⟩ := hostPort_eq_some ho
  intro c hc
  rw [splitPort_append false text] at hc
  rcases List.mem_append.mp hc with hc | hc
  · exact h.not_control _ _ hhost c hc
  · cases hsplit : (splitPort false text).2 with
    | none =>
      rw [hsplit] at hc
      cases hc
    | some port =>
      rw [hsplit] at hc hport
      rcases List.mem_cons.mp hc with rfl | hc
      · decide
      · rcases readPort_some hport with rfl | ⟨hdigit, -⟩
        · cases hc
        · exact isControl_of_isDigit (List.all_eq_true.mp hdigit c hc)

/-- With a port behind it the whole text is the host. -/
theorem hostPort_explicit (h : hosts.Lawful) (hd : ∀ c ∈ d, c = '+' ∨ c.isDigit = true)
    (hne : d ≠ []) (ho : hostPort hosts scheme (text ++ ':' :: d) = some o) :
    splitPort false text = (text, none) ∧ hosts.parse text = some o.host ∧ o.scheme = scheme ∧
      d.all Char.isDigit = true ∧ Nat.ofDigitChars 10 d 0 = o.port := by
  obtain ⟨default, -, hscheme, hhost, hport⟩ := hostPort_eq_some ho
  have hcolon : ':' ∉ d := by
    intro hc
    rcases hd ':' hc with heq | heq <;> exact absurd heq (by decide)
  rcases splitPort_colon hcolon false text with ⟨port, -, hsplit⟩ | ⟨hplain, hsplit⟩ | ⟨hopen, hsplit⟩
  · -- a second colon is no digit
    rw [hsplit] at hport
    rcases readPort_some hport with hnil | ⟨hdigit, -⟩
    · simp at hnil
    · have hc := List.all_eq_true.mp hdigit ':' (by simp)
      exact absurd hc (by decide)
  · rw [hsplit] at hhost hport
    rcases readPort_some hport with hnil | ⟨hdigit, hvalue⟩
    · exact absurd hnil hne
    · exact ⟨hplain, hhost, hscheme, hdigit, hvalue⟩
  · -- a bracket is closed at the end of a host, where there is a digit
    rw [hsplit] at hhost
    have hmem : '[' ∈ text ++ ':' :: d :=
      List.mem_append_left _ (hopen.resolve_left Bool.false_ne_true)
    have hlast := h.bracket _ _ hhost hmem
    have hend : (text ++ ':' :: d).getLast? = d.getLast? := by
      rw [List.getLast?_append_cons, List.getLast?_cons_of_ne_nil hne]
    rw [hend] at hlast
    rcases hd ']' (List.mem_of_getLast? hlast) with heq | heq <;> exact absurd heq (by decide)

/-- Without one it is the host when it has no colon of its own. -/
theorem hostPort_implicit {default : Nat} (hplain : splitPort false text = (text, none))
    (hdefault : defaultPort scheme = some default) (ho : hostPort hosts scheme text = some o) :
    hosts.parse text = some o.host ∧ o.scheme = scheme ∧ o.port = default := by
  obtain ⟨default', hdefault', hscheme, hhost, hport⟩ := hostPort_eq_some ho
  rw [hplain] at hhost hport
  rw [hdefault] at hdefault'
  cases hdefault'
  exact ⟨hhost, hscheme, (Option.some.inj hport).symm⟩

end HostPort

end Url
