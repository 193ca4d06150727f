import TusRs.Browser.Persistence
import TusRs.Url

/-!
# Origins of persisted URLs

`parse_origin` and `origin_matches` against the way a browser reads the same two strings. Both
take what follows the last at sign of the authority, but for the browser the authority ends at
a backslash too, and tabs and newlines are not there.

Results:

* `originMatches_sound`: over authorities that both read alike, strings that match have one
  origin.
* `exists_decoy`: any endpoint of a web server matches a URL that leads to any other host.
-/

namespace TusRs

namespace Browser

open Text (Chars)
open Url (HostParser Origin lower withoutTabs)

/-- The origin to which the browser sends a request for a string. -/
def requestOrigin {Host : Type} (hosts : HostParser Host) (s : String) : Option (Origin Host) :=
  Url.origin hosts s.toList

/-- What stands between the first `://` and the next slash, query or fragment. -/
def authorityOf (s : String) : Chars :=
  match splitScheme [] s.toList with
  | some (_, rest) => rest.takeWhile fun c => c ≠ '/' && c ≠ '?' && c ≠ '#'
  | none => []

/-- The part of an authority up to its last at sign. -/
def userOf (authority : Chars) : Chars := authority.rdropWhile fun c => c ≠ '@'

/-- No backslash stands before the last at sign of the authority or, tabs and newlines aside,
at its start, and there is something else than tabs and newlines. -/
def Unambiguous (s : String) : Prop :=
  '\\' ∉ userOf (authorityOf s) ∧
  (withoutTabs (authorityOf s)).head? ≠ none ∧
  (withoutTabs (authorityOf s)).head? ≠ some '\\'

instance (s : String) : Decidable (Unambiguous s) := inferInstanceAs (Decidable (_ ∧ _ ∧ _))

/-! ## What the splitter reads -/

theorem splitScheme_eq_some {acc s scheme rest : Chars}
    (h : splitScheme acc s = some (scheme, rest)) : acc ++ s = scheme ++ ':' :: '/' :: '/' :: rest := by
  fun_induction splitScheme acc s with
  | case1 acc rest' =>
    cases h
    rfl
  | case2 acc c cs _ ih =>
    have hrest := ih h
    rwa [List.append_assoc] at hrest
  | case3 => cases h

/-- The parts of a string in lower case, from which the splitter reads a scheme, a host and a
port. -/
structure Parts (s scheme host : Chars) (port : Nat) (user hostPort rest : Chars) : Prop where
  text_eq : lower s = scheme ++ ':' :: '/' :: '/' :: (user ++ hostPort ++ rest)
  user_at : user = [] ∨ ∃ init, user = init ++ ['@']
  not_at : '@' ∉ hostPort
  not_delimiter : ∀ c ∈ user ++ hostPort, c ≠ '/' ∧ c ≠ '?' ∧ c ≠ '#'
  rest_delimiter : rest = [] ∨ ∃ c tail, rest = c :: tail ∧ (c = '/' ∨ c = '?' ∨ c = '#')
  port_eq : (∃ ds, hostPort = host ++ ':' :: ds ∧ parseU64Chars ds = some port) ∨
    hostPort = host ∧ defaultPort scheme = some port
  user_plain : '\\' ∉ user
  starts : ∃ c cs, withoutTabs (user ++ hostPort) = c :: cs ∧ c ≠ '\\'

/-- Text up to the last occurrence of a character ends in it. -/
theorem rdropWhile_ne {c : Char} {cs : Chars} (h : cs.rdropWhile (fun d => d ≠ c) ≠ []) :
    cs.rdropWhile (fun d => d ≠ c) = (cs.rdropWhile fun d => d ≠ c).dropLast ++ [c] := by
  have hlast := List.rdropWhile_last_not _ _ h
  have hc : (cs.rdropWhile fun d => d ≠ c).getLast h = c := by simpa using hlast
  exact (List.dropLast_append_getLast h).symm.trans (by rw [hc])

/-- A character and what follows its last occurrence. -/
theorem before_after {c : Char} {cs : Chars} (h : c ∈ cs) :
    cs = beforeLast c cs ++ c :: afterLast c cs := by
  have hsplit : cs.rdropWhile (fun d => d ≠ c) ++ afterLast c cs = cs :=
    List.rdropWhile_append_rtakeWhile
  have hne : cs.rdropWhile (fun d => d ≠ c) ≠ [] := by
    intro hnil
    have hall := List.rdropWhile_eq_nil_iff.mp hnil c h
    simp at hall
  have hbefore : (cs.rdropWhile fun d => d ≠ c).dropLast = beforeLast c cs := by
    rw [List.rdropWhile, List.dropLast_reverse, beforeLast]
  rw [rdropWhile_ne hne, hbefore, List.append_assoc] at hsplit
  exact hsplit.symm

/-- The part up to the last at sign, and what follows it. -/
theorem user_append (authority : Chars) :
    userOf authority ++ afterLast '@' authority = authority :=
  List.rdropWhile_append_rtakeWhile

theorem userOf_at (authority : Chars) :
    userOf authority = [] ∨ ∃ init, userOf authority = init ++ ['@'] := by
  by_cases h : userOf authority = []
  · exact .inl h
  · exact .inr ⟨_, rdropWhile_ne h⟩

theorem not_mem_afterLast (c : Char) (cs : Chars) : c ∉ afterLast c cs := by
  intro h
  have hc := List.mem_takeWhile_imp (List.mem_reverse.mp h)
  simp at hc

/-- The text is the authority with what stands around it. -/
theorem authorityOf_append {s : String} {scheme rest : Chars}
    (h : splitScheme [] s.toList = some (scheme, rest)) :
    ∃ after, rest = authorityOf s ++ after ∧
      (∀ c ∈ authorityOf s, c ≠ '/' ∧ c ≠ '?' ∧ c ≠ '#') ∧
      (after = [] ∨ ∃ c tail, after = c :: tail ∧ (c = '/' ∨ c = '?' ∨ c = '#')) := by
  have heq : authorityOf s = rest.takeWhile fun c => c ≠ '/' && c ≠ '?' && c ≠ '#' := by
    rw [authorityOf, h]
  refine ⟨rest.dropWhile fun c => c ≠ '/' && c ≠ '?' && c ≠ '#', ?_, fun c hc => ?_, ?_⟩
  · rw [heq, List.takeWhile_append_dropWhile]
  · rw [heq] at hc
    have hp := List.mem_takeWhile_imp hc
    simpa [and_assoc] using hp
  · cases hafter : rest.dropWhile fun c => c ≠ '/' && c ≠ '?' && c ≠ '#' with
    | nil => exact .inl rfl
    | cons c tail =>
      have hhead := List.head?_dropWhile_not (fun c => c ≠ '/' && c ≠ '?' && c ≠ '#') rest
      rw [hafter] at hhead
      have hstop : c ≠ '/' → c ≠ '?' → c = '#' := by simpa using hhead
      refine .inr ⟨c, tail, rfl, ?_⟩
      by_cases hslash : c = '/'
      · exact .inl hslash
      · by_cases hquery : c = '?'
        · exact .inr (.inl hquery)
        · exact .inr (.inr (hstop hslash hquery))

/-- What the integer parser reads is digits, perhaps behind a plus sign. -/
theorem parseU64Chars_mem {ds : Chars} {n : Nat} (h : parseU64Chars ds = some n) :
    ds ≠ [] ∧ ∀ c ∈ ds, c = '+' ∨ c.isDigit = true := by
  rcases parseU64Chars_iff.mp h with hn | ⟨ds, rfl, hn⟩
  · exact ⟨hn.1, fun c hc => .inr (hn.isDigit c hc)⟩
  · exact ⟨List.cons_ne_nil _ _, fun c hc => (List.mem_cons.mp hc).imp_right (hn.isDigit c)⟩

theorem lower_number {ds : Chars} {n : Nat} (h : parseU64Chars ds = some n) : lower ds = ds := by
  refine Url.lower_eq_self fun c hc => ?_
  rcases (parseU64Chars_mem h).2 c hc with rfl | hdigit
  · decide
  · exact Url.not_isAlpha_of_isDigit hdigit

theorem lower_append (a b : Chars) : lower (a ++ b) = lower a ++ lower b := List.map_append

theorem mem_lower {c : Char} {s : Chars} (hc : c.isAlpha = false) : c ∈ lower s ↔ c ∈ s := by
  rw [lower, List.mem_map]
  constructor
  · rintro ⟨d, hd, heq⟩
    exact (Url.eq_toLower hc d).mp heq ▸ hd
  · exact fun h => ⟨c, h, (Url.eq_toLower hc c).mpr rfl⟩

/-- The port that is taken: the number after the last colon, or the one of the scheme. -/
def explicitPort (hostPort : Chars) : Option Nat :=
  if ':' ∈ hostPort then (parseU64Chars (afterLast ':' hostPort)).filter fun p => p ≤ 65535
  else none

theorem port_of_explicit {hostPort scheme : Chars} {port : Nat}
    (h : (explicitPort hostPort).or (defaultPort scheme) = some port) :
    (∃ ds, lower hostPort = lower (if (explicitPort hostPort).isSome then beforeLast ':' hostPort
        else hostPort) ++ ':' :: ds ∧ parseU64Chars ds = some port) ∨
      lower hostPort = lower (if (explicitPort hostPort).isSome then beforeLast ':' hostPort
        else hostPort) ∧ defaultPort scheme = some port := by
  cases hexplicit : explicitPort hostPort with
  | none =>
    rw [hexplicit] at h
    exact .inr ⟨rfl, h⟩
  | some p =>
    rw [hexplicit] at h
    cases h
    obtain ⟨hcolon, hfilter⟩ := Option.ite_none_right_eq_some.mp hexplicit
    have hparse := (Option.filter_eq_some_iff.mp hfilter).1
    refine .inl ⟨afterLast ':' hostPort, ?_, hparse⟩
    have hsplit := congrArg lower (before_after hcolon)
    rw [lower_append] at hsplit
    refine hsplit.trans (congrArg (lower (beforeLast ':' hostPort) ++ ·) ?_)
    exact congrArg (':' :: ·) (lower_number hparse)

/-- The parts of a string that the splitter reads, in lower case. -/
theorem parts_of_parseOrigin {s : String} {scheme host : Chars} {port : Nat}
    (h : parseOrigin s = some (scheme, host, port)) (hs : Unambiguous s) :
    ∃ user hostPort rest, Parts s.toList scheme host port user hostPort rest := by
  obtain ⟨hplain, hsome, hhead⟩ := hs
  unfold parseOrigin at h
  simp only [Option.bind_eq_bind, Option.bind_eq_some_iff] at h
  obtain ⟨⟨pre, rest⟩, hsplit, h⟩ := h
  dsimp only at h
  obtain ⟨after, hrest, hdelimiter, hafter⟩ := authorityOf_append hsplit
  have hauthority : rest.takeWhile (fun c => c ≠ '/' && c ≠ '?' && c ≠ '#') = authorityOf s := by
    rw [authorityOf, hsplit]
  rw [hauthority] at h
  split at h
  · cases h
  obtain ⟨port', hport, heq⟩ := Option.bind_eq_some_iff.mp h
  cases heq
  have huser := user_append (authorityOf s)
  have hsub : lower (userOf (authorityOf s)) ++ lower (afterLast '@' (authorityOf s)) =
      lower (authorityOf s) := by rw [← lower_append, huser]
  refine ⟨lower (userOf (authorityOf s)), lower (afterLast '@' (authorityOf s)), lower after, ?_⟩
  constructor
  · have htext : s.toList = pre ++ ':' :: '/' :: '/' :: rest := splitScheme_eq_some hsplit
    rw [htext, hrest, hsub, ← lower_append, lower_append pre]
    rfl
  · rcases userOf_at (authorityOf s) with hnil | ⟨init, hinit⟩
    · exact .inl (by rw [hnil]; rfl)
    · exact .inr ⟨lower init, by rw [hinit, lower_append]; rfl⟩
  · rw [mem_lower (by decide)]
    exact not_mem_afterLast '@' _
  · intro c hc
    rw [hsub, lower, List.mem_map] at hc
    obtain ⟨d, hd, rfl⟩ := hc
    obtain ⟨hslash, hquery, hhash⟩ := hdelimiter d hd
    exact ⟨mt (Url.eq_toLower (by decide) d).mp hslash, mt (Url.eq_toLower (by decide) d).mp hquery,
      mt (Url.eq_toLower (by decide) d).mp hhash⟩
  · rcases hafter with rfl | ⟨c, tail, rfl, hc⟩
    · exact .inl rfl
    · refine .inr ⟨c.toLower, lower tail, rfl, ?_⟩
      rcases hc with rfl | rfl | rfl <;> decide
  · exact port_of_explicit hport
  · rw [mem_lower (by decide)]
    exact hplain
  · rw [hsub, Url.lower_withoutTabs]
    cases hw : withoutTabs (authorityOf s) with
    | nil => exact absurd (by rw [hw]; rfl) hsome
    | cons c cs =>
      refine ⟨c.toLower, lower cs, rfl, fun heq => hhead ?_⟩
      rw [hw, (Url.eq_toLower (by decide) c).mp heq]
      rfl

/-! ## What the browser reads -/

theorem takeWhile_congr {p q : Char → Bool} {s : Chars} (h : ∀ c ∈ s, p c = q c) :
    s.takeWhile p = s.takeWhile q := by
  induction s with
  | nil => rfl
  | cons c cs ih =>
    have hc := h c List.mem_cons_self
    have hcs := ih fun d hd => h d (List.mem_cons_of_mem c hd)
    cases hp : p c with
    | true => rw [List.takeWhile_cons_of_pos hp, List.takeWhile_cons_of_pos (hc ▸ hp), hcs]
    | false => rw [List.takeWhile_cons_of_neg (by simp [hp]), List.takeWhile_cons_of_neg (by simp [← hc, hp])]

theorem withoutTabs_append (a b : Chars) : withoutTabs (a ++ b) = withoutTabs a ++ withoutTabs b :=
  List.filter_append a b

theorem withoutTabs_cons {c : Char} (hc : Url.isTabOrNewline c = false) (s : Chars) :
    withoutTabs (c :: s) = c :: withoutTabs s := by
  rw [withoutTabs, List.filter_cons_of_pos (by simp [hc])]
  rfl

theorem mem_of_mem_withoutTabs {c : Char} {s : Chars} (h : c ∈ withoutTabs s) : c ∈ s :=
  (List.mem_filter.mp h).1

/-- What the browser has of the host and port: all of the text, or at the end of the string the
text without the controls behind it. -/
def Trimmed (hostPort text : Chars) : Prop :=
  text = withoutTabs hostPort ∨ text = withoutTabs (hostPort.rdropWhile Url.isControl)

section Reading

variable {s scheme host user hostPort rest : Chars} {port : Nat}

theorem Parts.back_eq (h : Parts s scheme host port user hostPort rest) :
    ∃ text tail, Trimmed hostPort text ∧ withoutTabs user ++ text <+: withoutTabs (user ++ hostPort) ∧
      Url.back (user ++ hostPort ++ rest) = withoutTabs user ++ text ++ tail ∧
      (tail = [] ∨ withoutTabs user ++ text = withoutTabs (user ++ hostPort) ∧
        ∃ c cs, tail = c :: cs ∧ Url.isDelimiter c = true) := by
  rcases h.rest_delimiter with rfl | ⟨c, tail, rfl, hc⟩
  · refine ⟨withoutTabs (hostPort.rdropWhile Url.isControl), [], .inr rfl, ?_, ?_, .inl rfl⟩
    · rw [withoutTabs_append]
      refine (List.prefix_append_right_inj _).mpr ?_
      exact (List.rdropWhile_prefix _ _).filter _
    · rw [List.append_nil, List.append_nil, Url.back, ← withoutTabs_append]
      refine congrArg withoutTabs ?_
      rcases h.user_at with rfl | ⟨init, rfl⟩
      · rfl
      · rw [List.append_assoc, List.singleton_append, Text.rdropWhile_append_cons (by decide),
          List.append_assoc, List.singleton_append]
  · have hcontrol : Url.isControl c = false := by rcases hc with rfl | rfl | rfl <;> decide
    have htab : Url.isTabOrNewline c = false := by rcases hc with rfl | rfl | rfl <;> decide
    have hdelimiter : Url.isDelimiter c = true := by rcases hc with rfl | rfl | rfl <;> decide
    refine ⟨withoutTabs hostPort, c :: withoutTabs (tail.rdropWhile Url.isControl), .inl rfl, ?_, ?_,
      .inr ⟨(withoutTabs_append _ _).symm, c, _, rfl, hdelimiter⟩⟩
    · rw [withoutTabs_append]
    · rw [Url.back, Text.rdropWhile_append_cons hcontrol, withoutTabs_append, withoutTabs_append,
        withoutTabs_cons htab]

theorem withoutUser_append {user text : Chars} (huser : user = [] ∨ ∃ init, user = init ++ ['@'])
    (htext : '@' ∉ text) : Url.withoutUser (user ++ text) = text := by
  have hall : ∀ c ∈ text.reverse, (c != '@') = true := by
    intro c hc
    exact bne_iff_ne.mpr fun heq => htext (heq ▸ List.mem_reverse.mp hc)
  have htake : text.reverse.takeWhile (fun c => c != '@') = text.reverse :=
    List.takeWhile_eq_self_iff.mpr hall
  rcases huser with rfl | ⟨init, rfl⟩
  · rw [List.nil_append, Url.withoutUser, List.rtakeWhile, htake, List.reverse_reverse]
  · have hrev : (init ++ ['@'] ++ text).reverse = text.reverse ++ '@' :: init.reverse := by simp
    rw [Url.withoutUser, List.rtakeWhile, hrev, Text.takeWhile_append_cons (by decide), htake,
      List.reverse_reverse]

/-- The authority of the browser is the user information and the text up to a backslash. -/
theorem Parts.authority_eq (h : Parts s scheme host port user hostPort rest) :
    ∃ text, Trimmed hostPort text ∧ Url.authority (Url.back (user ++ hostPort ++ rest)) =
      withoutTabs user ++ text.takeWhile fun c => c != '\\' := by
  obtain ⟨text, tail, htext, hbegin, hback, htail⟩ := h.back_eq
  refine ⟨text, htext, ?_⟩
  obtain ⟨c, cs, hstart, hc⟩ := h.starts
  have hplain : ∀ d ∈ withoutTabs user ++ text, d ≠ '/' ∧ d ≠ '?' ∧ d ≠ '#' := fun d hd =>
    h.not_delimiter d (mem_of_mem_withoutTabs (hbegin.subset hd))
  -- no slash is skipped
  have hdrop : (withoutTabs user ++ text ++ tail).dropWhile Url.isSlash =
      withoutTabs user ++ text ++ tail := by
    cases hhead : withoutTabs user ++ text with
    | nil =>
      rcases htail with rfl | ⟨heq, -⟩
      · rfl
      · rw [hhead, hstart] at heq
        cases heq
    | cons d ds =>
      rw [hhead, hstart] at hbegin
      obtain rfl : d = c := (List.cons_prefix_cons.mp hbegin).1
      have hslash := (hplain d (hhead ▸ List.mem_cons_self)).1
      rw [List.cons_append, List.dropWhile_cons_of_neg]
      simp [Url.isSlash, hslash, hc]
  have hcut : (withoutTabs user ++ text ++ tail).takeWhile (fun c => !Url.isDelimiter c) =
      (withoutTabs user ++ text).takeWhile fun c => !Url.isDelimiter c := by
    rcases htail with rfl | ⟨-, d, ds, rfl, hd⟩
    · rw [List.append_nil]
    · rw [Text.takeWhile_append_cons (by simp [hd])]
  have huser : ∀ d ∈ withoutTabs user, (!Url.isDelimiter d) = true := by
    intro d hd
    obtain ⟨hslash, hquery, hhash⟩ := hplain d (List.mem_append_left _ hd)
    have hback : d ≠ '\\' := fun heq => h.user_plain (heq ▸ mem_of_mem_withoutTabs hd)
    simp [Url.isDelimiter, Url.isSlash, hslash, hquery, hhash, hback]
  have hrest : text.takeWhile (fun c => !Url.isDelimiter c) = text.takeWhile fun c => c != '\\' := by
    refine takeWhile_congr fun d hd => ?_
    obtain ⟨hslash, hquery, hhash⟩ := hplain d (List.mem_append_right _ hd)
    simp [Url.isDelimiter, Url.isSlash, beq_false_of_ne hslash, beq_false_of_ne hquery,
      beq_false_of_ne hhash, bne]
  rw [hback, Url.authority, hdrop, hcut, List.takeWhile_append_of_pos huser, hrest]

theorem Parts.origin_eq {Host : Type} (hosts : HostParser Host)
    (h : Parts s scheme host port user hostPort rest) (hfront : ':' ∉ Url.front scheme) :
    ∃ text, Trimmed hostPort text ∧ Url.origin hosts (lower s) =
      Url.hostPort hosts (lower (Url.front scheme)) (text.takeWhile fun c => c != '\\') := by
  obtain ⟨text, htext, hauthority⟩ := h.authority_eq
  refine ⟨text, htext, ?_⟩
  have huser : withoutTabs user = [] ∨ ∃ init, withoutTabs user = init ++ ['@'] := by
    rcases h.user_at with rfl | ⟨init, rfl⟩
    · exact .inl rfl
    · exact .inr ⟨withoutTabs init, withoutTabs_append init ['@']⟩
  have hat : '@' ∉ text.takeWhile fun c => c != '\\' := by
    intro hc
    have hmem := (List.takeWhile_sublist _).subset hc
    rcases htext with rfl | rfl
    · exact h.not_at (mem_of_mem_withoutTabs hmem)
    · exact h.not_at ((List.rdropWhile_prefix _ _).subset (mem_of_mem_withoutTabs hmem))
  rw [h.text_eq, Url.origin_after hfront, hauthority, withoutUser_append huser hat]

end Reading

/-! ## Hosts and ports that match -/

section Matching

variable {host hostPort text ds : Chars} {port : Nat}

/-- Up to a backslash in the host nothing depends on what follows. -/
theorem cut_of_backslash (htext : Trimmed hostPort text) {after : Chars}
    (hhost : hostPort = host ++ after) (hmem : '\\' ∈ host) :
    text.takeWhile (fun c => c != '\\') = (withoutTabs host).takeWhile fun c => c != '\\' := by
  obtain ⟨a, b, rfl⟩ := List.append_of_mem hmem
  have htab : Url.isTabOrNewline '\\' = false := by decide
  have hcut (b : Chars) : (withoutTabs (a ++ '\\' :: b)).takeWhile (fun c => c != '\\') =
      (withoutTabs a).takeWhile fun c => c != '\\' := by
    rw [withoutTabs_append, withoutTabs_cons htab, Text.takeWhile_append_cons (by decide)]
  rw [List.append_assoc, List.cons_append] at hhost
  rcases htext with rfl | rfl
  · rw [hhost, hcut, hcut]
  · rw [hhost, Text.rdropWhile_append_cons (by decide), hcut, hcut]

/-- A number is neither stripped nor cut. -/
theorem number_plain (h : parseU64Chars ds = some port) :
    withoutTabs ds = ds ∧ ds.rdropWhile Url.isControl = ds ∧ '\\' ∉ ds := by
  obtain ⟨-, hmem⟩ := parseU64Chars_mem h
  have hcontrol : ∀ c ∈ ds, Url.isControl c = false := by
    intro c hc
    rcases hmem c hc with rfl | hdigit
    · decide
    · exact Url.isControl_of_isDigit hdigit
  have htab (c : Char) (hc : Url.isTabOrNewline c = true) : Url.isControl c = true := by
    simp only [Url.isTabOrNewline, Bool.or_eq_true, beq_iff_eq] at hc
    rcases hc with (rfl | rfl) | rfl <;> decide
  refine ⟨List.filter_eq_self.mpr fun c hc => ?_, ?_, fun hc => ?_⟩
  · cases ht : Url.isTabOrNewline c with
    | false => rfl
    | true =>
      have hcc := htab c ht
      rw [hcontrol c hc] at hcc
      cases hcc
  · exact List.rdropWhile_eq_self_iff.mpr fun hne => by simp [hcontrol _ (List.getLast_mem hne)]
  · rcases hmem _ hc with heq | heq <;> exact absurd heq (by decide)

theorem trimmed_explicit (h : parseU64Chars ds = some port)
    (htext : Trimmed (host ++ ':' :: ds) text) : text = withoutTabs host ++ ':' :: ds := by
  obtain ⟨htabs, hdrop, -⟩ := number_plain h
  have heq : withoutTabs (host ++ ':' :: ds) = withoutTabs host ++ ':' :: ds := by
    rw [withoutTabs_append, withoutTabs_cons (by decide), htabs]
  rcases htext with rfl | rfl
  · exact heq
  · rw [Text.rdropWhile_append_cons (by decide), hdrop, heq]

/-- A host without controls is not stripped. -/
theorem trimmed_of_not_control (htext : Trimmed host text)
    (h : ∀ c ∈ withoutTabs host, Url.isControl c = false) : text = withoutTabs host := by
  rcases htext with rfl | rfl
  · rfl
  · have hsplit : host.rdropWhile Url.isControl ++ host.rtakeWhile Url.isControl = host :=
      List.rdropWhile_append_rtakeWhile
    have hnil : withoutTabs (host.rtakeWhile Url.isControl) = [] := by
      refine List.eq_nil_iff_forall_not_mem.mpr fun c hc => ?_
      have hcontrol := List.mem_rtakeWhile_imp (mem_of_mem_withoutTabs hc)
      rw [h c] at hcontrol
      · cases hcontrol
      · rw [← hsplit, withoutTabs_append]
        exact List.mem_append_right _ hc
    have heq := withoutTabs_append (host.rdropWhile Url.isControl) (host.rtakeWhile Url.isControl)
    rw [hsplit, hnil, List.append_nil] at heq
    exact heq.symm

end Matching

section Comparing

variable {Host : Type} {hosts : HostParser Host} {e u scheme host user hostPort rest : Chars}
  {user' hostPort' rest' text ds : Chars} {port : Nat} {o o' : Origin Host}

theorem defaultPort_of_front (hdefault : defaultPort scheme = some port)
    (ho : Url.hostPort hosts (lower (Url.front scheme)) text = some o) :
    Url.defaultPort (lower (Url.front scheme)) = some port := by
  obtain ⟨port', hport', -⟩ := Url.hostPort_eq_some ho
  unfold defaultPort at hdefault
  split at hdefault
  · next hscheme =>
    cases hdefault
    rcases hscheme with rfl | rfl
    · rfl
    · cases hport'
  · split at hdefault
    · next hscheme =>
      cases hdefault
      rcases hscheme with rfl | rfl
      · rfl
      · cases hport'
    · cases hdefault

/-- Nothing is cut off a text without backslashes. -/
theorem takeWhile_of_not_mem (h : '\\' ∉ text) : text.takeWhile (fun c => c != '\\') = text :=
  List.takeWhile_eq_self_iff.mpr fun _ hc => bne_iff_ne.mpr fun heq => h (heq ▸ hc)

/-- The origin of a host with a port behind it. -/
theorem read_explicit (h : hosts.Lawful) (hback : '\\' ∉ host) (hds : parseU64Chars ds = some port)
    (htext : Trimmed (host ++ ':' :: ds) text)
    (ho : Url.hostPort hosts scheme (text.takeWhile fun c => c != '\\') = some o) :
    Url.splitPort false (withoutTabs host) = (withoutTabs host, none) ∧
      hosts.parse (withoutTabs host) = some o.host ∧ o.scheme = scheme ∧ o.port = port := by
  obtain ⟨-, -, hplain⟩ := number_plain hds
  obtain rfl := trimmed_explicit hds htext
  have hmem : '\\' ∉ withoutTabs host ++ ':' :: ds := by
    intro hc
    rcases List.mem_append.mp hc with hc | hc
    · exact hback (mem_of_mem_withoutTabs hc)
    · rcases List.mem_cons.mp hc with heq | hc
      · exact absurd heq (by decide)
      · exact hplain hc
  obtain ⟨hne, hdigits⟩ := parseU64Chars_mem hds
  rw [takeWhile_of_not_mem hmem] at ho
  obtain ⟨hsplit, hhost, hscheme, hall, hvalue⟩ := Url.hostPort_explicit h hdigits hne ho
  refine ⟨hsplit, hhost, hscheme, ?_⟩
  rcases parseU64Chars_iff.mp hds with hn | ⟨ds', rfl, -⟩
  · exact hvalue.symm.trans hn.2.2.1
  · exact absurd (List.all_eq_true.mp hall '+' List.mem_cons_self) (by decide)

/-- The origin of a host that the browser reads without a port of its own. -/
theorem Parts.read (h : hosts.Lawful) (hp : Parts e scheme host port user hostPort rest)
    (hback : '\\' ∉ host) (htext : Trimmed hostPort text)
    (ho : Url.hostPort hosts (lower (Url.front scheme)) (text.takeWhile fun c => c != '\\') = some o)
    (hsplit : Url.splitPort false (withoutTabs host) = (withoutTabs host, none))
    (hcontrol : ∀ c ∈ withoutTabs host, Url.isControl c = false) :
    hosts.parse (withoutTabs host) = some o.host ∧ o.scheme = lower (Url.front scheme) ∧
      o.port = port := by
  rcases hp.port_eq with ⟨ds, rfl, hds⟩ | ⟨rfl, hdefault⟩
  · exact (read_explicit h hback hds htext ho).2
  · obtain rfl := trimmed_of_not_control htext hcontrol
    rw [takeWhile_of_not_mem fun hc => hback (mem_of_mem_withoutTabs hc)] at ho
    exact Url.hostPort_implicit hsplit (defaultPort_of_front hdefault ho) ho

/-- Strings from which the splitter reads the same have one origin. -/
theorem Parts.same (h : hosts.Lawful) (he : Parts e scheme host port user hostPort rest)
    (hu : Parts u scheme host port user' hostPort' rest')
    (ho : Url.origin hosts (lower e) = some o) (ho' : Url.origin hosts (lower u) = some o') :
    o = o' := by
  by_cases hfront : ':' ∈ Url.front scheme
  · rw [he.text_eq] at ho
    rw [hu.text_eq, Url.origin_inside hfront _ (user ++ hostPort ++ rest), ho] at ho'
    exact Option.some.inj ho'
  obtain ⟨text, htext, heq⟩ := he.origin_eq hosts hfront
  obtain ⟨text', htext', heq'⟩ := hu.origin_eq hosts hfront
  rw [heq] at ho
  rw [heq'] at ho'
  have hafter : ∃ after, hostPort = host ++ after := by
    rcases he.port_eq with ⟨ds, h, -⟩ | ⟨h, -⟩
    · exact ⟨_, h⟩
    · exact ⟨[], by rw [h, List.append_nil]⟩
  have hafter' : ∃ after, hostPort' = host ++ after := by
    rcases hu.port_eq with ⟨ds, h, -⟩ | ⟨h, -⟩
    · exact ⟨_, h⟩
    · exact ⟨[], by rw [h, List.append_nil]⟩
  obtain ⟨after, hafter⟩ := hafter
  obtain ⟨after', hafter'⟩ := hafter'
  by_cases hback : '\\' ∈ host
  · rw [cut_of_backslash htext hafter hback] at ho
    rw [cut_of_backslash htext' hafter' hback, ho] at ho'
    exact Option.some.inj ho'
  -- what one side knows of the host is enough for both
  have hboth (hsplit : Url.splitPort false (withoutTabs host) = (withoutTabs host, none))
      (hhost : ∃ value, hosts.parse (withoutTabs host) = some value) : o = o' := by
    obtain ⟨value, hvalue⟩ := hhost
    have hcontrol := h.not_control _ _ hvalue
    obtain ⟨hh, hs, hp⟩ := he.read h hback htext ho hsplit hcontrol
    obtain ⟨hh', hs', hp'⟩ := hu.read h hback htext' ho' hsplit hcontrol
    obtain ⟨s, v, p⟩ := o
    obtain ⟨s', v', p'⟩ := o'
    rw [hh] at hh'
    cases hh'
    cases hs
    cases hs'
    cases hp
    cases hp'
    rfl
  rcases he.port_eq with ⟨ds, hds, hport⟩ | ⟨hplain, -⟩
  · obtain ⟨hsplit, hhost, -⟩ := read_explicit h hback hport (hds ▸ htext) ho
    exact hboth hsplit ⟨_, hhost⟩
  rcases hu.port_eq with ⟨ds, hds, hport⟩ | ⟨hplain', -⟩
  · obtain ⟨hsplit, hhost, -⟩ := read_explicit h hback hport (hds ▸ htext') ho'
    exact hboth hsplit ⟨_, hhost⟩
  rw [hplain] at htext
  rw [hplain'] at htext'
  -- neither has a port: the texts are the same unless one is stripped of controls
  have hcontrol (hfull : text = withoutTabs host ∨ text' = withoutTabs host) :
      ∀ c ∈ withoutTabs host, Url.isControl c = false := by
    intro c hc
    have hcut := takeWhile_of_not_mem fun hm : '\\' ∈ withoutTabs host =>
      hback (mem_of_mem_withoutTabs hm)
    rcases hfull with rfl | rfl
    · rw [hcut] at ho
      exact Url.hostPort_not_control h ho c hc
    · rw [hcut] at ho'
      exact Url.hostPort_not_control h ho' c hc
  have hsame : text = text' := by
    rcases htext with ht | ht
    · have hc := hcontrol (.inl ht)
      rw [ht, trimmed_of_not_control htext' hc]
    · rcases htext' with ht' | ht'
      · have hc := hcontrol (.inr ht')
        rw [ht', trimmed_of_not_control (.inr ht) hc]
      · rw [ht, ht']
  rw [hsame, ho'] at ho
  exact (Option.some.inj ho).symm

/-- No request for one string goes elsewhere than a request for the other. -/
def SameOrigin (hosts : HostParser Host) (a b : String) : Prop :=
  ∀ o o', requestOrigin hosts a = some o → requestOrigin hosts b = some o' → o = o'

/-- Over authorities that both read alike, strings that match have one origin. -/
theorem originMatches_sound (h : hosts.Lawful) {endpoint url : String}
    (he : Unambiguous endpoint) (hu : Unambiguous url) (hm : originMatches endpoint url = true) :
    SameOrigin hosts endpoint url := by
  intro o o' ho ho'
  unfold originMatches at hm
  split at hm
  · next a b ha hb =>
    obtain rfl : a = b := of_decide_eq_true hm
    obtain ⟨scheme, host, port⟩ := a
    obtain ⟨user, hostPort, rest, hp⟩ := parts_of_parseOrigin ha he
    obtain ⟨user', hostPort', rest', hp'⟩ := parts_of_parseOrigin hb hu
    rw [requestOrigin, ← Url.origin_lower h] at ho ho'
    exact hp.same h hp' ho ho'
  · cases hm

end Comparing

/-! ## Decoys -/

/-- The characters of a host name. -/
def isNameChar (c : Char) : Bool := c.isAlphanum || c == '.' || c == '-'

/-- A URL that names one host before a backslash and another origin behind it. -/
def decoy (scheme name host : Chars) (port : Nat) : String :=
  String.ofList (scheme ++ ':' :: '/' :: '/' ::
    (name ++ '\\' :: '@' :: (host ++ ':' :: Nat.toDigits 10 port)))

theorem splitScheme_append {pre : Chars} (h : ':' ∉ pre) (acc rest : Chars) :
    splitScheme acc (pre ++ ':' :: '/' :: '/' :: rest) = some (acc ++ pre, rest) := by
  induction pre generalizing acc with
  | nil => rw [List.nil_append, splitScheme, List.append_nil]
  | cons c cs ih =>
    have hc : c ≠ ':' := fun heq => h (heq ▸ List.mem_cons_self)
    rw [List.cons_append, splitScheme]
    · rw [ih fun hm => h (List.mem_cons_of_mem c hm), List.append_assoc, List.singleton_append]
    · intro rest' heq
      exact absurd heq hc

/-- What the splitter reads is in lower case, with a port of sixteen bits. -/
theorem parseOrigin_bounds {s : String} {scheme host : Chars} {port : Nat}
    (h : parseOrigin s = some (scheme, host, port)) :
    lower scheme = scheme ∧ lower host = host ∧ port ≤ 65535 := by
  unfold parseOrigin at h
  simp only [Option.bind_eq_bind, Option.bind_eq_some_iff] at h
  obtain ⟨⟨pre, rest⟩, -, h⟩ := h
  dsimp only at h
  split at h
  · cases h
  obtain ⟨port', hport, heq⟩ := Option.bind_eq_some_iff.mp h
  cases heq
  refine ⟨Url.lower_lower _, Url.lower_lower _, ?_⟩
  rcases Option.or_eq_some_iff.mp hport with hexplicit | ⟨-, hdefault⟩
  · obtain ⟨-, hfilter⟩ := Option.ite_none_right_eq_some.mp hexplicit
    exact of_decide_eq_true (Option.filter_eq_some_iff.mp hfilter).2
  · unfold defaultPort at hdefault
    split at hdefault
    · cases hdefault
      decide
    · split at hdefault
      · cases hdefault
        decide
      · cases hdefault

section Decoys

variable {Host : Type} {hosts : HostParser Host} {scheme name host a b : Chars} {port : Nat} {c : Char}

theorem afterLast_append (h : c ∉ b) : afterLast c (a ++ c :: b) = b := by
  have hrev : (a ++ c :: b).reverse = b.reverse ++ c :: a.reverse := by simp
  have hall : b.reverse.takeWhile (fun d => d ≠ c) = b.reverse := by
    refine List.takeWhile_eq_self_iff.mpr fun d hd => decide_eq_true fun heq => ?_
    exact h (heq ▸ List.mem_reverse.mp hd)
  rw [afterLast, hrev, Text.takeWhile_append_cons (by simp), hall, List.reverse_reverse]

theorem beforeLast_append (h : c ∉ b) : beforeLast c (a ++ c :: b) = a := by
  have hsplit := before_after (show c ∈ a ++ c :: b by simp)
  rw [afterLast_append h] at hsplit
  exact (List.append_inj_left' hsplit rfl).symm

theorem isDigit_toDigits {n : Nat} (hc : c ∈ Nat.toDigits 10 n) : c.isDigit = true :=
  Nat.isDigit_of_mem_toDigits (by decide) (by decide) hc

theorem ne_of_isNameChar {d : Char} (h : isNameChar c = true) (hd : isNameChar d = false) : c ≠ d := by
  intro heq
  rw [heq, hd] at h
  cases h

/-- The authority is split at the last at sign and the last colon. -/
theorem parseOrigin_decoy (hscheme : ':' ∉ scheme) (hlower : lower scheme = scheme)
    (hname : ∀ c ∈ name, isNameChar c = true) (hhost : lower host = host)
    (hplain : ∀ c ∈ host, c ≠ '/' ∧ c ≠ '?' ∧ c ≠ '#' ∧ c ≠ '@') (hport : port ≤ 65535) :
    parseOrigin (decoy scheme name host port) = some (scheme, host, port) := by
  have hdigits : ∀ c ∈ Nat.toDigits 10 port, c ≠ '/' ∧ c ≠ '?' ∧ c ≠ '#' ∧ c ≠ '@' ∧ c ≠ ':' := by
    intro c hc
    have hdigit := isDigit_toDigits hc
    refine ⟨?_, ?_, ?_, ?_, ?_⟩ <;> rintro rfl <;> exact absurd hdigit (by decide)
  have hauthority : (name ++ '\\' :: '@' :: (host ++ ':' :: Nat.toDigits 10 port)).takeWhile
      (fun c => c ≠ '/' && c ≠ '?' && c ≠ '#') =
        name ++ '\\' :: '@' :: (host ++ ':' :: Nat.toDigits 10 port) := by
    refine List.takeWhile_eq_self_iff.mpr fun c hc => ?_
    simp only [List.mem_append, List.mem_cons] at hc
    rcases hc with hc | rfl | rfl | hc | rfl | hc
    · have hn := hname c hc
      simp [ne_of_isNameChar hn (show isNameChar '/' = false by decide),
        ne_of_isNameChar hn (show isNameChar '?' = false by decide),
        ne_of_isNameChar hn (show isNameChar '#' = false by decide)]
    · decide
    · decide
    · simp [(hplain c hc).1, (hplain c hc).2.1, (hplain c hc).2.2.1]
    · decide
    · simp [(hdigits c hc).1, (hdigits c hc).2.1, (hdigits c hc).2.2.1]
  have hat : '@' ∉ host ++ ':' :: Nat.toDigits 10 port := by
    simp only [List.mem_append, List.mem_cons, not_or]
    exact ⟨fun hc => (hplain _ hc).2.2.2 rfl, by decide, fun hc => (hdigits _ hc).2.2.2.1 rfl⟩
  have hhostPort : afterLast '@' (name ++ '\\' :: '@' :: (host ++ ':' :: Nat.toDigits 10 port)) =
      host ++ ':' :: Nat.toDigits 10 port := by
    have h := afterLast_append (a := name ++ ['\\']) hat
    rwa [List.append_assoc] at h
  have hcolon : ':' ∉ Nat.toDigits 10 port := fun hc => (hdigits _ hc).2.2.2.2 rfl
  have hafter := afterLast_append (a := host) hcolon
  have hbefore := beforeLast_append (a := host) hcolon
  have hparse : parseU64Chars (Nat.toDigits 10 port) = some port :=
    parseU64Chars_toDigits (hport.trans (by decide))
  have hfilter : (some port).filter (fun p => p ≤ 65535) = some port := by simp [Option.filter, hport]
  have hlower' : scheme.map Char.toLower = scheme := hlower
  have hhost' : host.map Char.toLower = host := hhost
  rw [parseOrigin, decoy, String.toList_ofList, splitScheme_append hscheme]
  simp only [Option.bind_eq_bind, Option.bind_some, List.nil_append, hauthority, hhostPort, hafter,
    hbefore, hparse, hlower', hfilter]
  simp [hhost']

/-- For the browser the authority of a decoy ends before its backslash. -/
theorem requestOrigin_decoy {value : Host}
    (hscheme : scheme = "http".toList ∨ scheme = "https".toList) (hne : name ≠ [])
    (hname : ∀ c ∈ name, isNameChar c = true) (hvalue : hosts.parse name = some value) :
    ∃ o, requestOrigin hosts (decoy scheme name host port) = some o ∧ o.scheme = scheme ∧
      o.host = value := by
  have hfront : Url.front scheme = scheme ∧ lower scheme = scheme := by
    rcases hscheme with rfl | rfl <;> decide
  have hcolon : ':' ∉ scheme := by rcases hscheme with rfl | rfl <;> decide
  obtain ⟨default, hdefault⟩ : ∃ default, Url.defaultPort scheme = some default := by
    rcases hscheme with rfl | rfl
    · exact ⟨80, rfl⟩
    · exact ⟨443, rfl⟩
  have htabs : withoutTabs name = name := by
    refine List.filter_eq_self.mpr fun c hc => ?_
    have hn := hname c hc
    simp [Url.isTabOrNewline, ne_of_isNameChar hn (show isNameChar '\t' = false by decide),
      ne_of_isNameChar hn (show isNameChar '\n' = false by decide),
      ne_of_isNameChar hn (show isNameChar '\r' = false by decide)]
  have hdelimiter : ∀ c ∈ name, Url.isDelimiter c = false := by
    intro c hc
    have hn := hname c hc
    simp [Url.isDelimiter, Url.isSlash, ne_of_isNameChar hn (show isNameChar '/' = false by decide),
      ne_of_isNameChar hn (show isNameChar '\\' = false by decide),
      ne_of_isNameChar hn (show isNameChar '?' = false by decide),
      ne_of_isNameChar hn (show isNameChar '#' = false by decide)]
  have hsplit : Url.splitPort false name = (name, none) :=
    Url.splitPort_plain (fun hc => absurd (hname _ hc) (by decide)) false
  have hauthority : Url.authority (Url.back (name ++ '\\' :: '@' ::
      (host ++ ':' :: Nat.toDigits 10 port))) = name := by
    rw [Url.back, Text.rdropWhile_append_cons (by decide), withoutTabs_append,
      withoutTabs_cons (by decide), htabs, Url.authority]
    have hdrop : (name ++ '\\' :: withoutTabs (('@' ::
        (host ++ ':' :: Nat.toDigits 10 port)).rdropWhile Url.isControl)).dropWhile Url.isSlash =
        name ++ '\\' :: withoutTabs (('@' ::
          (host ++ ':' :: Nat.toDigits 10 port)).rdropWhile Url.isControl) := by
      obtain ⟨c, cs, rfl⟩ := List.exists_cons_of_ne_nil hne
      rw [List.cons_append, List.dropWhile_cons_of_neg]
      have hd := hdelimiter c List.mem_cons_self
      simp only [Url.isDelimiter, Bool.or_eq_false_iff] at hd
      simp [hd.1.1]
    rw [hdrop, Text.takeWhile_append_cons (by decide)]
    exact List.takeWhile_eq_self_iff.mpr fun c hc => by simp [hdelimiter c hc]
  have huser : Url.withoutUser name = name :=
    withoutUser_append (.inl rfl) fun hc => absurd (hname _ hc) (by decide)
  refine ⟨{ scheme := scheme, host := value, port := default }, ?_, rfl, rfl⟩
  rw [requestOrigin, decoy, String.toList_ofList, Url.origin_after (hfront.1.symm ▸ hcolon), hfront.1,
    hfront.2, hauthority, huser]
  simp [Url.hostPort, hdefault, hsplit, hne, hvalue, Url.readPort]

end Decoys

/-! ## The check -/

section Check

variable {Host : Type} {hosts : HostParser Host} {endpoint : String}

/-- An endpoint of a web server has a decoy with any host in it, which matches and leads there. -/
theorem exists_decoy (he : Unambiguous endpoint) {scheme host name : Chars} {port : Nat} {value : Host}
    (h : parseOrigin endpoint = some (scheme, host, port))
    (hscheme : scheme = "http".toList ∨ scheme = "https".toList) (hne : name ≠ [])
    (hname : ∀ c ∈ name, isNameChar c = true) (hvalue : hosts.parse name = some value) :
    ∃ url, originMatches endpoint url = true ∧
      ∃ o, requestOrigin hosts url = some o ∧ o.scheme = scheme ∧ o.host = value := by
  obtain ⟨hlower, hhost, hport⟩ := parseOrigin_bounds h
  obtain ⟨user, hostPort, rest, hp⟩ := parts_of_parseOrigin h he
  have hmem : ∀ c ∈ host, c ∈ hostPort := by
    intro c hc
    rcases hp.port_eq with ⟨ds, heq, -⟩ | ⟨heq, -⟩
    · exact heq ▸ List.mem_append_left _ hc
    · exact heq ▸ hc
  have hplain : ∀ c ∈ host, c ≠ '/' ∧ c ≠ '?' ∧ c ≠ '#' ∧ c ≠ '@' := by
    intro c hc
    obtain ⟨hslash, hquery, hhash⟩ := hp.not_delimiter c (List.mem_append_right _ (hmem c hc))
    exact ⟨hslash, hquery, hhash, fun heq => hp.not_at (heq ▸ hmem c hc)⟩
  have hcolon : ':' ∉ scheme := by rcases hscheme with rfl | rfl <;> decide
  have hdecoy := parseOrigin_decoy hcolon hlower hname hhost hplain hport
  refine ⟨decoy scheme name host port, ?_, requestOrigin_decoy hscheme hne hname hvalue⟩
  simp [originMatches, h, hdecoy]

/-- The check keeps requests at the origin of the endpoint over URLs whose authority both read
alike, and over decoys it lets them go anywhere. -/
theorem origin_check (h : hosts.Lawful) (he : Unambiguous endpoint) :
    (∀ url, Unambiguous url → originMatches endpoint url = true → SameOrigin hosts endpoint url) ∧
    (∀ storage key now entry, Storage.get storage endpoint key now = some entry →
      Unambiguous entry.uploadUrl → SameOrigin hosts endpoint entry.uploadUrl) ∧
    (∀ entry file now, entryIsResumableForFile endpoint entry file now = true →
      Unambiguous entry.uploadUrl → SameOrigin hosts endpoint entry.uploadUrl) ∧
    ∀ scheme host port name value, parseOrigin endpoint = some (scheme, host, port) →
      (scheme = "http".toList ∨ scheme = "https".toList) → name ≠ [] →
      (∀ c ∈ name, isNameChar c = true) → hosts.parse name = some value →
      ∃ url, originMatches endpoint url = true ∧
        ∃ o, requestOrigin hosts url = some o ∧ o.scheme = scheme ∧ o.host = value := by
  refine ⟨fun url hu hm => originMatches_sound h he hu hm, ?_, ?_, ?_⟩
  · intro storage key now entry hget hu
    have hchecks := (Option.filter_eq_some_iff.mp hget).2
    simp only [Bool.and_eq_true] at hchecks
    exact originMatches_sound h he hu hchecks.2
  · intro entry file now hresumable hu
    simp only [entryIsResumableForFile, Bool.and_eq_true] at hresumable
    exact originMatches_sound h he hu hresumable.1.2
  · exact fun _ _ _ _ _ hparse hscheme hne hname hvalue =>
      exists_decoy he hparse hscheme hne hname hvalue

end Check

/-- Hosts that are names, in lower case. -/
def nameHosts : HostParser Chars where
  parse text := if text ≠ [] ∧ text.all isNameChar then some (lower text) else none

theorem isNameChar_toLower (c : Char) : isNameChar c.toLower = isNameChar c := by
  refine Url.apply_toLower (p := isNameChar) true (fun c h => ?_) c
  simp [isNameChar, Char.isAlphanum, h]

theorem nameHosts_lawful : nameHosts.Lawful where
  parse_lower text := by
    have hall : (lower text).all isNameChar = text.all isNameChar := by
      rw [lower, List.all_map, show isNameChar ∘ Char.toLower = isNameChar from
        funext isNameChar_toLower]
    have hne : lower text = [] ↔ text = [] := List.map_eq_nil_iff
    simp only [nameHosts, hall, ne_eq, hne, Url.lower_lower]
  not_control text host h c hc := by
    obtain ⟨⟨-, hall⟩, -⟩ := Option.ite_none_right_eq_some.mp h
    have hname := List.all_eq_true.mp hall c hc
    simp only [isNameChar, Char.isAlphanum, Bool.or_eq_true, beq_iff_eq] at hname
    rcases hname with ((halpha | hdigit) | rfl) | rfl
    · exact Url.isControl_of_isAlpha halpha
    · exact Url.isControl_of_isDigit hdigit
    · decide
    · decide
  bracket text host h hmem := by
    obtain ⟨⟨-, hall⟩, -⟩ := Option.ite_none_right_eq_some.mp h
    exact absurd (List.all_eq_true.mp hall '[' hmem) (by decide)

theorem origin_check_sample :
    SameOrigin nameHosts "https://good.example/files" "https://GOOD.example:443/files/1" ∧
    ∃ url, originMatches "https://good.example/files" url = true ∧
      ∃ o, requestOrigin nameHosts url = some o ∧ o.scheme = "https".toList ∧
        o.host = "evil.example".toList := by
  have hendpoint : Unambiguous "https://good.example/files" := by decide +kernel
  have h := origin_check nameHosts_lawful hendpoint
  have hparse : parseOrigin "https://good.example/files" =
      some ("https".toList, "good.example".toList, 443) := by decide +kernel
  refine ⟨h.1 _ (by decide +kernel) (by decide +kernel), ?_⟩
  exact h.2.2.2 _ _ _ "evil.example".toList _ hparse (.inr rfl) (by decide +kernel)
    (Text.forall_of_all (by decide +kernel)) (by decide +kernel)

/-- A backslash before the at sign hides the host that the browser asks. -/
theorem originMatches_backslash :
    ¬∀ hosts : HostParser Chars, hosts.Lawful → ∀ endpoint url,
      originMatches endpoint url = true → SameOrigin hosts endpoint url := by
  intro hall
  have hm : originMatches "https://good.example/files" "https://evil.example\\@good.example/f" =
      true := by decide +kernel
  have ho : requestOrigin nameHosts "https://good.example/files" =
      some { scheme := "https".toList, host := "good.example".toList, port := 443 } := by
    decide +kernel
  have ho' : requestOrigin nameHosts "https://evil.example\\@good.example/f" =
      some { scheme := "https".toList, host := "evil.example".toList, port := 443 } := by
    decide +kernel
  have hsame := hall nameHosts nameHosts_lawful _ _ hm _ _ ho ho'
  exact absurd hsame (by decide +kernel)

end Browser

end TusRs
