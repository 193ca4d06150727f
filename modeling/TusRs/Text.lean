import Mathlib.Data.List.DropRight
import Mathlib.Data.List.Infix

/-!
# ASCII text

A header value is a byte string that reads as text if it is visible ASCII, in which only
spaces and tabs are white. Values are cut at separators, trimmed, and split into words.
-/

namespace Text

abbrev Chars := List Char

/-- Printable ASCII, the space or a tab. -/
def visible (b : UInt8) : Bool := b == 9 || (32 ≤ b && b < 127)

def charOf (b : UInt8) : Char := Char.ofNat b.toNat

/-- The text of a byte string, unless a byte is not visible ASCII. -/
def read (raw : List UInt8) : Option Chars :=
  if raw.all visible then some (raw.map charOf) else none

def trimStart (cs : Chars) : Chars := cs.dropWhile Char.isWhitespace

/-- The text without white space at its ends. -/
def trim (cs : Chars) : Chars := (trimStart (trimStart cs).reverse).reverse

/-- The words between white space. -/
def words (cs : Chars) : List Chars :=
  (cs.splitOnP Char.isWhitespace).filter fun word => !word.isEmpty

/-- The text before and after the first separator. -/
def splitOnce (sep : Char) : Chars → Option (Chars × Chars)
  | [] => none
  | c :: cs =>
    if c = sep then some ([], cs) else (splitOnce sep cs).map fun (a, b) => (c :: a, b)

/-! ## Trimming -/

theorem trimStart_cons {c : Char} {cs : Chars} (h : c.isWhitespace = false) :
    trimStart (c :: cs) = c :: cs := by
  rw [trimStart, List.dropWhile_cons_of_neg]
  rw [h]
  exact Bool.false_ne_true

/-- Text that neither starts nor ends in white space. -/
def Tight (cs : Chars) : Prop :=
  (∀ c ∈ cs.head?, c.isWhitespace = false) ∧ ∀ c ∈ cs.getLast?, c.isWhitespace = false

theorem Tight.of_forall {cs : Chars} (h : ∀ c ∈ cs, c.isWhitespace = false) : Tight cs :=
  ⟨fun c hc => h c (List.mem_of_mem_head? hc), fun c hc => h c (List.mem_of_mem_getLast? hc)⟩

theorem trimStart_eq {cs : Chars} (h : ∀ c ∈ cs.head?, c.isWhitespace = false) :
    trimStart cs = cs := by
  cases cs with
  | nil => rfl
  | cons c cs => exact trimStart_cons (h c rfl)

theorem Tight.trim {cs : Chars} (h : Tight cs) : trim cs = cs := by
  have hlast : trimStart cs.reverse = cs.reverse :=
    trimStart_eq fun c hc => h.2 c (by rwa [List.head?_reverse] at hc)
  rw [Text.trim, trimStart_eq h.1, hlast, List.reverse_reverse]

theorem trim_append_space {cs : Chars} (h : Tight cs) (hne : cs ≠ []) :
    Text.trim (cs ++ [' ']) = cs := by
  have hstart : trimStart (cs ++ [' ']) = cs ++ [' '] := by
    refine trimStart_eq fun c hc => h.1 c ?_
    rwa [List.head?_append_of_ne_nil _ hne] at hc
  have hdrop : trimStart (' ' :: cs.reverse) = trimStart cs.reverse := by
    rw [trimStart, List.dropWhile_cons_of_pos (by decide), trimStart]
  have hlast : trimStart cs.reverse = cs.reverse :=
    trimStart_eq fun c hc => h.2 c (by rwa [List.head?_reverse] at hc)
  rw [Text.trim, hstart, List.reverse_append]
  show (trimStart (' ' :: cs.reverse)).reverse = cs
  rw [hdrop, hlast, List.reverse_reverse]

/-! ## Dropping and taking up to a character -/

section UpTo

variable {p : Char → Bool} {c : Char}

theorem dropWhile_append_cons (hc : p c = false) (a b : Chars) :
    (a ++ c :: b).dropWhile p = a.dropWhile p ++ c :: b := by
  induction a with
  | nil => rw [List.nil_append, List.dropWhile_cons_of_neg (by simp [hc])]; rfl
  | cons d ds ih =>
    by_cases hd : p d = true
    · rw [List.cons_append, List.dropWhile_cons_of_pos hd, ih, List.dropWhile_cons_of_pos hd]
    · rw [List.cons_append, List.dropWhile_cons_of_neg hd, List.dropWhile_cons_of_neg hd]
      rfl

theorem takeWhile_append_cons (hc : p c = false) (a b : Chars) :
    (a ++ c :: b).takeWhile p = a.takeWhile p := by
  induction a with
  | nil => rw [List.nil_append, List.takeWhile_cons_of_neg (by simp [hc])]; rfl
  | cons d ds ih =>
    by_cases hd : p d = true
    · rw [List.cons_append, List.takeWhile_cons_of_pos hd, ih, List.takeWhile_cons_of_pos hd]
    · rw [List.cons_append, List.takeWhile_cons_of_neg hd, List.takeWhile_cons_of_neg hd]

theorem rdropWhile_append_cons (hc : p c = false) (a b : Chars) :
    (a ++ c :: b).rdropWhile p = a ++ c :: b.rdropWhile p := by
  have hrev : (a ++ c :: b).reverse = b.reverse ++ c :: a.reverse := by simp
  rw [List.rdropWhile, hrev, dropWhile_append_cons hc, List.rdropWhile]
  simp

end UpTo

/-! ## Cutting at a separator -/

theorem splitOnce_append {sep : Char} {a : Chars} (b : Chars) (h : sep ∉ a) :
    splitOnce sep (a ++ sep :: b) = some (a, b) := by
  induction a with
  | nil => rw [List.nil_append, splitOnce, if_pos rfl]
  | cons c cs ih =>
    have hc : c ≠ sep := fun hc => h (hc ▸ List.mem_cons_self)
    rw [List.cons_append, splitOnce, if_neg hc, ih fun hm => h (List.mem_cons_of_mem c hm)]
    rfl

theorem splitOnce_eq_some {sep : Char} {cs a b : Chars} (h : splitOnce sep cs = some (a, b)) :
    cs = a ++ sep :: b ∧ sep ∉ a := by
  induction cs generalizing a with
  | nil => cases h
  | cons c cs ih =>
    rw [splitOnce] at h
    split at h
    · next hc =>
      cases h
      exact ⟨hc ▸ rfl, List.not_mem_nil⟩
    · next hc =>
      obtain ⟨⟨a', b'⟩, hsplit, hab⟩ := Option.map_eq_some_iff.mp h
      cases hab
      obtain ⟨rfl, hmem⟩ := ih hsplit
      exact ⟨rfl, fun hm => (List.mem_cons.mp hm).elim (fun h => hc h.symm) hmem⟩

theorem splitOnce_eq_none {sep : Char} {a : Chars} (h : sep ∉ a) : splitOnce sep a = none := by
  induction a with
  | nil => rfl
  | cons c cs ih =>
    have hc : c ≠ sep := fun hc => h (hc ▸ List.mem_cons_self)
    rw [splitOnce, if_neg hc, ih fun hm => h (List.mem_cons_of_mem c hm)]
    rfl

/-- A check of a text, letter by letter. -/
theorem forall_of_all {p : Char → Prop} [DecidablePred p] {cs : Chars}
    (h : (cs.all fun c => decide (p c)) = true) : ∀ c ∈ cs, p c :=
  fun c hc => of_decide_eq_true (List.all_eq_true.mp h c hc)

/-- The characters of joined pieces. -/
theorem mem_intercalate {sep c : Char} {pieces : List Chars} (h : c ∈ [sep].intercalate pieces) :
    c = sep ∨ ∃ piece ∈ pieces, c ∈ piece := by
  induction pieces with
  | nil => cases h
  | cons piece pieces ih =>
    cases pieces with
    | nil =>
      rw [List.intercalate_singleton] at h
      exact .inr ⟨piece, List.mem_cons_self, h⟩
    | cons next rest =>
      rw [List.intercalate_cons_cons, List.mem_append, List.mem_append, List.mem_singleton] at h
      rcases h with (h | h) | h
      · exact .inr ⟨piece, List.mem_cons_self, h⟩
      · exact .inl h
      · exact (ih h).imp_right fun ⟨p, hp, hc⟩ => ⟨p, List.mem_cons_of_mem _ hp, hc⟩

/-- The characters of a piece are those of the text, and no separators. -/
theorem mem_splitOnP {p : Char → Bool} {cs piece : Chars} {c : Char} (h : piece ∈ cs.splitOnP p)
    (hc : c ∈ piece) : c ∈ cs ∧ p c = false := by
  induction cs generalizing piece with
  | nil =>
    rw [List.splitOnP_nil, List.mem_singleton] at h
    subst h
    cases hc
  | cons d ds ih =>
    rw [List.splitOnP_cons_eq_if_modifyHead] at h
    split at h
    · rcases List.mem_cons.mp h with rfl | h
      · cases hc
      · exact (ih h hc).imp_left (List.mem_cons_of_mem d)
    · next hd =>
      obtain ⟨first, rest, hsplit⟩ := List.exists_cons_of_ne_nil (List.splitOnP_ne_nil p ds)
      rw [hsplit] at h ih
      rcases List.mem_cons.mp h with rfl | h
      · rcases List.mem_cons.mp hc with rfl | hc
        · exact ⟨List.mem_cons_self, by simpa using hd⟩
        · exact (ih List.mem_cons_self hc).imp_left (List.mem_cons_of_mem d)
      · exact (ih (List.mem_cons_of_mem _ h) hc).imp_left (List.mem_cons_of_mem d)

/-! ## Words -/

theorem mem_words {cs word : Chars} (h : word ∈ words cs) :
    word ≠ [] ∧ ∀ c ∈ word, c ∈ cs ∧ c.isWhitespace = false := by
  obtain ⟨hsplit, hne⟩ := List.mem_filter.mp h
  refine ⟨?_, fun c hc => mem_splitOnP hsplit hc⟩
  rintro rfl
  cases hne

theorem words_append_cons {ws : Char} (a b : Chars) (h : ws.isWhitespace = true) :
    words (a ++ ws :: b) = words a ++ words b := by
  rw [words, List.splitOnP_append_cons a b h, List.filter_append]
  rfl

theorem words_eq_singleton {word : Chars} (h : ∀ c ∈ word, c.isWhitespace = false)
    (hne : word ≠ []) : words word = [word] := by
  rw [words, List.splitOnP_eq_singleton h]
  cases word with
  | nil => exact absurd rfl hne
  | cons c cs => rfl

/-- Words joined by spaces are split into the same words. -/
theorem words_intercalate {ws : List Chars}
    (h : ∀ word ∈ ws, word ≠ [] ∧ ∀ c ∈ word, c.isWhitespace = false) :
    words ([' '].intercalate ws) = ws := by
  induction ws with
  | nil => rfl
  | cons word ws ih =>
    obtain ⟨hne, hword⟩ := h word List.mem_cons_self
    cases ws with
    | nil => rw [List.intercalate_singleton, words_eq_singleton hword hne]
    | cons next ws =>
      rw [List.intercalate_cons_cons, List.append_assoc, List.singleton_append,
        words_append_cons _ _ (by decide), words_eq_singleton hword hne,
        ih fun w hw => h w (List.mem_cons_of_mem word hw)]
      rfl

end Text
