import Mathlib.Data.List.Infix
import Mathlib.Data.List.DropRight
import TusRs.Text

/-!
# Slash-separated paths

A path is a sequence of names between slashes; empty names do not count. A hierarchical
file system follows a path name by name, and reads `.` and `..` as directions; a flat
store takes every name as it is.
-/

namespace Paths

abbrev Name := List Char

/-- The names of a path. -/
def segments (path : List Char) : List Name :=
  (path.splitOn '/').filter fun name => !name.isEmpty

theorem segments_append_slash (a b : List Char) :
    segments (a ++ '/' :: b) = segments a ++ segments b := by
  unfold segments
  rw [List.splitOn_eq_splitOnP, List.splitOnP_append_cons a b (by decide), List.filter_append]
  rfl

/-- The names of a path without a slash: itself, unless it is empty. -/
theorem segments_of_not_mem {a : List Char} (h : '/' ∉ a) :
    segments a = if a = [] then [] else [a] := by
  have hsplit : a.splitOnP (· == '/') = [a] := by
    refine List.splitOnP_eq_singleton fun c hc => ?_
    rw [beq_eq_false_iff_ne]
    rintro rfl
    exact h hc
  unfold segments
  rw [List.splitOn_eq_splitOnP, hsplit]
  cases a <;> rfl

@[simp] theorem segments_nil : segments [] = [] := rfl

theorem segments_slash_cons (a : List Char) : segments ('/' :: a) = segments a :=
  segments_append_slash [] a

theorem mem_segments {path : List Char} {name : Name} (h : name ∈ segments path) :
    name ≠ [] := by
  obtain ⟨-, hne⟩ := List.mem_filter.mp h
  rintro rfl
  cases hne

/-- Slashes at the front do not count. -/
theorem segments_dropWhile_slash (a : List Char) :
    segments (a.dropWhile (· == '/')) = segments a := by
  induction a with
  | nil => rfl
  | cons c cs ih =>
    by_cases hc : c = '/'
    · subst hc
      rw [List.dropWhile_cons_of_pos (by decide), ih, segments_slash_cons]
    · rw [List.dropWhile_cons_of_neg (by simpa using hc)]

/-- The characters of a name are those of the path, and no slash. -/
theorem mem_of_mem_segments {path : List Char} {name : Name} {c : Char} (h : name ∈ segments path)
    (hc : c ∈ name) : c ∈ path ∧ c ≠ '/' := by
  have hsplit : name ∈ path.splitOnP (· == '/') := (List.mem_filter.mp h).1
  obtain ⟨hmem, hne⟩ := Text.mem_splitOnP hsplit hc
  exact ⟨hmem, by simpa using hne⟩

/-- Joining names and taking the path apart again. -/
theorem segments_intercalate {names : List Name} (h : ∀ name ∈ names, name ≠ [] ∧ '/' ∉ name) :
    segments (['/'].intercalate names) = names := by
  cases names with
  | nil => rfl
  | cons name names =>
    unfold segments
    rw [List.splitOn_intercalate '/' (fun n hn => (h n hn).2) (List.cons_ne_nil _ _)]
    refine List.filter_eq_self.mpr fun n hn => ?_
    cases n with
    | nil => exact absurd rfl (h _ hn).1
    | cons _ _ => rfl

/-! ## Directions -/

/-- One step from a directory; the parent of the root is the root. -/
def enter (dir : List Name) (name : Name) : List Name :=
  if name = ['.'] then dir
  else if name = ['.', '.'] then dir.dropLast
  else dir ++ [name]

/-- Where a path leads from a directory. -/
def follow (dir : List Name) (names : List Name) : List Name := names.foldl enter dir

/-- A name that leads one directory down. -/
def Plain (name : Name) : Prop := name ≠ ['.'] ∧ name ≠ ['.', '.']

instance (name : Name) : Decidable (Plain name) := inferInstanceAs (Decidable (_ ∧ _))

theorem enter_plain {dir : List Name} {name : Name} (h : Plain name) :
    enter dir name = dir ++ [name] := by
  rw [enter, if_neg h.1, if_neg h.2]

theorem follow_append (dir : List Name) (a b : List Name) :
    follow dir (a ++ b) = follow (follow dir a) b :=
  List.foldl_append

theorem follow_plain {dir names : List Name} (h : ∀ name ∈ names, Plain name) :
    follow dir names = dir ++ names := by
  induction names generalizing dir with
  | nil => rw [List.append_nil]; rfl
  | cons name names ih =>
    have hrest : follow (dir ++ [name]) names = dir ++ [name] ++ names :=
      ih fun n hn => h n (List.mem_cons_of_mem _ hn)
    show follow (enter dir name) names = dir ++ name :: names
    rw [enter_plain (h name List.mem_cons_self), hrest, List.append_assoc, List.singleton_append]

/-! ## Trees -/

/-- One of the two directories lies in the other. -/
def Nested (a b : List Name) : Prop := a <+: b ∨ b <+: a

theorem Nested.symm {a b : List Name} (h : Nested a b) : Nested b a := Or.symm h

theorem nested_of_common {a b c : List Name} (ha : a <+: c) (hb : b <+: c) : Nested a b :=
  List.prefix_or_prefix_of_prefix ha hb

theorem nested_children {dir : List Name} {a b : Name} :
    Nested (dir ++ [a]) (dir ++ [b]) ↔ a = b := by
  constructor
  · rintro (h | h)
    · exact (List.cons_prefix_cons.mp ((List.prefix_append_right_inj dir).mp h)).1
    · exact (List.cons_prefix_cons.mp ((List.prefix_append_right_inj dir).mp h)).1.symm
  · rintro rfl
    exact .inl List.prefix_rfl

end Paths
