/-! White space in the sense of the Unicode property `White_Space`, and trimming.
Texts are taken apart as lists of characters. A trimmed text has no white
space at either end, and nothing inside it changes.
-/
namespace UiPlan.Text

def isBlank (c : Char) : Bool :=
  let n := c.toNat
  (9 ≤ n && n ≤ 13) || n == 32 || n == 0x85 || n == 0xA0 || n == 0x1680 ||
    (0x2000 ≤ n && n ≤ 0x200A) || n == 0x2028 || n == 0x2029 || n == 0x202F ||
    n == 0x205F || n == 0x3000

def dropEndWhile (p : Char → Bool) (cs : List Char) : List Char :=
  (cs.reverse.dropWhile p).reverse

def takeEndWhile (p : Char → Bool) (cs : List Char) : List Char :=
  (cs.reverse.takeWhile p).reverse

def trimStart (cs : List Char) : List Char := cs.dropWhile isBlank

def trimEnd (cs : List Char) : List Char := dropEndWhile isBlank cs

def trim (cs : List Char) : List Char := trimEnd (trimStart cs)

def contains (part : List Char) : List Char → Bool
  | [] => part.isEmpty
  | c :: rest => part.isPrefixOf (c :: rest) || contains part rest

def after? : List Char → List Char → Option (List Char)
  | [], cs => some cs
  | _ :: _, [] => none
  | p :: part, c :: cs => if p = c then after? part cs else none

theorem contains_iff {part cs : List Char} : contains part cs = true ↔ part <:+: cs := by
  induction cs with
  | nil => simp [contains]
  | cons c cs step => simp [contains, step, List.infix_cons_iff]

theorem prefix_of_outside {part u w : List Char} {c : Char} (outside : c ∉ part)
    (front : part <+: u ++ c :: w) : part <+: u := by
  by_cases short : part.length ≤ u.length
  · exact List.prefix_of_prefix_length_le front (List.prefix_append u _) short
  · have here : u ++ [c] <+: u ++ c :: w := by simp
    have within : u ++ [c] <+: part := List.prefix_of_prefix_length_le here front (by simp; omega)
    exact absurd (within.subset (by simp)) outside

theorem contains_of_not_mem {part cs : List Char} {c : Char} (inside : c ∈ part) (outside : c ∉ cs) :
    contains part cs = false := by
  rw [Bool.eq_false_iff, ne_eq, contains_iff]
  exact fun found => outside (found.subset inside)

/-- Nothing is found across a character that is not in the part. -/
theorem contains_append_cons {part : List Char} {c : Char} (nonempty : part ≠ []) (outside : c ∉ part)
    (u v : List Char) : contains part (u ++ c :: v) = (contains part u || contains part v) := by
  have stays (u : List Char) : part.isPrefixOf (u ++ c :: v) = part.isPrefixOf u := by
    rw [Bool.eq_iff_iff, List.isPrefixOf_iff_prefix, List.isPrefixOf_iff_prefix]
    exact ⟨prefix_of_outside outside, fun front => front.trans (List.prefix_append u _)⟩
  have noFront : part.isPrefixOf [] = part.isEmpty := by cases part <;> rfl
  induction u with
  | nil =>
    have here := stays []
    rw [List.nil_append, noFront] at here
    simp [contains, here]
  | cons d u step =>
    have here := stays (d :: u)
    rw [List.cons_append] at here
    rw [List.cons_append, contains, here, step, contains, Bool.or_assoc]

theorem contains_cons {part : List Char} {c : Char} (nonempty : part ≠ []) (other : ∀ d ∈ part.head?, d ≠ c)
    (cs : List Char) : contains part (c :: cs) = contains part cs := by
  obtain ⟨d, rest, rfl⟩ := List.exists_cons_of_ne_nil nonempty
  have apart : d ≠ c := other d rfl
  simp [contains, apart]

theorem dropEndWhile_append_of_all {p : Char → Bool} {v : List Char} (all : ∀ c ∈ v, p c = true)
    (u : List Char) : dropEndWhile p (u ++ v) = dropEndWhile p u := by
  have back : ∀ c ∈ v.reverse, p c = true := fun c inside => all c (List.mem_reverse.mp inside)
  rw [dropEndWhile, List.reverse_append, List.dropWhile_append_of_pos back, dropEndWhile]

theorem dropEndWhile_append_cons {p : Char → Bool} {c : Char} (stays : p c = false)
    (u v : List Char) : dropEndWhile p (u ++ c :: v) = u ++ c :: dropEndWhile p v := by
  have split : (u ++ c :: v).reverse = v.reverse ++ c :: u.reverse := by simp
  rw [dropEndWhile, split, List.dropWhile_append]
  split
  · rename_i emptied
    rw [List.dropWhile_cons_of_neg (by simp [stays]), dropEndWhile, List.isEmpty_iff.mp emptied]
    simp
  · simp [dropEndWhile]

theorem ne_some_iff {found : Option Char} {c : Char} : found ≠ some c ↔ ∀ d ∈ found, d ≠ c := by
  constructor
  · rintro other d rfl rfl
    exact other rfl
  · rintro apart rfl
    exact apart c rfl rfl

theorem dropWhile_eq_iff {p : Char → Bool} {cs kept : List Char} :
    cs.dropWhile p = kept ↔
      ∃ front, cs = front ++ kept ∧ (∀ c ∈ front, p c = true) ∧ ∀ c ∈ kept.head?, p c = false := by
  constructor
  · rintro rfl
    refine ⟨cs.takeWhile p, List.takeWhile_append_dropWhile.symm,
      List.all_eq_true.mp List.all_takeWhile, fun c first => ?_⟩
    have other := List.head?_dropWhile_not p cs
    rwa [Option.mem_def.mp first] at other
  · rintro ⟨front, rfl, all, stays⟩
    rw [List.dropWhile_append_of_pos all]
    cases kept with
    | nil => rfl
    | cons c kept => rw [List.dropWhile_cons_of_neg (by simp [stays c rfl])]

theorem dropEndWhile_eq_iff {p : Char → Bool} {cs kept : List Char} :
    dropEndWhile p cs = kept ↔
      ∃ back, cs = kept ++ back ∧ (∀ c ∈ back, p c = true) ∧ ∀ c ∈ kept.getLast?, p c = false := by
  rw [dropEndWhile, List.reverse_eq_iff, dropWhile_eq_iff, List.head?_reverse]
  constructor
  · rintro ⟨front, whole, all, stays⟩
    refine ⟨front.reverse, ?_, fun c inside => all c (List.mem_reverse.mp inside), stays⟩
    simpa using congrArg List.reverse whole
  · rintro ⟨back, rfl, all, stays⟩
    exact ⟨back.reverse, List.reverse_append, fun c inside => all c (List.mem_reverse.mp inside), stays⟩

theorem trim_append_of_blank {v : List Char} (blank : ∀ c ∈ v, isBlank c = true) (u : List Char) :
    trim (u ++ v) = trim u := by
  rw [trim, trimStart, List.dropWhile_append, trim, trimStart]
  split
  · rename_i emptied
    have whole : (v ++ []).dropWhile isBlank = [] := List.dropWhile_append_of_pos blank
    rw [List.append_nil] at whole
    rw [List.isEmpty_iff.mp emptied, whole]
  · exact dropEndWhile_append_of_all blank _

structure Trimmed (cs : List Char) : Prop where
  front : ∀ c ∈ cs.head?, isBlank c = false
  back : ∀ c ∈ cs.getLast?, isBlank c = false

theorem isBlank_head_dropWhile {c : Char} {cs : List Char} (first : c ∈ (cs.dropWhile isBlank).head?) :
    isBlank c = false := by
  have kept := List.head?_dropWhile_not isBlank cs
  rwa [Option.mem_def.mp first] at kept

theorem prefix_trimEnd (cs : List Char) : trimEnd cs <+: cs := by
  rw [← List.reverse_suffix, trimEnd, dropEndWhile, List.reverse_reverse]
  exact List.dropWhile_suffix isBlank

theorem trim_infix (cs : List Char) : trim cs <:+: cs :=
  (prefix_trimEnd _).isInfix.trans (List.dropWhile_suffix isBlank).isInfix

theorem trimmed_trim (cs : List Char) : Trimmed (trim cs) where
  front c first := by
    obtain ⟨ends, whole⟩ := prefix_trimEnd (trimStart cs)
    have start : c ∈ (trimStart cs).head? := by
      rw [← whole, List.head?_append, show (trimEnd (trimStart cs)).head? = some c from first]
      rfl
    exact isBlank_head_dropWhile start
  back c last := by
    rw [trim, trimEnd, dropEndWhile, List.getLast?_reverse] at last
    exact isBlank_head_dropWhile last

theorem Trimmed.trim_eq {cs : List Char} (trimmed : Trimmed cs) : trim cs = cs := by
  have whole {ds : List Char} (kept : ∀ c ∈ ds.head?, isBlank c = false) : ds.dropWhile isBlank = ds :=
    dropWhile_eq_iff.mpr ⟨[], rfl, by simp, kept⟩
  rw [trim, trimStart, whole trimmed.front, trimEnd, dropEndWhile, whole, List.reverse_reverse]
  rw [List.head?_reverse]
  exact trimmed.back

end UiPlan.Text
