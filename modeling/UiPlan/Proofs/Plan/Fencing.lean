import UiPlan.Plan.Fence
import UiPlan.Proofs.Json.Editing
import UiPlan.Proofs.Json.ReadBack

/-! Fences and white space around the JSON of a plan. Every text that is accepted as JSON is
accepted as planner output, with fences around it as well as without. Fences are dropped
wherever they stand, inside strings too, so a plan is the one of the JSON value if no three
backticks stand in the text; a string that holds three of them loses them. What two dropped
fences stood between never makes up a new one, so stripping leaves no fence.
-/
namespace UiPlan.Plan

def fence (tag : List Char) : List Char := '`' :: '`' :: '`' :: tag

def afterBreak : List Char → List Char
  | '\n' :: rest => rest
  | cs => cs

/-- The function drops every fence with the tag, and with each the line break behind it. -/
structure Drops (tag : List Char) (drop : List Char → List Char) : Prop where
  nil : drop [] = []
  fenced (rest : List Char) : drop (fence tag ++ rest) = drop (afterBreak rest)
  other {c : Char} {cs : List Char} (noFence : ¬fence tag <+: c :: cs) : drop (c :: cs) = c :: drop cs

theorem drops_tagged : Drops ['j', 's', 'o', 'n'] dropTaggedFences where
  nil := rfl
  fenced rest := by
    unfold afterBreak
    split
    · rfl
    · rename_i other
      simp only [fence, List.cons_append, List.nil_append]
      rw [dropTaggedFences]
      exact other
  other {c cs} noFence := by
    rw [dropTaggedFences]
    · rintro rest rfl rfl
      exact noFence (List.prefix_append (fence ['j', 's', 'o', 'n']) ('\n' :: rest))
    · rintro rest rfl rfl
      exact noFence (List.prefix_append (fence ['j', 's', 'o', 'n']) rest)

theorem drops_bare : Drops [] dropFences where
  nil := rfl
  fenced rest := by
    unfold afterBreak
    split
    · rfl
    · rename_i other
      simp only [fence, List.cons_append, List.nil_append]
      rw [dropFences]
      exact other
  other {c cs} noFence := by
    rw [dropFences]
    · rintro rest rfl rfl
      exact noFence (List.prefix_append (fence []) ('\n' :: rest))
    · rintro rest rfl rfl
      exact noFence (List.prefix_append (fence []) rest)

private theorem afterBreak_append {c : Char} (noBreak : c ≠ '\n') (u w : List Char) :
    afterBreak (u ++ c :: w) = afterBreak u ++ c :: w := by
  cases u with
  | nil =>
    rw [List.nil_append, afterBreak]
    · rfl
    · rintro rest same
      exact noBreak (List.cons.inj same).1
  | cons b u =>
    by_cases same : b = '\n'
    · rw [same]
      rfl
    · simp [afterBreak, same]

private theorem length_afterBreak_le (cs : List Char) : (afterBreak cs).length ≤ cs.length := by
  unfold afterBreak
  split
  · exact Nat.le_succ _
  · exact Nat.le_refl _

namespace Drops

variable {tag : List Char} {drop : List Char → List Char} (drops : Drops tag drop)
include drops

theorem cons {c : Char} (noBacktick : c ≠ '`') (cs : List Char) : drop (c :: cs) = c :: drop cs :=
  drops.other fun front => noBacktick (List.cons_prefix_cons.mp front).1.symm

theorem append {u : List Char} (noBacktick : '`' ∉ u) (w : List Char) :
    drop (u ++ w) = u ++ drop w := by
  induction u with
  | nil => rfl
  | cons c u step =>
    simp only [List.mem_cons, not_or] at noBacktick
    obtain ⟨here, behind⟩ := noBacktick
    rw [List.cons_append, drops.cons (Ne.symm here), step behind, List.cons_append]

/-- No fence goes over a character that is in no fence. -/
theorem append_cons {x : Char} (outside : x ∉ fence tag) (noBreak : x ≠ '\n') (u w : List Char) :
    drop (u ++ x :: w) = drop u ++ x :: drop w := by
  have noBacktick : x ≠ '`' := by
    rintro rfl
    exact outside List.mem_cons_self
  -- by length, since what is left behind a fence is also without its line break
  induction size : u.length using Nat.strongRecOn generalizing u with
  | ind size step =>
    subst size
    cases u with
    | nil => rw [List.nil_append, drops.cons noBacktick, drops.nil, List.nil_append]
    | cons c u =>
      by_cases front : fence tag <+: c :: u
      · obtain ⟨rest, same⟩ := front
        have shorter := congrArg List.length same
        simp only [fence, List.length_append, List.length_cons] at shorter
        have later := length_afterBreak_le rest
        rw [← same, List.append_assoc, drops.fenced, afterBreak_append noBreak, drops.fenced]
        exact step _ (by rw [List.length_cons]; omega) _ rfl
      · have still : ¬fence tag <+: c :: (u ++ x :: w) := fun far => front (Text.prefix_of_outside outside far)
        rw [drops.other front, List.cons_append, drops.other still, step u.length (by simp) u rfl,
          List.cons_append]

/-- Behind a character that is in no fence, what holds no backtick stays as it is. -/
theorem append_closed {x : Char} (outside : x ∉ fence tag) (noBreak : x ≠ '\n') (u : List Char)
    {v : List Char} (noBacktick : '`' ∉ v) (w : List Char) :
    drop (u ++ x :: v ++ w) = drop u ++ x :: v ++ drop w := by
  rw [List.append_assoc, List.cons_append, drops.append_cons outside noBreak, drops.append noBacktick,
    List.append_assoc, List.cons_append]

private theorem eq_self {cs : List Char} (noFence : ¬fence [] <:+: cs) : drop cs = cs := by
  induction cs with
  | nil => exact drops.nil
  | cons c cs step =>
    have here : ¬fence tag <+: c :: cs := fun front =>
      noFence ((List.prefix_append (fence []) tag).trans front).isInfix
    rw [drops.other here, step fun inside => noFence (inside.trans (List.suffix_cons c cs).isInfix)]

/-- What is left of the spelling of a string spells a string: fences hold no backslash, so no
escape is torn, and no line break stands in a spelling. -/
theorem spells (noEscape : '\\' ∉ fence tag) {text content : List Char}
    (spelled : Json.Spells text content) : ∃ content', Json.Spells (drop text) content' := by
  induction size : text.length using Nat.strongRecOn generalizing text content with
  | ind size step =>
    subst size
    by_cases front : fence tag <+: text
    · obtain ⟨rest, rfl⟩ := front
      obtain ⟨inner, behind⟩ := spelled.of_append noEscape
      have noBreak : afterBreak rest = rest := by
        unfold afterBreak
        split
        · exact absurd (by decide) (behind.of_cons (by decide)).1
        · rfl
      rw [drops.fenced, noBreak]
      exact step _ (by simp [fence]; omega) behind rfl
    · cases spelled with
      | nil => exact ⟨[], by rw [drops.nil]; exact .nil⟩
      | plain noQuote noEscape noControl behind =>
        obtain ⟨content', later⟩ := step _ (by simp) behind rfl
        rw [drops.other front]
        exact ⟨_, later.plain noQuote noEscape noControl⟩
      | escape noBacktick reads behind =>
        obtain ⟨content', later⟩ := step _ (by rw [List.length_cons, List.length_append]; omega) behind rfl
        rw [drops.cons (by decide), drops.append noBacktick]
        exact ⟨_, later.escape noBacktick reads⟩

theorem edit (noEscape : '\\' ∉ fence tag) (noQuote : '"' ∉ fence tag) : Json.Edit drop False where
  nil := drops.nil
  solid {c} solid cs := by
    refine drops.cons ?_ cs
    rintro rfl
    cases solid
  space {c} space cs := by
    refine .inl (drops.cons ?_ cs)
    rintro rfl
    cases space
  string {cs rest value} ok := by
    obtain ⟨text, content, spelled, rfl, rfl⟩ := Json.readString_iff.mp ok
    obtain ⟨content', later⟩ := drops.spells noEscape spelled
    rw [drops.append_cons noQuote (by decide)]
    exact ⟨_, Json.readString_iff.mpr ⟨_, content', later, rfl, rfl⟩, False.elim⟩

end Drops

/-- In front of what is left no backtick is new: one that stays has no fence right behind it, since
the two would begin with a fence. -/
theorem Drops.prefix_of_backticks {drop : List Char → List Char} (drops : Drops [] drop) (count : Nat)
    {cs : List Char} (noFence : ¬fence [] <+: cs) (front : List.replicate count '`' <+: drop cs) :
    List.replicate count '`' <+: cs := by
  induction count generalizing cs with
  | zero => exact List.nil_prefix
  | succ count step =>
    cases cs with
    | nil =>
      rw [drops.nil] at front
      exact front
    | cons c cs =>
      rw [drops.other noFence, List.replicate_succ, List.cons_prefix_cons] at front
      obtain ⟨rfl, behind⟩ := front
      have noFenceBehind : ¬fence [] <+: cs := by
        rintro ⟨rest, rfl⟩
        exact noFence ⟨'`' :: rest, rfl⟩
      rw [List.replicate_succ, List.cons_prefix_cons]
      exact ⟨rfl, step noFenceBehind behind⟩

/-- One pass leaves no bare fence behind. -/
theorem Drops.noFence {drop : List Char → List Char} (drops : Drops [] drop) (cs : List Char) :
    ¬fence [] <:+: drop cs := by
  induction size : cs.length using Nat.strongRecOn generalizing cs with
  | ind size step =>
    subst size
    by_cases front : fence [] <+: cs
    · obtain ⟨rest, rfl⟩ := front
      have shorter := length_afterBreak_le rest
      rw [drops.fenced]
      exact step _ (by simp only [fence, List.length_append, List.length_cons]; omega) _ rfl
    · cases cs with
      | nil =>
        rw [drops.nil]
        decide
      | cons c cs =>
        have kept : drop (c :: cs) = c :: drop cs := drops.other front
        rw [kept, List.infix_cons_iff]
        rintro (here | later)
        · rw [← kept] at here
          exact front (drops.prefix_of_backticks 3 front here)
        · exact step cs.length (by simp) cs rfl later

theorem stripFences_of_noFence {source : List Char} (noFence : ¬fence [] <:+: source) :
    stripFences source = Text.trim source := by
  rw [stripFences, drops_tagged.eq_self noFence, drops_bare.eq_self noFence]

/-- Stripped text holds no fence and has no white space at either end, so to strip it again changes
nothing. -/
theorem stripFences_settles (cs : List Char) :
    ¬"```".toList <:+: stripFences cs ∧ Text.Trimmed (stripFences cs) ∧
      stripFences (stripFences cs) = stripFences cs := by
  have noFence : ¬fence [] <:+: stripFences cs := fun inside =>
    drops_bare.noFence (dropTaggedFences cs) (inside.trans (Text.trim_infix _))
  have trimmed : Text.Trimmed (stripFences cs) := Text.trimmed_trim _
  exact ⟨noFence, trimmed, by rw [stripFences_of_noFence noFence, trimmed.trim_eq]⟩

/-- Dropping the tagged fence makes up a bare one, which is dropped in its turn. -/
example : stripFences "`````json`x".toList = ['x'] := by decide

private theorem accepts_stripFences {source : List Char} {value : Json} (ok : Json.parse source = .ok value) :
    ∃ value', Json.parse (stripFences source) = .ok value' := by
  obtain ⟨_, untagged, _⟩ := (drops_tagged.edit (by decide) (by decide)).parse ok
  obtain ⟨value', unfenced, _⟩ := (drops_bare.edit (by decide) (by decide)).parse untagged
  exact ⟨value', Json.parse_trim unfenced⟩

private theorem stripFences_tagged (cs : List Char) :
    stripFences ("```json\n".toList ++ cs) = stripFences cs := rfl

private theorem stripFences_bare (cs : List Char) :
    stripFences ("```\n".toList ++ cs) = stripFences cs := rfl

private theorem not_mem_fence {c : Char} (closes : Json.closesValue c = true) :
    c ∉ fence ['j', 's', 'o', 'n'] := by
  intro inside
  simp only [fence, List.mem_cons, List.not_mem_nil, or_false] at inside
  rcases inside with rfl | rfl | rfl | rfl | rfl | rfl | rfl <;> cases closes

private theorem stripFences_closed {source : List Char} {value : Json} (ok : Json.parse source = .ok value) :
    stripFences (source ++ "\n```".toList) = stripFences source := by
  obtain ⟨before, c, spaces, rfl, closes, space⟩ := Json.closes_of_parse ok
  have outside := not_mem_fence closes
  have alsoOutside : c ∉ fence [] := fun inside => outside (List.mem_append_left _ inside)
  have noBreak : c ≠ '\n' := by
    rintro rfl
    cases closes
  have noBacktick : '`' ∉ spaces := fun inside => by cases space _ inside
  -- The last character of the value is in no fence, so each pass works on both sides of it apart.
  have untagged := drops_tagged.append_closed outside noBreak before noBacktick
  have unfenced := drops_bare.append_closed alsoOutside noBreak (dropTaggedFences before) noBacktick
  have shut : Text.trim (dropFences (dropTaggedFences (before ++ c :: spaces ++ "\n```".toList))) =
      Text.trim (dropFences (dropTaggedFences before) ++ c :: spaces ++ ['\n']) := by
    rw [untagged]
    exact congrArg Text.trim (unfenced "\n```".toList)
  have bare : dropFences (dropTaggedFences (before ++ c :: spaces)) =
      dropFences (dropTaggedFences before) ++ c :: spaces := by
    have tagless := untagged []
    have fenceless := unfenced []
    rw [List.append_nil, drops_tagged.nil, List.append_nil] at tagless
    rw [List.append_nil, drops_bare.nil, List.append_nil] at fenceless
    rw [tagless, fenceless]
  have blank : ∀ b ∈ ['\n'], Text.isBlank b = true := fun b inside => by
    rw [List.mem_singleton.mp inside]
    rfl
  rw [stripFences, shut, Text.trim_append_of_blank blank, stripFences, bare]

/-- Fences around a text that is accepted as JSON do not matter. Every such text is read as a
plan, and it is the plan of the JSON value if three backticks stand nowhere in the text. -/
theorem parse_fenced {source : List Char} {value : Json} (ok : Json.parse source = .ok value) :
    ∃ plan, parse source = .ok plan ∧
      parse ("```json\n".toList ++ source ++ "\n```".toList) = .ok plan ∧
      parse ("```\n".toList ++ source ++ "\n```".toList) = .ok plan ∧
      (¬"```".toList <:+: source → plan = ofJson value) := by
  obtain ⟨value', found⟩ := accepts_stripFences ok
  have plain : parse source = .ok (ofJson value') := by
    rw [parse, found]
    rfl
  have shut := stripFences_closed ok
  refine ⟨ofJson value', plain, ?_, ?_, fun noFence => ?_⟩
  · rwa [parse, List.append_assoc, stripFences_tagged, shut]
  · rwa [parse, List.append_assoc, stripFences_bare, shut]
  · rw [stripFences_of_noFence noFence, Json.parse_trim ok] at found
    rw [Except.ok.inj found]

def inlineCode : Json := .obj [("layout", .str "use `x`")]

theorem parse_fenced_inlineCode :
    Json.parse inlineCode.text = .ok inlineCode ∧
      ∃ plan, parse inlineCode.text = .ok plan ∧
        parse ("```json\n".toList ++ inlineCode.text ++ "\n```".toList) = .ok plan ∧
        parse ("```\n".toList ++ inlineCode.text ++ "\n```".toList) = .ok plan ∧
        plan = ofJson inlineCode := by
  have readable : inlineCode.Readable := ⟨rfl, by decide⟩
  have ok : Json.parse inlineCode.text = .ok inlineCode := readable.parse_text
  have noFence : Text.contains "```".toList inlineCode.text = false := by decide
  obtain ⟨plan, plain, tagged, bare, same⟩ := parse_fenced ok
  refine ⟨ok, plan, plain, tagged, bare, same fun inside => ?_⟩
  rw [Text.contains_iff.mpr inside] at noFence
  cases noFence

/-- A fence inside a string is dropped like any other. -/
theorem fence_in_string_lost :
    ¬∀ source value, Json.parse source = .ok value → parse source = .ok (ofJson value) := by
  intro all
  have whole : (Json.obj [("layout", .str "a```b")]).Readable := ⟨rfl, by decide⟩
  have torn : (Json.obj [("layout", .str "ab")]).Readable := ⟨rfl, by decide⟩
  have dropped : stripFences (Json.obj [("layout", .str "a```b")]).text =
      (Json.obj [("layout", .str "ab")]).text := by decide
  have kept := all _ _ whole.parse_text
  rw [parse, dropped, torn.parse_text] at kept
  have texts : Plan.mk (some (.text "ab")) = ⟨some (.text "a```b")⟩ := Except.ok.inj kept
  simp at texts

end UiPlan.Plan
