import UiPlan.Proofs.Program.Attributes
import UiPlan.Proofs.Program.Outline

/-! Written elements read back. Between two tags stand only spaces, line breaks and escaped
text, so the reader takes everything up to the next tag or comment as one text, and this is
the run of words that was written there. The induction over the contents therefore
carries the words of the run that has not ended yet.
-/
namespace UiPlan.Program

private theorem isTextChar_of_isInert {c : Char} (inert : Text.isInert c = true) : isTextChar c = true := by
  simp_all [Text.isInert, isTextChar]

theorem all_isTextChar_escapeContent (cs : List Char) :
    (Text.escapeContent cs).all isTextChar = true := by
  have inert := Text.all_isInert_escapeContent cs
  rw [List.all_eq_true] at inert ⊢
  exact fun c inside => isTextChar_of_isInert (inert c inside)

theorem all_isTextChar_pad (n : Nat) : (pad n).all isTextChar = true := by
  rw [pad, List.all_replicate]
  cases n <;> rfl

theorem all_isTextChar_writtenLines (n : Nat) (items : List (List Char)) :
    (Text.writtenLines n items).all isTextChar = true := by
  rw [Text.writtenLines, List.all_flatMap, List.all_eq_true]
  intro item _
  rw [List.all_append, List.all_append, ← pad, all_isTextChar_pad, all_isTextChar_escapeContent]
  rfl

private theorem filter_map_toList_eq_nil_iff (run : List String) :
    (run.map String.toList).filter (· ≠ []) = [] ↔ run.all (· = "") = true := by
  simp

theorem textTerm?_of_keptLines {raw : List Char} {run : List String}
    (kept : Text.keptLines true (Text.lines raw) = ((run.map String.toList).filter (· ≠ [])).map
      fun item => (Text.escapeContent item).map Text.untab) :
    (textTerm? raw).toList = runTerms run := by
  rw [textTerm?, Text.clean?_eq, kept, runTerms]
  cases shape : (run.map String.toList).filter (· ≠ []) with
  | nil =>
    rw [if_pos ((filter_map_toList_eq_nil_iff run).mp shape)]
    rfl
  | cons item items =>
    have full : ¬run.all (· = "") = true := fun empty => by
      rw [(filter_map_toList_eq_nil_iff run).mpr empty] at shape
      cases shape
    have decoded := Text.decode_intercalate_untab (item :: items)
    rw [if_neg full, Text.joinedTexts, shape, ← decoded]
    rfl

/-- The words on the lines between two tags become the text of their run. -/
theorem textTerm?_writtenLines (n k : Nat) (run : List String) :
    (textTerm? ('\n' :: (Text.writtenLines n (run.map String.toList) ++ pad k))).toList =
      runTerms run := by
  have one : Text.isOneLine (pad k) = true := by simp [Text.isOneLine, pad]
  have first := Text.lines_append_feed (show Text.isOneLine [] = true from rfl)
    (Text.writtenLines n (run.map String.toList) ++ pad k)
  refine textTerm?_of_keptLines ?_
  rw [List.nil_append] at first
  rw [first, Text.lines_writtenLines n _ one]
  exact Text.keptLines_writtenLines n k _

/-- Escaped words are cleaned and decoded to one text, or to nothing if they are empty. -/
theorem textTerm?_escapeContent (words : String) :
    (textTerm? (Text.escapeContent words.toList)).toList = runTerms [words] := by
  refine textTerm?_of_keptLines ?_
  rw [Text.lines_of_isOneLine (Text.isOneLine_escapeContent _), Text.keptLines,
    Text.isBlankLine_escapeContent]
  cases shape : words.toList with
  | nil => simp [Text.keptLines, shape]
  | cons c cs =>
    have cleaned : Text.cleanLine true true (List.replicate 0 ' ' ++ Text.escapeContent (c :: cs)) =
        (Text.escapeContent (c :: cs)).map Text.untab :=
      Text.cleanLine_indented 0 (List.cons_ne_nil c cs) (.inr rfl)
    simp only [List.replicate_zero, List.nil_append] at cleaned
    simp [Text.keptLines, shape, cleaned]

section Steps

variable {element : Reader Term} {tag : Option String} {budget : Nat} {read : List Term}

theorem readContentsFrom_text {raw rest : List Char} (nonempty : raw ≠ [])
    (plain : raw.all isTextChar = true) (stop : stopsAt isTextChar rest = true) :
    readContentsFrom element tag (budget + 1) read (raw ++ rest) =
      readContentsFrom element tag budget ((textTerm? raw).toList ++ read) rest := by
  have split := takeWhile_append_stop plain stop
  obtain ⟨c, tail, shape⟩ := List.exists_cons_of_ne_nil nonempty
  have first : isTextChar c = true := List.all_eq_true.mp plain c (by simp [shape])
  conv => lhs; unfold readContentsFrom
  split
  case h_6 => simp only [split]
  all_goals
    rename_i same
    rw [shape, List.cons_append] at same
    first
    | cases same; done
    | rw [(List.cons.inj same).1] at first; cases first

theorem readContentsFrom_element {c : Char} {rest more : List Char} {term : Term} (other : c ≠ '/')
    (found : element ('<' :: c :: rest) = .ok (term, more)) :
    readContentsFrom element tag (budget + 1) read ('<' :: c :: rest) =
      readContentsFrom element tag budget (term :: read) more := by
  conv => lhs; unfold readContentsFrom
  split
  case h_2 same => exact absurd (List.cons.inj (List.cons.inj same).2).1 other
  case h_3 same =>
    obtain ⟨_, rfl⟩ := List.cons.inj same
    simp only [found]
  case h_6 plain _ _ => exact absurd rfl (plain _)
  case h_1 same => cases same
  case h_4 same => exact absurd (List.cons.inj same).1 (by decide)
  case h_5 same => exact absurd (List.cons.inj same).1 (by decide)

private theorem readContentsFrom_brace {rest more : List Char} (skipped : skipTrivia rest = .ok ('\x7d' :: more)) :
    readContentsFrom element tag (budget + 1) read ('\x7b' :: rest) =
      readContentsFrom element tag budget read more := by
  conv => lhs; unfold readContentsFrom
  simp only [skipped]

end Steps

private theorem skipComment {start cs : List Char} (plain : cs.all (· ≠ '*') = true) (rest : List Char) :
    skipTriviaFrom (.comment start) (cs ++ '*' :: '/' :: rest) = skipTrivia rest := by
  induction cs with
  | nil => rfl
  | cons c cs step =>
    rw [List.all_cons, Bool.and_eq_true, decide_eq_true_eq] at plain
    conv => lhs; unfold skipTriviaFrom
    split
    case h_5 same => exact absurd (List.cons.inj same).1 plain.1
    case h_6 scan same =>
      obtain ⟨_, rfl⟩ := List.cons.inj same
      cases scan
      exact step plain.2
    all_goals contradiction

private theorem all_shownName_ne_star (name : List Char) : (shownName name).all (· ≠ '*') = true := by
  rw [List.all_eq_true]
  intro c inside
  have shown := (List.mem_filter.mp (List.mem_of_mem_take inside)).2
  rw [decide_eq_true_eq]
  rintro rfl
  cases shown

def blockedOpening : String := " ⚠️ Blocked prohibited component: \""

private theorem all_blockedOpening_ne_star : blockedOpening.toList.all (· ≠ '*') = true := by
  decide

private theorem opening_toList : "\x7b/* ⚠️ Blocked prohibited component: \"".toList =
    '\x7b' :: '/' :: '*' :: blockedOpening.toList := by
  simp [blockedOpening]

private theorem closing_toList : "\" */\x7d".toList = ['"', ' ', '*', '/', '\x7d'] := rfl

theorem blockedText_eq (name : String) : blockedText name =
    '\x7b' :: '/' :: '*' :: (blockedOpening.toList ++ (shownName name.toList ++ ['"', ' ']) ++
      ['*', '/', '\x7d']) := by
  unfold blockedText
  rw [opening_toList, closing_toList]
  simp only [List.cons_append, List.append_assoc, List.nil_append]

/-- The comment for a refused component is passed over. -/
theorem readContentsFrom_blocked {element : Reader Term} {tag : Option String} {budget : Nat}
    {read : List Term} (name : String) (rest : List Char) :
    readContentsFrom element tag (budget + 1) read (blockedText name ++ rest) =
      readContentsFrom element tag budget read rest := by
  have plain : (blockedOpening.toList ++ (shownName name.toList ++ ['"', ' '])).all (· ≠ '*') = true := by
    rw [List.all_append, List.all_append, all_blockedOpening_ne_star, all_shownName_ne_star]
    rfl
  have skipped : skipTrivia ('/' :: '*' ::
      ((blockedOpening.toList ++ (shownName name.toList ++ ['"', ' '])) ++
        '*' :: '/' :: '\x7d' :: rest)) = .ok ('\x7d' :: rest) :=
    (skipComment plain ('\x7d' :: rest)).trans (skipTrivia_brace rest)
  rw [blockedText_eq]
  simp only [List.cons_append, List.append_assoc, List.nil_append] at skipped ⊢
  exact readContentsFrom_brace skipped

end UiPlan.Program
