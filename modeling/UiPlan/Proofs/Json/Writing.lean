import UiPlan.Proofs.Json.Numbers

/-! The compact text of a value stands on one line: strings escape their line breaks, and
nothing else in the text could hold one.
-/
namespace UiPlan.Json

private theorem feed_ne_hexDigit : ∀ n < 16, '\n' ≠ hexDigit n := by decide

private theorem feed_not_mem_escapedChar (c : Char) : '\n' ∉ escapedChar c := by
  unfold escapedChar
  split
  · decide
  split
  · decide
  split
  · decide
  split
  · decide
  split
  · decide
  split
  · decide
  split
  · decide
  split
  · rename_i control
    have high := feed_ne_hexDigit (c.toNat / 16) (by omega)
    have low := feed_ne_hexDigit (c.toNat % 16) (by omega)
    simp [high, low]
  · rename_i other _ _ _ _ _
    simpa using Ne.symm other

theorem feed_not_mem_quoted (cs : List Char) : '\n' ∉ quoted cs := by
  simp [quoted, feed_not_mem_escapedChar]

private theorem feed_not_mem_number (number : Number) : '\n' ∉ number.text := by
  rcases text_cases number with null | ⟨negative, magnitude, numeral, same⟩
  · rw [null]
    decide
  · have sign : ∀ negative, '\n' ∉ signText negative := by decide
    rw [same, List.mem_append, not_or]
    exact ⟨sign negative, fun inside => by cases numeral.plain _ inside⟩

mutual
/-- JSON is written on one line. -/
theorem feed_not_mem_text (value : Json) : '\n' ∉ value.text := by
  match value with
  | .null | .bool true | .bool false | .arr [] | .obj [] => decide
  | .num number => exact feed_not_mem_number number
  | .str content => exact feed_not_mem_quoted content.toList
  | .arr (item :: items) =>
    simp [text, feed_not_mem_text item, feed_not_mem_itemsText items]
  | .obj ((name, inner) :: members) =>
    simp [text, feed_not_mem_quoted, feed_not_mem_text inner, feed_not_mem_membersText members]

theorem feed_not_mem_itemsText (items : List Json) : '\n' ∉ itemsText items := by
  match items with
  | [] => decide
  | item :: items => simp [itemsText, feed_not_mem_text item, feed_not_mem_itemsText items]

theorem feed_not_mem_membersText (members : List (String × Json)) : '\n' ∉ membersText members := by
  match members with
  | [] => decide
  | (name, inner) :: members =>
    simp [membersText, feed_not_mem_quoted, feed_not_mem_text inner, feed_not_mem_membersText members]
end

end UiPlan.Json
