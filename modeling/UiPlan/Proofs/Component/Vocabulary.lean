import UiPlan.Proofs.Component.Built
import UiPlan.Proofs.Program.Attributes
import UiPlan.Registry.Standard

/-! The words that classes are made of. A class is a list of words between blanks; most are written
in the library, some are completed by a value that the registry declares for a prop, and one by a
number of columns. If the props of a component are declared, its classes have no other words, since
a prop that is absent or null falls back to a value that is declared too.
-/
namespace UiPlan.Component

def tokens (className : String) : List String := (className.toList.splitOn ' ').map String.ofList

def stems : List String :=
  ["ui-btn", "ui-typo", "ui-alert", "ui-flex", "ui-flex--wrap", "ui-grid"]

def literalTokens : List String := stems ++ fixedClasses.flatMap tokens

def completions : List (String × String × String) :=
  [("ui-btn--", "Button", "variant"), ("ui-btn--", "Button", "size"),
    ("ui-typo--", "Typography", "variant"), ("ui-alert--", "Alert", "type"),
    ("ui-flex--", "Flex", "direction"), ("ui-flex--gap-", "Flex", "gap"),
    ("ui-flex--align-", "Flex", "align"), ("ui-flex--justify-", "Flex", "justify"),
    ("ui-grid--gap-", "Grid", "gap")]

def declaration? (component prop : String) : Option PropSpec :=
  (Registry.standard.get? component).bind (·.prop? prop)

def declaredValues (component prop : String) : List String :=
  ((declaration? component prop).map PropSpec.values).getD []

inductive Token : String → Prop
  | literal {word : String} (written : word ∈ literalTokens) : Token word
  | completed {front component prop value : String} (known : (front, component, prop) ∈ completions)
      (declared : value ∈ declaredValues component prop) : Token (front ++ value)
  | columns {count : Int} (few : count ≤ 4) :
      Token ("ui-grid--cols-" ++ .ofList (Number.intText count))

/-- Every word of a class is a token, and a type is one that an input declares. -/
def Vocabulary (name value : String) : Prop :=
  (name = "class" → ∀ word ∈ tokens value, Token word) ∧
    (name = "type" → value ∈ declaredValues "Input" "type")

theorem lenient_vocabulary : Lenient Vocabulary where
  plain name value plain := by
    simp only [isPlain, Bool.and_eq_true, decide_eq_true_eq] at plain
    exact ⟨fun same => absurd same plain.1.2, fun same => absurd same plain.2⟩
  fixed value fixed :=
    ⟨fun _ word inside => .literal (List.mem_append_right _ (List.mem_flatMap.mpr ⟨value, fixed, inside⟩)),
      fun same => absurd same (by decide)⟩

def isWord (word : String) : Bool := !word.toList.contains ' '

private theorem not_mem_of_mem_splitOn {c : Char} {cs piece : List Char} (inside : piece ∈ cs.splitOn c) :
    c ∉ piece := by
  induction cs generalizing piece with
  | nil => simp_all [List.splitOn]
  | cons d cs step =>
    rw [List.splitOn_cons_eq_if_modifyHead] at inside
    split at inside
    · rcases List.mem_cons.mp inside with rfl | deeper
      · exact List.not_mem_nil
      · exact step deeper
    · rename_i apart
      obtain ⟨first, rest, same⟩ := List.exists_cons_of_ne_nil (List.splitOn_ne_nil c cs)
      rw [same] at inside step
      rcases List.mem_cons.mp inside with rfl | deeper
      · have other : c ≠ d := by simpa using Ne.symm (by simpa using apart)
        simp [other, step List.mem_cons_self]
      · exact step (List.mem_cons_of_mem _ deeper)

private theorem isWord_of_mem_tokens {className word : String} (inside : word ∈ tokens className) :
    isWord word = true := by
  obtain ⟨piece, member, rfl⟩ := List.mem_map.mp inside
  simpa [isWord] using not_mem_of_mem_splitOn member

private theorem tokens_intercalate {words : List String} (solid : words ≠ [])
    (plain : ∀ word ∈ words, isWord word = true) : tokens (" ".intercalate words) = words := by
  have blank : " ".toList = [' '] := rfl
  have apart : ∀ word ∈ words.map String.toList, ' ' ∉ word := by
    intro word inside
    obtain ⟨given, member, rfl⟩ := List.mem_map.mp inside
    simpa [isWord] using plain given member
  rw [tokens, String.toList_intercalate, blank, List.splitOn_intercalate _ apart (by simpa using solid)]
  simp

private theorem isWord_append {front value : String} (first : isWord front = true) (second : isWord value = true) :
    isWord (front ++ value) = true := by
  simp_all [isWord]

private theorem isWord_intText (count : Int) : isWord (.ofList (Number.intText count)) = true := by
  have marks := List.all_eq_true.mp (Program.all_isNumberChar_intText count)
  have absent : ' ' ∉ Number.intText count := fun inside => absurd (marks _ inside) (by decide)
  simpa [isWord] using absent

theorem Token.isWord {word : String} (token : Token word) : isWord word = true := by
  cases token with
  | literal written =>
    rcases List.mem_append.mp written with short | fixed
    · exact List.all_eq_true.mp (by decide : stems.all Component.isWord = true) word short
    · obtain ⟨className, _, inside⟩ := List.mem_flatMap.mp fixed
      exact isWord_of_mem_tokens inside
  | @completed front component prop value known declared =>
    have all : completions.all (fun entry => Component.isWord entry.1 &&
        (declaredValues entry.2.1 entry.2.2).all Component.isWord) = true := by decide
    have own := List.all_eq_true.mp all _ known
    simp only [Bool.and_eq_true] at own
    exact isWord_append own.1 (List.all_eq_true.mp own.2 value declared)
  | @columns count few => exact isWord_append (by decide) (isWord_intText count)

theorem vocabulary_words {className : String} {words : List String}
    (shape : className = " ".intercalate words) (solid : words ≠ [])
    (each : ∀ word ∈ words, Token word) : Vocabulary "class" className := by
  refine ⟨fun _ word inside => ?_, fun same => absurd same (by decide)⟩
  rw [shape, tokens_intercalate solid fun word member => (each word member).isWord] at inside
  exact each word inside

def Props.Declared (props : Props) (component : String) : Prop :=
  ∀ name value, Table.get? props.values name = some value →
    ∃ prop, declaration? component name = some prop ∧ prop.accepts value = true

def offers (component prop value : String) : Bool :=
  match declaration? component prop with
  | some declaration => declaration.kind = .enum && declaration.values.contains value
  | none => false

theorem textOr_mem_declaredValues {props : Props} {component name default : String}
    (declared : props.Declared component) (offered : offers component name default = true) :
    props.textOr name default ∈ declaredValues component name := by
  unfold offers at offered
  split at offered
  · rename_i declaration found
    simp only [Bool.and_eq_true, decide_eq_true_eq, List.contains_iff_mem] at offered
    obtain ⟨kind, listed⟩ := offered
    have values : declaredValues component name = declaration.values := by
      rw [declaredValues, found]
      rfl
    rw [values]
    cases given : Table.get? props.values name with
    | none => simpa [Props.textOr, Props.text?, Props.get?, given] using listed
    | some value =>
      obtain ⟨prop, same, accepted⟩ := declared name value given
      obtain rfl : declaration = prop := Option.some.inj (found.symm.trans same)
      cases value <;> simp only [PropSpec.accepts, kind] at accepted
      case str text =>
        simpa [Props.textOr, Props.text?, Props.get?, given, Props.scalarText?] using accepted
      all_goals cases accepted
  · cases offered

theorem token_completed {props : Props} {front component prop default : String}
    (declared : props.Declared component)
    (known : (front, component, prop) ∈ completions ∧ offers component prop default = true) :
    Token (front ++ props.textOr prop default) :=
  .completed known.1 (textOr_mem_declaredValues declared known.2)

theorem token_literal {word : String} (written : literalTokens.contains word = true) : Token word :=
  .literal (List.contains_iff_mem.mp written)

private theorem roundWhole_few {n : Nat} (few : n ≤ 4) : Decimal.roundWhole n = n := by
  have all : ∀ n : Fin 5, Decimal.roundWhole n = n := by decide
  exact all ⟨n, by omega⟩

private theorem roundInt_le {n : Int} (few : n ≤ 4) : Decimal.roundInt n ≤ 4 := by
  unfold Decimal.roundInt
  rcases Int.lt_trichotomy n 0 with below | rfl | above
  · rw [Int.sign_eq_neg_one_of_neg below]
    omega
  · decide
  · rw [Int.sign_eq_one_of_pos above, roundWhole_few (by omega)]
    omega

/-- A number of columns is whole, so the class never falls back to the text of the prop. -/
theorem token_gridColumns {props : Props} (declared : props.Declared "Grid")
    (whole : ∀ name value, Table.get? props.values name = some value → value.isIntegral = true) :
    Token ("ui-grid--cols-" ++ gridColumns props) := by
  have known : ∃ declaration, declaration? "Grid" "columns" = some declaration ∧
      declaration.kind = .number := by decide
  obtain ⟨declaration, found, kind⟩ := known
  unfold gridColumns Props.get?
  cases given : Table.get? props.values "columns" with
  | none => exact .columns (by decide : (2 : Int) ≤ 4)
  | some value =>
    obtain ⟨prop, same, accepted⟩ := declared "columns" value given
    obtain rfl : declaration = prop := Option.some.inj (found.symm.trans same)
    have integral := whole "columns" value given
    cases value <;> simp only [PropSpec.accepts, kind] at accepted
    case num number =>
      cases number with
      | real value => cases integral
      | int value fits =>
        dsimp only
        split
        · exact .columns (by decide : (4 : Int) ≤ 4)
        · exact .columns (roundInt_le (by omega))
    all_goals cases accepted

variable {props : Props}

private theorem vocabulary_buttonClass (declared : props.Declared "Button") :
    Vocabulary "class" (buttonClass props) := by
  have shape (variant size : String) : "ui-btn ui-btn--" ++ variant ++ " ui-btn--" ++ size =
      " ".intercalate ["ui-btn", "ui-btn--" ++ variant, "ui-btn--" ++ size] := by
    rw [← String.toList_inj]
    simp
  apply vocabulary_words (shape _ _) (by simp)
  simp only [List.forall_mem_cons]
  exact ⟨token_literal (by decide), token_completed declared (by decide),
    token_completed declared (by decide), by simp⟩

private theorem vocabulary_completed (stem front : String) {opening component prop default : String}
    (declared : props.Declared component) (opens : opening = stem ++ " " ++ front)
    (written : literalTokens.contains stem = true)
    (known : (front, component, prop) ∈ completions ∧ offers component prop default = true) :
    Vocabulary "class" (opening ++ props.textOr prop default) := by
  have shape (value : String) : opening ++ value = " ".intercalate [stem, front ++ value] := by
    rw [opens, ← String.toList_inj]
    simp
  apply vocabulary_words (shape _) (by simp)
  simp only [List.forall_mem_cons]
  exact ⟨token_literal written, token_completed declared known, by simp⟩

private theorem vocabulary_flexClass (declared : props.Declared "Flex") :
    Vocabulary "class" (flexClass props) := by
  let last (wrap : Bool) : List String := if wrap then ["ui-flex--wrap"] else []
  have shape (direction gap align justify : String) (wrap : Bool) :
      "ui-flex ui-flex--" ++ direction ++ " ui-flex--gap-" ++ gap ++ " ui-flex--align-" ++ align ++
        " ui-flex--justify-" ++ justify ++ (if wrap then " ui-flex--wrap" else "") =
      " ".intercalate (["ui-flex", "ui-flex--" ++ direction, "ui-flex--gap-" ++ gap,
        "ui-flex--align-" ++ align, "ui-flex--justify-" ++ justify] ++ last wrap) := by
    rw [← String.toList_inj]
    cases wrap <;> simp [last]
  have ending (wrap : Bool) : ∀ word ∈ last wrap, Token word := by
    cases wrap with
    | false => simp [last]
    | true => exact List.forall_mem_singleton.mpr (token_literal (by decide))
  apply vocabulary_words (shape _ _ _ _ _) (by simp)
  simp only [List.cons_append, List.nil_append, List.forall_mem_cons]
  exact ⟨token_literal (by decide), token_completed declared (by decide),
    token_completed declared (by decide), token_completed declared (by decide),
    token_completed declared (by decide), ending _⟩

private theorem vocabulary_gridClass (declared : props.Declared "Grid")
    (whole : ∀ name value, Table.get? props.values name = some value → value.isIntegral = true) :
    Vocabulary "class" (gridClass props) := by
  have shape (columns gap : String) : "ui-grid ui-grid--cols-" ++ columns ++ " ui-grid--gap-" ++ gap =
      " ".intercalate ["ui-grid", "ui-grid--cols-" ++ columns, "ui-grid--gap-" ++ gap] := by
    rw [← String.toList_inj]
    simp
  apply vocabulary_words (shape _ _) (by simp)
  simp only [List.forall_mem_cons]
  exact ⟨token_literal (by decide), token_gridColumns declared whole,
    token_completed declared (by decide), by simp⟩

private theorem vocabulary_inputType (declared : props.Declared "Input") :
    Vocabulary "type" (props.textOr "type" "text") :=
  ⟨fun same => absurd same (by decide), fun _ => textOr_mem_declaredValues declared (by decide)⟩

/-- The classes and types that a component makes from declared props stay in the vocabulary. -/
theorem vocabulary_chosenStyles {component : Component} (declared : props.Declared component.name)
    (whole : ∀ name value, Table.get? props.values name = some value → value.isIntegral = true) :
    ∀ entry ∈ chosenStyles props component, Vocabulary entry.1 entry.2 := by
  cases component with
  | button => exact List.forall_mem_singleton.mpr (vocabulary_buttonClass declared)
  | input => exact List.forall_mem_singleton.mpr (vocabulary_inputType declared)
  | typography =>
    refine List.forall_mem_singleton.mpr ?_
    exact vocabulary_completed "ui-typo" "ui-typo--" declared rfl (by decide) (by decide)
  | alert =>
    refine List.forall_mem_singleton.mpr ?_
    exact vocabulary_completed "ui-alert" "ui-alert--" declared rfl (by decide) (by decide)
  | flex => exact List.forall_mem_singleton.mpr (vocabulary_flexClass declared)
  | grid => exact List.forall_mem_singleton.mpr (vocabulary_gridClass declared whole)
  | _ => exact fun entry inside => absurd inside List.not_mem_nil

end UiPlan.Component
