import UiPlan.Config.Basic

/-! What the variables of an environment make of the settings. Every setting looks at one
variable: if that says something of use, the setting is what it says, and otherwise the
default. What a setting can be is then clear from what a variable can say. An address of the
model service that consists of slashes is the one value that becomes no use only after it
has been taken.
-/
namespace UiPlan.Config

/-- What a variable says: its value without the white space around it, if any is left. -/
def Given (lookup : Lookup) (name : String) (text : List Char) : Prop :=
  ∃ value, lookup name = some value ∧ Text.trim value.toList = text ∧ text ≠ []

def Verbatim (text : List Char) (value : String) : Prop := value.toList = text

def Numeral (text : List Char) (n : Nat) : Prop :=
  ∃ sign digits, (sign = [] ∨ sign = ['+']) ∧ text = sign ++ digits ∧ digits ≠ [] ∧
    (∀ d ∈ digits, d.isDigit = true) ∧ Nat.ofDigitChars 10 digits 0 = n

def Counts (least limit : Nat) (text : List Char) (n : Nat) : Prop :=
  Numeral text n ∧ least ≤ n ∧ n < limit

def Decides (text : List Char) (value : Bool) : Prop :=
  String.ofList (Text.lowerAscii text) ∈
    if value then ["1", "true", "yes", "on"] else ["0", "false", "no", "off"]

def Unslashed (text : List Char) (value : String) : Prop :=
  ∃ slashes, text = value.toList ++ slashes ∧ (∀ c ∈ slashes, c = '/') ∧
    value.toList.getLast? ≠ some '/'

theorem filled?_eq_some {lookup : Lookup} {name value : String} :
    filled? lookup name = some value ↔ Given lookup name value.toList := by
  unfold filled? Given
  rw [Option.bind_eq_some_iff]
  refine exists_congr fun raw => and_congr_right fun _ => ?_
  rw [Option.ite_none_left_eq_some, Option.some.injEq, List.isEmpty_iff, ← String.toList_inj,
    String.toList_ofList, and_comm]
  exact and_congr_right fun same => by rw [same]

theorem digitsBelow?_eq_some {limit n : Nat} {cs : List Char} :
    digitsBelow? limit cs = some n ↔ cs ≠ [] ∧ (∀ d ∈ cs, d.isDigit = true) ∧
      Nat.ofDigitChars 10 cs 0 = n ∧ n < limit := by
  unfold digitsBelow?
  by_cases digits : cs ≠ [] ∧ ∀ d ∈ cs, d.isDigit = true
  · have proper : (cs.isEmpty || !cs.all Char.isDigit) = false := by simpa using digits
    simp only [proper, Bool.false_eq_true, if_false, Option.ite_none_right_eq_some,
      Option.some.injEq]
    constructor
    · rintro ⟨small, rfl⟩
      exact ⟨digits.1, digits.2, rfl, small⟩
    · rintro ⟨_, _, rfl, small⟩
      exact ⟨small, rfl⟩
  · have improper : (cs.isEmpty || !cs.all Char.isDigit) = true := by
      refine Bool.of_not_eq_false fun proper => digits ?_
      simpa using proper
    simp only [improper, if_true, reduceCtorEq, false_iff]
    rintro ⟨nonempty, all, _⟩
    exact digits ⟨nonempty, all⟩

theorem countBelow?_eq_some {limit n : Nat} {cs : List Char} :
    countBelow? limit cs = some n ↔ Numeral cs n ∧ n < limit := by
  constructor
  · intro read
    unfold countBelow? at read
    split at read
    · rename_i rest
      obtain ⟨nonempty, all, value, small⟩ := digitsBelow?_eq_some.mp read
      exact ⟨⟨['+'], rest, .inr rfl, rfl, nonempty, all, value⟩, small⟩
    · obtain ⟨nonempty, all, value, small⟩ := digitsBelow?_eq_some.mp read
      exact ⟨⟨[], cs, .inl rfl, rfl, nonempty, all, value⟩, small⟩
  · rintro ⟨⟨sign, digits, known, rfl, nonempty, all, value⟩, small⟩
    have read := digitsBelow?_eq_some.mpr ⟨nonempty, all, value, small⟩
    obtain ⟨first, rest, rfl⟩ := List.exists_cons_of_ne_nil nonempty
    rcases known with rfl | rfl
    · have unsigned : first ≠ '+' := by
        rintro rfl
        exact absurd (all '+' (by simp)) (by decide)
      rw [List.nil_append, countBelow?]
      · exact read
      · simp [unsigned]
    · exact read

private theorem truth?_eq_some {text : List Char} {value : Bool} :
    truth? (.ofList (Text.lowerAscii text)) = some value ↔ Decides text value := by
  unfold truth? Decides
  generalize String.ofList (Text.lowerAscii text) = word
  cases value with
  | true =>
    by_cases yes : word ∈ ["1", "true", "yes", "on"]
    · simp [yes]
    · by_cases no : word ∈ ["0", "false", "no", "off"] <;> simp [yes, no]
  | false =>
    by_cases no : word ∈ ["0", "false", "no", "off"]
    · have apart : word ∉ ["1", "true", "yes", "on"] := by
        simp only [List.mem_cons, List.not_mem_nil, or_false] at no
        rcases no with rfl | rfl | rfl | rfl <;> decide
      simp [apart, no]
    · by_cases yes : word ∈ ["1", "true", "yes", "on"] <;> simp [yes, no]

private theorem unslashed_iff {text : List Char} {value : String} :
    String.ofList (Text.dropEndWhile isSlash text) = value ↔ Unslashed text value := by
  rw [← String.toList_inj, String.toList_ofList, Text.dropEndWhile_eq_iff]
  simp only [Unslashed, isSlash, decide_eq_true_eq, decide_eq_false_iff_not, Text.ne_some_iff]

/-- A setting follows a variable: no other variable has a part in it, it is what the variable
says, and it is the default where the variable says nothing of use. -/
structure Follows {α : Type} (lookup : Lookup) (name : String) (means : List Char → α → Prop)
    (setting : Config → α) : Prop where
  alone : ∀ other : Lookup, lookup name = other name →
    setting (ofLookup lookup) = setting (ofLookup other)
  taken : ∀ text value, Given lookup name text → means text value →
    setting (ofLookup lookup) = value
  kept : (∀ text value, Given lookup name text → ¬means text value) →
    setting (ofLookup lookup) = setting default

section

variable {α : Type} {lookup : Lookup} {name : String} {means : List Char → α → Prop}
  {setting : Config → α}

theorem follows_of_read (read : List Char → Option α)
    (shape : ∀ lookup, setting (ofLookup lookup) =
      ((filled? lookup name).bind fun value => read value.toList).getD (setting default))
    (meant : ∀ text value, read text = some value ↔ means text value) :
    Follows lookup name means setting where
  alone other same := by rw [shape, shape, filled?, filled?, same]
  taken text value given said := by
    have found : filled? lookup name = some (.ofList text) :=
      filled?_eq_some.mpr (by rwa [String.toList_ofList])
    rw [shape, found, Option.bind_some, String.toList_ofList, (meant text value).mpr said,
      Option.getD_some]
  kept nothing := by
    rw [shape]
    cases found : filled? lookup name with
    | none => rfl
    | some value =>
      have unread : read value.toList = none :=
        Option.eq_none_iff_forall_ne_some.mpr fun taken said =>
          nothing _ taken (filled?_eq_some.mp found) ((meant _ _).mp said)
      rw [Option.bind_some, unread, Option.getD_none]

/-- What holds of the default, and of all that the variable can say, holds of the setting. -/
theorem Follows.property (follows : Follows lookup name means setting) {P : α → Prop}
    (base : P (setting default))
    (each : ∀ text value, Given lookup name text → means text value → P value) :
    P (setting (ofLookup lookup)) := by
  by_cases said : ∃ text value, Given lookup name text ∧ means text value
  · obtain ⟨text, value, given, said⟩ := said
    rw [follows.taken text value given said]
    exact each text value given said
  · rw [follows.kept fun text value given say => said ⟨text, value, given, say⟩]
    exact base

end

theorem follows_verbatim {lookup : Lookup} {name : String} {setting : Config → String}
    (shape : ∀ lookup, setting (ofLookup lookup) = (filled? lookup name).getD (setting default)) :
    Follows lookup name Verbatim setting := by
  refine follows_of_read (fun text => some (.ofList text)) (fun lookup => ?_) fun text value => ?_
  · simp [shape]
  · rw [Option.some.injEq, Verbatim, ← String.toList_inj, String.toList_ofList, eq_comm]

theorem follows_decides {lookup : Lookup} {name : String} {setting : Config → Bool}
    (shape : ∀ lookup, setting (ofLookup lookup) = (flag? lookup name).getD (setting default)) :
    Follows lookup name Decides setting :=
  follows_of_read (fun text => truth? (.ofList (Text.lowerAscii text))) shape fun _ _ => truth?_eq_some

theorem follows_positive {lookup : Lookup} {name : String} {limit : Nat} {setting : Config → Nat}
    (shape : ∀ lookup, setting (ofLookup lookup) = (positive? lookup name limit).getD (setting default)) :
    Follows lookup name (Counts 1 limit) setting := by
  refine follows_of_read (fun text => (countBelow? limit text).filter (· ≠ 0)) (fun lookup => ?_)
    fun text n => ?_
  · rw [shape, positive?, count?]
    cases filled? lookup name <;> rfl
  · rw [Option.filter_eq_some_iff, countBelow?_eq_some, Counts, decide_eq_true_eq, and_assoc,
      and_comm (a := n < limit), Nat.one_le_iff_ne_zero]

section

variable (lookup : Lookup)

private theorem portNumber_follows : Follows lookup "SERVER_PORT" (Counts 0 65536) portNumber := by
  refine follows_of_read (countBelow? 65536) (fun _ => rfl) fun text n => ?_
  rw [countBelow?_eq_some, Counts]
  simp

private theorem bindAddress_follows : Follows lookup "SERVER_HOST" Verbatim bindAddress :=
  follows_verbatim fun _ => rfl

private theorem logLevel_follows : Follows lookup "LOG_LEVEL" Verbatim logLevel :=
  follows_verbatim fun _ => rfl

private theorem model_follows : Follows lookup "GEMINI_MODEL" Verbatim model :=
  follows_verbatim fun _ => rfl

private theorem logJson_follows : Follows lookup "LOG_JSON" Decides logJson :=
  follows_decides fun _ => rfl

private theorem strictProps_follows : Follows lookup "STRICT_PROP_VALIDATION" Decides strictProps :=
  follows_decides fun _ => rfl

private theorem oracleTimeoutSeconds_follows :
    Follows lookup "ORACLE_TIMEOUT_SECS" (Counts 1 wordLimit) oracleTimeoutSeconds :=
  follows_positive fun _ => rfl

private theorem maxBodyBytes_follows : Follows lookup "MAX_BODY_BYTES" (Counts 1 wordLimit) maxBodyBytes :=
  follows_positive fun _ => rfl

private theorem apiKey_follows :
    Follows lookup "GEMINI_API_KEY" (fun text key => ∃ value ∈ key, Verbatim text value) apiKey := by
  refine follows_of_read (fun text => some (some (.ofList text))) (fun lookup => ?_) fun text key => ?_
  · cases found : filled? lookup "GEMINI_API_KEY" <;> simp [ofLookup, default, found]
  · constructor
    · rintro ⟨⟩
      exact ⟨_, rfl, String.toList_ofList⟩
    · rintro ⟨value, rfl, same⟩
      rw [← same, String.ofList_toList]

private theorem apiBaseUrl_follows : Follows lookup "GEMINI_API_BASE_URL" Unslashed apiBaseUrl := by
  refine follows_of_read (fun text => some (.ofList (Text.dropEndWhile isSlash text)))
    (fun lookup => ?_) fun text value => ?_
  · cases found : filled? lookup "GEMINI_API_BASE_URL" <;> simp [ofLookup, baseUrl?, found]
  · rw [Option.some.injEq, unslashed_iff]

end

structure Usable (config : Config) : Prop where
  bindAddress : config.bindAddress ≠ ""
  logLevel : config.logLevel ≠ ""
  model : config.model ≠ ""
  apiBaseUrl : config.apiBaseUrl.toList.getLast? ≠ some '/'
  oracleTimeoutSeconds : 1 ≤ config.oracleTimeoutSeconds
  maxBodyBytes : 1 ≤ config.maxBodyBytes
  apiKey : ∀ key ∈ config.apiKey, key ≠ "" ∧ Text.Trimmed key.toList

theorem ne_empty_of_verbatim {lookup : Lookup} {name : String} {text : List Char} {value : String}
    (given : Given lookup name text) (same : Verbatim text value) : value ≠ "" := by
  obtain ⟨_, _, _, nonempty⟩ := given
  rintro rfl
  exact nonempty same.symm

theorem Given.trimmed {lookup : Lookup} {name : String} {text : List Char}
    (given : Given lookup name text) : Text.Trimmed text := by
  obtain ⟨value, _, rfl, _⟩ := given
  exact Text.trimmed_trim value.toList

theorem Follows.ne_empty {lookup : Lookup} {name : String} {setting : Config → String}
    (follows : Follows lookup name Verbatim setting) (base : setting default ≠ "") :
    setting (ofLookup lookup) ≠ "" :=
  follows.property base fun _ _ => ne_empty_of_verbatim

/-- The settings of an environment are usable, apart from the address of the model service,
which is checked for being empty before its slashes go. -/
theorem usable_ofLookup (lookup : Lookup) : Usable (ofLookup lookup) where
  bindAddress := (bindAddress_follows lookup).ne_empty (by decide)
  logLevel := (logLevel_follows lookup).ne_empty (by decide)
  model := (model_follows lookup).ne_empty (by decide)
  apiBaseUrl := (apiBaseUrl_follows lookup).property (by decide) fun _ _ _ ⟨_, _, _, other⟩ => other
  oracleTimeoutSeconds :=
    (oracleTimeoutSeconds_follows lookup).property (by decide) fun _ _ _ ⟨_, positive, _⟩ => positive
  maxBodyBytes :=
    (maxBodyBytes_follows lookup).property (by decide) fun _ _ _ ⟨_, positive, _⟩ => positive
  apiKey := by
    refine (apiKey_follows lookup).property (P := fun key => ∀ value ∈ key, value ≠ "" ∧
      Text.Trimmed value.toList) (by simp [default]) ?_
    rintro text key given ⟨value, found, same⟩ other inside
    obtain rfl : value = other := Option.some.inj (found.symm.trans inside)
    exact ⟨ne_empty_of_verbatim given same, same ▸ given.trimmed⟩

private theorem apiBaseUrl_eq_empty_iff (lookup : Lookup) :
    (ofLookup lookup).apiBaseUrl = "" ↔
      ∃ text, Given lookup "GEMINI_API_BASE_URL" text ∧ ∀ c ∈ text, c = '/' := by
  constructor
  · intro empty
    by_cases slashes : ∃ text, Given lookup "GEMINI_API_BASE_URL" text ∧ ∀ c ∈ text, c = '/'
    · exact slashes
    · refine absurd empty ((apiBaseUrl_follows lookup).property (P := (· ≠ "")) (by decide) ?_)
      rintro text value given ⟨ends, whole, all, _⟩ rfl
      refine slashes ⟨text, given, ?_⟩
      rw [whole]
      simpa using all
  · rintro ⟨text, given, all⟩
    exact (apiBaseUrl_follows lookup).taken text "" given ⟨text, rfl, all, by decide⟩

/-- Every setting follows a variable of its own, and the settings are usable, but for an
address of the model service that is nothing but slashes: of that nothing is left. -/
theorem settings_follow_variables (lookup : Lookup) :
    Follows lookup "SERVER_PORT" (Counts 0 65536) portNumber ∧
    Follows lookup "SERVER_HOST" Verbatim bindAddress ∧
    Follows lookup "LOG_LEVEL" Verbatim logLevel ∧
    Follows lookup "LOG_JSON" Decides logJson ∧
    Follows lookup "GEMINI_API_KEY" (fun text key => ∃ value ∈ key, Verbatim text value) apiKey ∧
    Follows lookup "GEMINI_MODEL" Verbatim model ∧
    Follows lookup "GEMINI_API_BASE_URL" Unslashed apiBaseUrl ∧
    Follows lookup "ORACLE_TIMEOUT_SECS" (Counts 1 wordLimit) oracleTimeoutSeconds ∧
    Follows lookup "STRICT_PROP_VALIDATION" Decides strictProps ∧
    Follows lookup "MAX_BODY_BYTES" (Counts 1 wordLimit) maxBodyBytes ∧
    Usable (ofLookup lookup) ∧
    ((ofLookup lookup).apiBaseUrl = "" ↔
      ∃ text, Given lookup "GEMINI_API_BASE_URL" text ∧ ∀ c ∈ text, c = '/') :=
  ⟨portNumber_follows lookup, bindAddress_follows lookup, logLevel_follows lookup,
    logJson_follows lookup, apiKey_follows lookup, model_follows lookup, apiBaseUrl_follows lookup,
    oracleTimeoutSeconds_follows lookup, strictProps_follows lookup, maxBodyBytes_follows lookup,
    usable_ofLookup lookup, apiBaseUrl_eq_empty_iff lookup⟩

def slashed : Lookup := fun name => if name = "GEMINI_API_BASE_URL" then some "/" else none

theorem settings_follow_variables_slashed :
    Given slashed "GEMINI_API_BASE_URL" ['/'] ∧ (ofLookup slashed).apiBaseUrl = "" ∧
      default.apiBaseUrl ≠ "" := by
  refine ⟨⟨"/", rfl, by decide, by decide⟩, ?_, by decide⟩
  decide

end UiPlan.Config
