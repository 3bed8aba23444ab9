import UiPlan.Json.Reader
import UiPlan.Oracle.Category
import UiPlan.Oracle.Gemini

/-! Which category a reply of the service is told as. The category is read off the text of the
failure, where what the service sends stands behind what is said about it. No mark reaches from the
one into the other, so the category follows from the two on their own: the status 429 always shows,
the status 503 and a body that is no answer may be hidden by a mark in what was sent.
-/
namespace UiPlan.Oracle

open Text (contains)

namespace Category

def marks : List String :=
  ["429", "Too Many Requests", "503", "Service Unavailable", "quota", "limit"]

theorem ofText_congr {text other : String}
    (same : ∀ mark ∈ marks, contains mark.toList text.toList = contains mark.toList other.toList) :
    ofText text = ofText other := by
  simp only [marks, List.forall_mem_cons, List.not_mem_nil, false_imp_iff, implies_true, and_true] at same
  obtain ⟨code, words, otherCode, otherWords, quota, limit⟩ := same
  simp only [ofText, mentions, List.any_cons, List.any_nil, Bool.or_false]
  rw [code, words, otherCode, otherWords, quota, limit]

theorem filled_of_mem_marks {mark : String} (known : mark ∈ marks) : mark.toList ≠ [] :=
  (show ∀ mark ∈ marks, mark.toList ≠ [] by decide) mark known

/-- In front of a colon and a space stands what the service itself says, behind them what it was
told; no mark reaches over them. -/
theorem contains_report {mark : String} (known : mark ∈ marks) (title remote : List Char) :
    contains mark.toList (title ++ ':' :: ' ' :: remote) =
      (contains mark.toList title || contains mark.toList remote) := by
  have shape : ∀ mark ∈ marks, ':' ∉ mark.toList ∧ mark.toList.head? ≠ some ' ' := by decide
  obtain ⟨noColon, noSpace⟩ := shape mark known
  have filled := filled_of_mem_marks known
  have other : ∀ c ∈ mark.toList.head?, c ≠ ' ' := by
    rintro c first rfl
    exact noSpace first
  rw [Text.contains_append_cons filled noColon, Text.contains_cons filled other]

theorem ofText_report {title : String} (silent : ∀ mark ∈ marks, contains mark.toList title.toList = false)
    (remote : String) : ofText (title ++ ": " ++ remote) = ofText remote := by
  apply ofText_congr
  intro mark known
  have whole : (title ++ ": " ++ remote).toList = title.toList ++ ':' :: ' ' :: remote.toList := by simp
  rw [whole, contains_report known, silent mark known, Bool.false_or]

private theorem ofText_bracket (remote : String) : ofText (remote ++ ")") = ofText remote := by
  apply ofText_congr
  intro mark known
  have outside : ∀ mark ∈ marks, ')' ∉ mark.toList ∧ contains mark.toList [] = false := by decide
  have whole : (remote ++ ")").toList = remote.toList ++ ')' :: [] := by simp
  rw [whole, Text.contains_append_cons (filled_of_mem_marks known) (outside mark known).1,
    (outside mark known).2, Bool.or_false]

end Category

open Category (marks)

def shows (place : Json.Place) (digits : String) : Bool :=
  contains digits.toList (toString place.line).toList || contains digits.toList (toString place.column).toList

def ofJsonError (error : Json.Error) : Category :=
  if shows error.place "429" then .rateLimited
  else if shows error.place "503" then .overloaded
  else if error.fault = .tooDeep then .quotaExhausted
  else .unavailable

private theorem isDigit_of_mem_toString {n : Nat} {c : Char} (inside : c ∈ (toString n).toList) : c.isDigit = true := by
  rw [show (toString n).toList = Nat.toDigits 10 n by simp] at inside
  exact Nat.isDigit_of_mem_toDigits (by decide) (by decide) inside

/-- Of what is looked for only the depth limit says a word, and none says a number or a capital that
the reason phrases begin with. -/
theorem message_of_fault (fault : Json.Fault) :
    (∀ digits ∈ ["429", "503"], contains digits.toList fault.message.toList = false) ∧
    (∀ word ∈ ["quota", "limit"], contains word.toList fault.message.toList =
      (word = "limit" && fault = .tooDeep)) ∧
    'T' ∉ fault.message.toList ∧ 'S' ∉ fault.message.toList := by
  cases fault <;> decide

/-- A mark without blanks is looked for in each word of the message. -/
theorem contains_message {mark : List Char} (nonempty : mark ≠ []) (noSpace : ' ' ∉ mark) (error : Json.Error) :
    contains mark error.message.toList =
      (contains mark error.fault.message.toList || (contains mark "at".toList ||
        (contains mark "line".toList || (contains mark (toString error.place.line).toList ||
          (contains mark "column".toList || contains mark (toString error.place.column).toList))))) := by
  have words : error.message.toList = error.fault.message.toList ++ ' ' :: ("at".toList ++ ' ' ::
      ("line".toList ++ ' ' :: ((toString error.place.line).toList ++ ' ' ::
        ("column".toList ++ ' ' :: (toString error.place.column).toList)))) := by
    simp [Json.Error.message]
  simp only [words, Text.contains_append_cons nonempty noSpace]

theorem contains_code (digits : String) (known : digits ∈ ["429", "503"]) (error : Json.Error) :
    contains digits.toList error.message.toList = shows error.place digits := by
  have shape : ∀ digits ∈ ["429", "503"], digits.toList ≠ [] ∧ ' ' ∉ digits.toList ∧
      ∀ word ∈ ["at", "line", "column"], contains digits.toList word.toList = false := by decide
  have inFault := (message_of_fault error.fault).1 digits known
  obtain ⟨nonempty, noSpace, words⟩ := shape digits known
  simp only [contains_message nonempty noSpace, inFault, words "at" (by simp),
    words "line" (by simp), words "column" (by simp), Bool.false_or, shows]

theorem contains_word (word : String) (known : word ∈ ["quota", "limit"]) (error : Json.Error) :
    contains word.toList error.message.toList = (word = "limit" && error.fault = .tooDeep) := by
  have shape : ∀ word ∈ ["quota", "limit"], word.toList ≠ [] ∧ ' ' ∉ word.toList ∧ 't' ∈ word.toList ∧
      ∀ other ∈ ["at", "line", "column"], contains word.toList other.toList = false := by decide
  have inFault := (message_of_fault error.fault).2.1 word known
  obtain ⟨nonempty, noSpace, letter, others⟩ := shape word known
  have inNumber (n : Nat) : contains word.toList (toString n).toList = false :=
    Text.contains_of_not_mem letter fun inside => by cases isDigit_of_mem_toString inside
  simp only [contains_message nonempty noSpace, inFault, others "at" (by simp),
    others "line" (by simp), others "column" (by simp), inNumber, Bool.or_false]

theorem not_mem_message {c : Char} (capital : c = 'T' ∨ c = 'S') (error : Json.Error) :
    c ∉ error.message.toList := by
  obtain ⟨_, _, noT, noS⟩ := message_of_fault error.fault
  have notFault : c ∉ error.fault.message.toList := by
    rcases capital with rfl | rfl
    · exact noT
    · exact noS
  have elsewhere : c ∉ " at line ".toList ∧ c ∉ " column ".toList ∧ c.isDigit = false := by
    rcases capital with rfl | rfl <;> decide
  obtain ⟨notLine, notColumn, noDigit⟩ := elsewhere
  have notNumber (n : Nat) : c ∉ (toString n).toList := fun digit => by
    simpa [noDigit] using isDigit_of_mem_toString digit
  simp only [Json.Error.message, String.toList_append, List.mem_append, not_or]
  exact ⟨⟨⟨⟨notFault, notLine⟩, notNumber _⟩, notColumn⟩, notNumber _⟩

theorem contains_phrase (phrase : String) (known : phrase ∈ ["Too Many Requests", "Service Unavailable"])
    (error : Json.Error) : contains phrase.toList error.message.toList = false := by
  simp only [List.mem_cons, List.not_mem_nil, or_false] at known
  rcases known with rfl | rfl
  · exact Text.contains_of_not_mem (by decide) (not_mem_message (.inl rfl) error)
  · exact Text.contains_of_not_mem (by decide) (not_mem_message (.inr rfl) error)

private theorem ofText_message (error : Json.Error) : Category.ofText error.message = ofJsonError error := by
  have code := contains_code "429" (by simp) error
  have otherCode := contains_code "503" (by simp) error
  have phrase := contains_phrase "Too Many Requests" (by simp) error
  have otherPhrase := contains_phrase "Service Unavailable" (by simp) error
  have quota := contains_word "quota" (by simp) error
  have limit := contains_word "limit" (by simp) error
  simp only [Category.ofText, Category.mentions, List.any_cons, List.any_nil, Bool.or_false, code,
    otherCode, phrase, otherPhrase, quota, limit]
  simp [ofJsonError]

namespace Gemini

private theorem isEmpty_join_iff {texts : List String} :
    (String.join texts).isEmpty = true ↔ ∀ text ∈ texts, text = "" := by
  rw [String.isEmpty_iff, ← String.toList_eq_nil_iff, String.toList_join, List.flatMap_eq_nil_iff]
  simp only [String.toList_eq_nil_iff]

/-- Why a body that comes with a success status is no answer, and the category that it is told as. -/
inductive Unusable (body : String) : Category → Prop
  | notJson {error : Json.Error} (refused : Json.parse body.toList = .error error) :
      Unusable body (ofJsonError error)
  | noParts {payload : Json} (read : Json.parse body.toList = .ok payload)
      (missing : (firstCandidate? payload).bind candidateParts? = none) : Unusable body .unavailable
  | noText {payload candidate : Json} {parts : List Json} (read : Json.parse body.toList = .ok payload)
      (first : firstCandidate? payload = some candidate) (listed : candidateParts? candidate = some parts)
      (silent : ∀ text ∈ parts.filterMap textPart?, text = "") :
      Unusable body (.ofText (finishReason candidate))

theorem category_noText (reason : String) :
    Error.category (.transport ("Gemini returned no text (finish reason: " ++ reason ++ ")")) =
      .ofText reason := by
  have parts : "Gemini returned no text (finish reason: " ++ reason ++ ")" =
      "Gemini returned no text (finish reason" ++ ": " ++ (reason ++ ")") := by
    rw [← String.append_assoc]
    rfl
  rw [Error.category, parts, Category.ofText_report (by decide), Category.ofText_bracket]

theorem category_notJson (error : Json.Error) :
    Error.category (.transport ("Invalid Gemini response: error decoding response body: " ++ error.message)) =
      ofJsonError error := by
  have parts : "Invalid Gemini response: error decoding response body: " ++ error.message =
      "Invalid Gemini response: error decoding response body" ++ ": " ++ error.message := rfl
  rw [Error.category, parts, Category.ofText_report (by decide), ofText_message]

theorem category_noParts : Error.category (.transport "Gemini response has no candidates") = .unavailable := by
  decide

private theorem extractText_iff {payload : Json} {body : String} (read : Json.parse body.toList = .ok payload)
    (category : Category) :
    (∃ error, extractText payload = .error error ∧ error.category = category) ↔ Unusable body category := by
  constructor
  · rintro ⟨error, failed, rfl⟩
    unfold extractText at failed
    split at failed
    · rename_i missing
      obtain rfl := Except.error.inj failed
      rw [category_noParts]
      exact .noParts read (by rw [missing]; rfl)
    · rename_i candidate first
      split at failed
      · rename_i missing
        obtain rfl := Except.error.inj failed
        rw [category_noParts]
        exact .noParts read (by rw [first, Option.bind_some, missing])
      · rename_i parts listed
        dsimp only at failed
        split at failed
        · rename_i empty
          obtain rfl := Except.error.inj failed
          rw [category_noText]
          exact .noText read first listed (isEmpty_join_iff.mp empty)
        · cases failed
  · intro unusable
    cases unusable with
    | notJson refused =>
      rw [read] at refused
      cases refused
    | noParts again missing =>
      obtain rfl := Except.ok.inj (read.symm.trans again)
      cases first : firstCandidate? payload with
      | none => exact ⟨_, by rw [extractText, first], category_noParts⟩
      | some candidate =>
        rw [first, Option.bind_some] at missing
        exact ⟨_, by simp only [extractText, first, missing], category_noParts⟩
    | noText again first listed silent =>
      obtain rfl := Except.ok.inj (read.symm.trans again)
      have empty := isEmpty_join_iff.mpr silent
      exact ⟨_, by simp only [extractText, first, listed, empty, if_true], category_noText _⟩

/-- A reply with a success status fails exactly if its body is unusable, which decides the category. -/
theorem answer_iff_unusable {status : Nat} (success : isSuccess status = true) (reply : String)
    (category : Category) :
    (∃ error, answer status reply = .error error ∧ error.category = category) ↔
      Unusable (receivedBody status reply) category := by
  rw [answer, if_pos success]
  cases read : Json.parse (receivedBody status reply).toList with
  | ok payload => exact extractText_iff read category
  | error error =>
    constructor
    · rintro ⟨_, failed, rfl⟩
      obtain rfl := Except.error.inj failed
      rw [category_notJson]
      exact .notJson read
    · intro unusable
      cases unusable with
      | notJson refused =>
        obtain rfl := Except.error.inj (read.symm.trans refused)
        exact ⟨_, rfl, category_notJson error⟩
      | noParts again | noText again => cases read.symm.trans again

/-- A byte order mark in front of a body is in nothing that is looked for. -/
theorem contains_withoutMark {mark : String} (known : mark ∈ Category.marks) (body : List Char) :
    contains mark.toList (withoutMark body) = contains mark.toList body := by
  have ascii : ∀ mark ∈ Category.marks, mark.toList.head?.map Char.toNat ≠ some 0xFEFF := by decide
  unfold withoutMark
  split
  · rename_i c rest
    split
    · rename_i byteOrder
      have other : ∀ d ∈ mark.toList.head?, d ≠ c := by
        rintro d first rfl
        exact ascii mark known (by rw [first, Option.map_some, byteOrder])
      rw [Text.contains_cons (Category.filled_of_mem_marks known) other]
    · rfl
  · rfl

theorem mentions_statusError (wanted : List String) (known : ∀ mark ∈ wanted, mark ∈ Category.marks)
    (status : Nat) (body : String) :
    Category.mentions wanted ("HTTP " ++ toString status ++ " " ++ reasonPhrase status ++ ": " ++
        .ofList (withoutMark body.toList)).toList =
      (Category.mentions wanted ("HTTP " ++ toString status ++ " " ++ reasonPhrase status).toList ||
        Category.mentions wanted body.toList) := by
  generalize "HTTP " ++ toString status ++ " " ++ reasonPhrase status = title
  have whole : (title ++ ": " ++ .ofList (withoutMark body.toList)).toList =
      title.toList ++ ':' :: ' ' :: withoutMark body.toList := by simp
  have each : ∀ mark ∈ wanted, contains mark.toList (title ++ ": " ++ .ofList (withoutMark body.toList)).toList =
      (contains mark.toList title.toList || contains mark.toList body.toList) := by
    intro mark looked
    rw [whole, Category.contains_report (known mark looked), contains_withoutMark (known mark looked)]
  rw [Bool.eq_iff_iff]
  simp only [Category.mentions, List.any_eq_true, Bool.or_eq_true]
  constructor
  · rintro ⟨mark, looked, found⟩
    rw [each mark looked, Bool.or_eq_true] at found
    exact found.imp (⟨mark, looked, ·⟩) (⟨mark, looked, ·⟩)
  · rintro (⟨mark, looked, found⟩ | ⟨mark, looked, found⟩)
    · exact ⟨mark, looked, by rw [each mark looked, found, Bool.true_or]⟩
    · exact ⟨mark, looked, by rw [each mark looked, found, Bool.or_true]⟩

theorem category_tooManyRequests (body : String) : (statusError 429 body).category = .rateLimited := by
  have mentioned := mentions_statusError ["429", "Too Many Requests"] (by decide) 429 body
  have named : Category.mentions ["429", "Too Many Requests"]
      ("HTTP " ++ toString 429 ++ " " ++ reasonPhrase 429).toList = true := by decide
  rw [named, Bool.true_or] at mentioned
  rw [statusError, Error.category, Category.ofText, if_pos mentioned]

theorem category_serviceUnavailable (body : String) : (statusError 503 body).category =
    if Category.mentions ["429", "Too Many Requests"] body.toList then .rateLimited else .overloaded := by
  have limited := mentions_statusError ["429", "Too Many Requests"] (by decide) 503 body
  have mentioned := mentions_statusError ["503", "Service Unavailable"] (by decide) 503 body
  have unnamed : Category.mentions ["429", "Too Many Requests"]
      ("HTTP " ++ toString 503 ++ " " ++ reasonPhrase 503).toList = false := by decide
  have named : Category.mentions ["503", "Service Unavailable"]
      ("HTTP " ++ toString 503 ++ " " ++ reasonPhrase 503).toList = true := by decide
  rw [unnamed, Bool.false_or] at limited
  rw [named, Bool.true_or] at mentioned
  rw [statusError, Error.category, Category.ofText, limited, if_pos mentioned]

/-- What category a reply is told as. The status 429 always gives its own; the status 503 does
unless the body mentions the other one. A body that comes with a success status and is no answer
is unavailable, but for the marks in its finish reason or in the place where it stops being JSON,
and for the depth limit of the reader. -/
theorem category_of_reply (reply : String) :
    (∃ error, answer 429 reply = .error error ∧ error.category = .rateLimited) ∧
    (∃ error, answer 503 reply = .error error ∧
      error.category = if Category.mentions ["429", "Too Many Requests"] reply.toList then .rateLimited
        else .overloaded) ∧
    ∀ status, isSuccess status = true → ∀ category,
      (∃ error, answer status reply = .error error ∧ error.category = category) ↔
        Unusable (receivedBody status reply) category :=
  ⟨⟨_, rfl, category_tooManyRequests reply⟩, ⟨_, rfl, category_serviceUnavailable reply⟩,
    fun _ success category => answer_iff_unusable success reply category⟩

theorem category_of_reply_page : isSuccess 200 = true ∧
    ∃ error, answer 200 "<html>" = .error error ∧ error.category = .unavailable := by
  have refused : Json.parse "<html>".toList = .error ⟨.expectedValue, ⟨1, 1⟩⟩ := rfl
  exact ⟨rfl, ((category_of_reply "<html>").2.2 200 rfl _).mpr (.notJson refused)⟩

/-- A number in the body of an overloaded service makes it a rate limit. -/
theorem overload_told_as_limit :
    ¬∀ reply, ∃ error, answer 503 reply = .error error ∧ error.category = .overloaded := by
  intro all
  obtain ⟨error, failed, overloaded⟩ := all "The model is overloaded (request 14290)"
  obtain rfl := Except.error.inj failed
  have limited := category_serviceUnavailable "The model is overloaded (request 14290)"
  rw [if_pos (by decide)] at limited
  cases limited.symm.trans overloaded

end Gemini

end UiPlan.Oracle
