import UiPlan.Config.Address
import UiPlan.Text.Blank
import UiPlan.Text.Lowercase

/-! The settings of the server. Each comes from a variable of its own; a variable that is
missing, blank or no use leaves the default. Values are trimmed.
-/
namespace UiPlan

namespace Config

inductive Error where
  | configuration (text : String)
  | oracleClient (text : String)
  | internal (text : String)
  deriving DecidableEq, Repr

def Error.message : Error → String
  | .configuration text => "Configuration error: " ++ text
  | .oracleClient text => "Oracle client error: " ++ text
  | .internal text => "Internal server error: " ++ text

end Config

structure Config where
  portNumber : Nat := 3001
  bindAddress : String := "0.0.0.0"
  logLevel : String := "info"
  logJson : Bool := false
  apiKey : Option String := none
  model : String := "gemini-2.5-flash"
  apiBaseUrl : String := "https://generativelanguage.googleapis.com"
  oracleTimeoutSeconds : Nat := 60
  strictProps : Bool := false
  maxBodyBytes : Nat := 1048576
  deriving DecidableEq, Repr

namespace Config

abbrev Lookup := String → Option String

def filled? (lookup : Lookup) (name : String) : Option String :=
  (lookup name).bind fun value =>
    let trimmed := Text.trim value.toList
    if trimmed.isEmpty then none else some (.ofList trimmed)

def digitsBelow? (limit : Nat) (cs : List Char) : Option Nat :=
  if cs.isEmpty || !cs.all Char.isDigit then none
  else
    let value := Nat.ofDigitChars 10 cs 0
    if value < limit then some value else none

def countBelow? (limit : Nat) : List Char → Option Nat
  | '+' :: rest => digitsBelow? limit rest
  | cs => digitsBelow? limit cs

def count? (lookup : Lookup) (name : String) (limit : Nat) : Option Nat :=
  (filled? lookup name).bind fun value => countBelow? limit value.toList

def positive? (lookup : Lookup) (name : String) (limit : Nat) : Option Nat :=
  (count? lookup name limit).filter (· ≠ 0)

def truth? (word : String) : Option Bool :=
  if ["1", "true", "yes", "on"].contains word then some true
  else if ["0", "false", "no", "off"].contains word then some false
  else none

def flag? (lookup : Lookup) (name : String) : Option Bool :=
  (filled? lookup name).bind fun value => truth? (.ofList (Text.lowerAscii value.toList))

def isSlash (c : Char) : Bool := c = '/'

def baseUrl? (lookup : Lookup) (name : String) : Option String :=
  (filled? lookup name).map fun value => .ofList (Text.dropEndWhile isSlash value.toList)

def wordLimit : Nat := 18446744073709551616

def default : Config := {}

def ofLookup (lookup : Lookup) : Config where
  portNumber := (count? lookup "SERVER_PORT" 65536).getD default.portNumber
  bindAddress := (filled? lookup "SERVER_HOST").getD default.bindAddress
  logLevel := (filled? lookup "LOG_LEVEL").getD default.logLevel
  logJson := (flag? lookup "LOG_JSON").getD default.logJson
  apiKey := filled? lookup "GEMINI_API_KEY"
  model := (filled? lookup "GEMINI_MODEL").getD default.model
  apiBaseUrl := (baseUrl? lookup "GEMINI_API_BASE_URL").getD default.apiBaseUrl
  oracleTimeoutSeconds :=
    (positive? lookup "ORACLE_TIMEOUT_SECS" wordLimit).getD default.oracleTimeoutSeconds
  strictProps := (flag? lookup "STRICT_PROP_VALIDATION").getD default.strictProps
  maxBodyBytes := (positive? lookup "MAX_BODY_BYTES" wordLimit).getD default.maxBodyBytes

def requireApiKey (config : Config) : Except Error String :=
  match config.apiKey with
  | some key => .ok key
  | none => .error (.configuration "GEMINI_API_KEY is not set")

def oracleName (config : Config) : Except Error String :=
  config.requireApiKey.map fun _ => "gemini:" ++ config.model

def address (config : Config) : List Char :=
  config.bindAddress.toList ++ ':' :: Nat.toDigits 10 config.portNumber

def startError? (config : Config) : Option Error :=
  match config.requireApiKey with
  | .error error => some error
  | .ok _ =>
    if Address.isSocketAddress config.address then none
    else some (.configuration "Invalid bind address: invalid socket address syntax")

structure Monitoring where
  serviceName : String
  logFilter : String
  jsonLogs : Bool
  enableMetrics : Bool
  deriving DecidableEq, Repr

def monitoring (config : Config) : Monitoring := ⟨"trellis-server", config.logLevel, config.logJson, true⟩

end Config

end UiPlan
