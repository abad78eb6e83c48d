import CompiledCode.Settings.Level
import CompiledCode.Text.Number
import CompiledCode.Text.Quoted

namespace CompiledCode

/-- The settings of a run. -/
structure Config where
  /-- A value that this many containers enclose is refused. -/
  maxDepth : Nat
  verifyChecksum : Bool
  logLevel : Level
  deriving DecidableEq, Repr

/-- The value of each variable that is set. -/
abbrev Environment := String → Option String

namespace Config

def default : Config := ⟨512, true, .info⟩

instance : Inhabited Config := ⟨default⟩

def depthVariable : String := "RBC_MAX_DEPTH"

def checksumVariable : String := "RBC_VERIFY_CHECKSUM"

def levelVariable : String := "RBC_LOG"

/-- A depth is a positive number of 64 bits. -/
def depth? (text : String) : Option Nat :=
  ((Text.word? (Text.trim text.toList)).map UInt64.toNat).filter (0 < ·)

def switch? (text : String) : Option Bool :=
  match Text.lowerAscii (String.ofList (Text.trim text.toList)) with
  | "0" | "false" | "no" | "off" => some false
  | "1" | "true" | "yes" | "on" => some true
  | _ => none

/-- A variable whose text does not have the expected form is ignored. -/
def ignored (name text expected : String) : Notice :=
  ⟨.warn, "ignoring " ++ name ++ "=" ++ Text.quote text ++ ": expected " ++ expected⟩

/-- The setting of a variable, or the default with a warning when the variable makes no sense. -/
def setting {α : Type} (environment : Environment) (name expected : String)
    (parse : String → Option α) (default : α) : α × List Notice :=
  match environment name with
  | none => (default, [])
  | some text =>
    match parse text with
    | some value => (value, [])
    | none => (default, [ignored name text expected])

/-- The settings in the environment, and warnings about the ones that make no sense. -/
def ofEnvironment (environment : Environment) : Config × List Notice :=
  let (maxDepth, depthNotices) :=
    setting environment depthVariable "a positive integer" depth? default.maxDepth
  let (verifyChecksum, checksumNotices) :=
    setting environment checksumVariable "a boolean" switch? default.verifyChecksum
  let (logLevel, levelNotices) :=
    setting environment levelVariable "debug, info, warn or error" Level.ofText? default.logLevel
  (⟨maxDepth, verifyChecksum, logLevel⟩, depthNotices ++ checksumNotices ++ levelNotices)

end Config

end CompiledCode
