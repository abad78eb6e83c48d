import CompiledCode.Settings.Level

namespace CompiledCode

/-- What a run tells the user besides its output: messages with a level, and texts without one. -/
inductive Remark where
  | notice (notice : Notice)
  | plain (text : String)
  deriving DecidableEq, Repr

/-- A notice is shown from its level on, and a text without a level always. -/
def Remark.render (least : Level) : Remark → String
  | notice message => Notice.render least [message]
  | plain text => text

/-- The exit status of a run, its output and its remarks. -/
structure Report where
  status : UInt32
  output : String
  remarks : List Remark
  deriving DecidableEq, Repr

namespace Report

def debug (text : String) : Remark := .notice ⟨.debug, text⟩

def info (text : String) : Remark := .notice ⟨.info, text⟩

def warn (text : String) : Remark := .notice ⟨.warn, text⟩

def error (text : String) : Remark := .notice ⟨.error, text⟩

/-- A run that has done what it was asked for. -/
def success (output : String) (remarks : List Remark) : Report := ⟨0, output, remarks⟩

/-- A run that has not. -/
def failure (output : String) (remarks : List Remark) : Report := ⟨1, output, remarks⟩

/-- The remarks that are shown, as one text. -/
def errors (report : Report) (least : Level) : String :=
  String.join (report.remarks.map (Remark.render least))

end Report

end CompiledCode
