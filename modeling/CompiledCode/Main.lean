import CompiledCode.CommandLine.Program

namespace CompiledCode

/-- The fault that the system reports. -/
def SystemFault.ofSystem : IO.Error → SystemFault
  | .noFileOrDirectory .. => .notFound
  | .permissionDenied .. => .permissionDenied
  | .invalidArgument _ 36 _ => .nameTooLong
  | .inappropriateType _ 20 _ => .notDirectory
  | .inappropriateType .. => .isDirectory
  | failure => .other (toString failure)

/-- The files of the system. -/
instance : FileStore BaseIO where
  present path := do
    match ← (IO.FS.Handle.mk path .read).toBaseIO with
    | .ok _ => return true
    | .error failure =>
      let fault := SystemFault.ofSystem failure
      return fault = .permissionDenied ∨ fault = .isDirectory
  read path := do
    match ← (IO.FS.readBinFile path).toBaseIO with
    | .ok bytes => return .ok bytes.toList
    | .error failure => return .error (.ofSystem failure)
  write path bytes := do
    match ← (IO.FS.writeBinFile path ⟨bytes.toArray⟩).toBaseIO with
    | .ok () => return .ok ()
    | .error failure => return .error (.ofSystem failure)

end CompiledCode

open CompiledCode in
/-- The program with the files, the environment and the streams of the system. -/
def main (arguments : List String) : IO UInt32 := do
  let names := [Config.depthVariable, Config.checksumVariable, Config.levelVariable]
  let values ← names.mapM fun name => return (name, ← IO.getEnv name)
  let environment : Environment := fun name => (values.lookup name).join
  let transcript ← (Program.run "rbc" environment arguments : BaseIO Transcript)
  (← IO.getStdout).putStr transcript.output
  (← IO.getStderr).putStr transcript.errors
  return transcript.status
