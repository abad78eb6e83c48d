import CompiledCode.Archive.CompiledFile

namespace CompiledCode

/-- What has become of a file that was to be written. -/
inductive DumpOutcome where
  | written (bytes : Nat)
  | skipped
  deriving DecidableEq, Repr

/--
The file of a method is written to a path. It is no error when the user may not write there, and
then nothing is written.
-/
def dump {m : Type → Type} [Monad m] [FileStore m] (method : Method) (path : String) :
    m (Except FileError DumpOutcome) := do
  let bytes := CompiledFile.encode method
  match ← FileStore.write path bytes with
  | .ok () => return .ok (.written bytes.length)
  | .error .permissionDenied => return .ok .skipped
  | .error fault => return .error (.io path fault)

/-- The compiled file at a path. -/
def load {m : Type → Type} [Monad m] [FileStore m] (config : Config) (path : String) :
    m (Except FileError CompiledFile) := do
  match ← FileStore.read path with
  | .ok bytes => return CompiledFile.parse config bytes
  | .error fault => return .error (.io path fault)

end CompiledCode
