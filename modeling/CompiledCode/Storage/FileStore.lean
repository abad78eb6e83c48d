namespace CompiledCode

/-- Why a file cannot be used. -/
inductive SystemFault where
  | notFound
  | permissionDenied
  | notDirectory
  | isDirectory
  | nameTooLong
  /-- No name holds a zero byte. -/
  | zeroInName
  | other (text : String)
  deriving DecidableEq, Repr

def SystemFault.message : SystemFault → String
  | notFound => "No such file or directory (os error 2)"
  | permissionDenied => "Permission denied (os error 13)"
  | notDirectory => "Not a directory (os error 20)"
  | isDirectory => "Is a directory (os error 21)"
  | nameTooLong => "File name too long (os error 36)"
  | zeroInName => "file name contained an unexpected NUL byte"
  | other text => text

/-- A place that keeps files under paths. -/
class FileStore (m : Type → Type) where
  /-- Whether a file or a directory is at the path. -/
  present : String → m Bool
  /-- The bytes of the file at the path. -/
  read : String → m (Except SystemFault (List UInt8))
  /--
  The file at the path gets these bytes and no others, and is made when it is not there. Opening the
  file, which empties it, and writing to it are one step, and a fault is a fault of the opening,
  which has changed nothing. The store is taken to have room for all bytes of a file that it has
  opened: a device that fills up or fails in between, and the emptied or shortened file that is left
  then, are not described.
  -/
  write : String → List UInt8 → m (Except SystemFault Unit)

end CompiledCode
