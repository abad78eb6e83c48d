import CompiledCode.Text.Blank

/-!
Paths as texts. Slashes separate names; a name that is empty or a single dot adds nothing, except
that a path may start with a slash, which is the root, or with a single dot.
-/

namespace CompiledCode.Path

/-- The start of a path that is not part of its names: a slash, a single dot, or nothing. -/
def splitHead : List Char → List Char × List Char
  | '/' :: body => (['/'], body)
  | ['.'] => (['.'], [])
  | '.' :: '/' :: body => (['.'], '/' :: body)
  | body => ([], body)

/-- Slashes and single dots at the end of a reversed path add nothing. -/
def trimReversed : List Char → List Char
  | '/' :: rest => trimReversed rest
  | '.' :: '/' :: rest => trimReversed rest
  | ['.'] => []
  | rest => rest

/-- The last name, or nothing when the path has no name and when the last one is two dots. -/
def fileName? (path : String) : Option (List Char) :=
  let (_, body) := splitHead path.toList
  let name := ((trimReversed body.reverse).takeWhile (· ≠ '/')).reverse
  if name = [] ∨ name = ['.', '.'] then none else some name

/-- A name without its extension. The dot that a name starts with starts no extension. -/
def stemOfName (name : List Char) : List Char :=
  let before := ((name.reverse.dropWhile (· ≠ '.')).drop 1).reverse
  if before.isEmpty then name else before

/-- The last name without its extension; empty when there is no last name. -/
def stem (path : String) : String :=
  String.ofList (((fileName? path).map stemOfName).getD [])

/-- The path without its last name; the root and the empty path have no parent. -/
def parent? (path : String) : Option String :=
  let (head, body) := splitHead path.toList
  match trimReversed body.reverse with
  | [] => if head = ['.'] then some "" else none
  | reversed =>
    let rest := trimReversed ((reversed.dropWhile (· ≠ '/')).drop 1)
    some (String.ofList (head ++ rest.reverse))

/-- A name below a directory. -/
def join (directory name : String) : String :=
  if directory.isEmpty || directory.endsWith "/" then directory ++ name
  else directory ++ "/" ++ name

end CompiledCode.Path
