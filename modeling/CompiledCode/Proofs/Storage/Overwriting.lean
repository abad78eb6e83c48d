import CompiledCode.Proofs.Storage.Opening
import CompiledCode.Proofs.Storage.Siblings

/-!
Which file a write changes. A file is read from where its path leads, and after a write to another
place it is still read from there. A path and the stem of its last name with an extension lead to
the same file just if the last name has that extension already.
-/

namespace CompiledCode

namespace Path

variable {path : String} {name : List Char}

/-- The last name of a path is the name that it ends with, unless that is two dots. -/
theorem fileName?_of_splitHead {head body : List Char} (isName : IsName name)
    (split : splitHead path.toList = (head, body))
    (ends : body = name ∨ ∃ before, body = before ++ '/' :: name) :
    fileName? path = if name = ['.', '.'] then none else some name := by
  have inside : ∀ c ∈ name.reverse, decide (c ≠ '/') = true := by
    intro c member
    rw [decide_eq_true_eq]
    rintro rfl
    exact isName.noSlash (List.mem_reverse.mp member)
  have taken : (trimReversed body.reverse).takeWhile (· ≠ '/') = name.reverse := by
    rcases ends with rfl | ⟨before, rfl⟩
    · have kept := trimReversed_name isName []
      rw [List.append_nil] at kept
      rw [kept]
      exact List.takeWhile_eq_self_iff.mpr inside
    · have reversed : (before ++ '/' :: name).reverse = name.reverse ++ '/' :: before.reverse := by
        simp
      rw [reversed, trimReversed_name isName, List.takeWhile_append_of_pos inside,
        List.takeWhile_cons_of_neg (by decide), List.append_nil]
  rw [fileName?, split]
  dsimp only
  rw [taken, List.reverse_reverse]
  simp only [isName.filled, false_or]

/-- A stem and an extension are told apart again. -/
theorem stemOfName_extended {stem extension : List Char} (filled : stem ≠ [])
    (noDot : '.' ∉ extension) : stemOfName (stem ++ '.' :: extension) = stem := by
  have reversed : (stem ++ '.' :: extension).reverse =
      extension.reverse ++ '.' :: stem.reverse := by simp
  have inside : ∀ c ∈ extension.reverse, decide (c ≠ '.') = true := by
    intro c member
    rw [decide_eq_true_eq]
    rintro rfl
    exact noDot (List.mem_reverse.mp member)
  unfold stemOfName
  rw [reversed, List.dropWhile_append_of_pos inside, List.dropWhile_cons_of_neg (by decide),
    List.drop_one, List.tail_cons, List.reverse_reverse]
  simp [filled]

/-- The last name is a stem and the extension of compiled files. -/
def IsCompiled (path : String) : Prop :=
  ∃ stem, stem ≠ [] ∧ fileName? path = some (stem ++ ['.', 'r', 'b', 'c'])

/-- The stem of the last name with the extension is that name again just if it had the extension. -/
theorem stem_extended_iff (isName : fileName? path = some name) :
    stem path ++ ".rbc" = String.ofList name ↔ IsCompiled path := by
  have stemIs : stem path = String.ofList (stemOfName name) := by rw [stem, isName]; rfl
  have extension : ".rbc".toList = ['.', 'r', 'b', 'c'] := rfl
  rw [stemIs, ← String.toList_inj, String.toList_append, extension]
  simp only [String.toList_ofList]
  constructor
  · intro same
    refine ⟨stemOfName name, fun nothing => ?_, isName.trans (congrArg some same.symm)⟩
    -- A name that is all extension is its own stem.
    rw [nothing] at same
    rw [← same] at nothing
    cases nothing
  · rintro ⟨stem, filled, isExtended⟩
    obtain rfl := Option.some.inj (isName.symm.trans isExtended)
    rw [stemOfName_extended filled (by decide)]

end Path

namespace FileTree

open CompiledCode.Path

section Reading

variable {tree changed : FileTree} {path : String} {location : Location} {bytes : List UInt8}

/-- The path leads to a file with these bytes. -/
structure FileAt (tree : FileTree) (path : String) (location : Location) (bytes : List UInt8) :
    Prop where
  checked : checkPath path = .ok ()
  reached : tree.follow (tree.origin path) (names path) = .ok location
  isFile : ∃ readOnly, tree.entry? location = some (.file bytes readOnly)

theorem read_eq_ok_iff :
    tree.read path = .ok bytes ↔ ∃ location, tree.FileAt path location bytes := by
  constructor
  · intro success
    obtain ⟨entry, found, isFile⟩ := except_bind_eq_ok.mp success
    obtain ⟨⟨⟩, checked, followed⟩ := except_bind_eq_ok.mp found
    obtain ⟨location, reached, there⟩ := except_bind_eq_ok.mp followed
    refine ⟨location, checked, reached, ?_⟩
    split at there
    · rename_i other isEntry
      cases there
      cases entry with
      | file others readOnly =>
        cases isFile
        exact ⟨readOnly, isEntry⟩
      | directory => cases isFile
    · cases there
  · rintro ⟨location, checked, reached, readOnly, isFile⟩
    have found : tree.resolve path = .ok (.file bytes readOnly) := by
      refine except_bind_eq_ok.mpr ⟨(), checked, except_bind_eq_ok.mpr ⟨location, reached, ?_⟩⟩
      rw [isFile]
    exact except_bind_eq_ok.mpr ⟨_, found, rfl⟩

/-- After a write the file is where it was, and it has other bytes just if it was written. -/
theorem FileAt.of_write {other : String} {place : Location} {content : List UInt8}
    (fileAt : tree.FileAt other place content) (isTarget : tree.target path = .ok location)
    (success : tree.write path bytes = .ok changed) :
    changed.read other = .ok (if place = location then bytes else content) := by
  rw [write_eq] at success
  obtain ⟨⟨slotted, readOnly⟩, isSlot, rfl⟩ := except_map_eq_ok.mp success
  obtain ⟨slotTarget, noDirectory⟩ := slot_spec isSlot
  cases isTarget.symm.trans slotTarget
  obtain ⟨_, _, nested⟩ := follow_of_target isTarget
  refine read_eq_ok_iff.mpr ⟨place, fileAt.checked, follow_put noDirectory fileAt.reached, ?_⟩
  split
  · rename_i same
    exact ⟨readOnly, by rw [same]; exact entry?_put_self nested⟩
  · rename_i differs
    obtain ⟨otherReadOnly, isFile⟩ := fileAt.isFile
    exact ⟨otherReadOnly, (entry?_put_other differs).trans isFile⟩

end Reading

section Names

variable {tree : FileTree} {path : String} {location : Location} {bytes : List UInt8}

/-- The last name of a path in a directory. It is two dots or the name of what the path leads to. -/
structure LastName (tree : FileTree) (path : String) (location : Location) (front : List String)
    (name : String) (directory : Location) : Prop where
  namesEq : names path = front ++ [name]
  filled : name ≠ ""
  notDot : name ≠ "."
  reached : tree.follow (tree.origin path) front = .ok directory
  isDirectory : tree.IsDirectory directory
  leaves : name = ".." → location = directory.dropLast
  enters : name ≠ ".." → location = directory ++ [name] ∧ name.utf8ByteSize ≤ nameLimit

theorem fileName?_of_names {front : List String} {name : String}
    (namesEq : names path = front ++ [name]) (filled : name ≠ "") (notDot : name ≠ ".") :
    fileName? path = if name = ".." then none else some name.toList := by
  have isName := isName_of_names namesEq filled notDot
  have apart : path.toList = name.toList ∨ ∃ before, path.toList = before ++ '/' :: name.toList :=
    (toList_of_namesOf namesEq).2.imp_right fun ⟨before, parts, _⟩ => ⟨before, parts⟩
  have dots : name.toList = ['.', '.'] ↔ name = ".." := by rw [← String.toList_inj]; rfl
  simp only [← dots]
  rcases splitHead_of_name isName apart with ⟨_, split⟩ | ⟨_, split⟩ | ⟨_, rest, _, _, split⟩
  · exact fileName?_of_splitHead isName split (.inl rfl)
  · exact fileName?_of_splitHead isName split (.inl rfl)
  · exact fileName?_of_splitHead isName split (.inr ⟨rest, rfl⟩)

/-- A path that leads to a file ends with a name, and with no slash or single dot. -/
theorem FileAt.exists_lastName (fileAt : tree.FileAt path location bytes) :
    ∃ front name directory, tree.LastName path location front name directory := by
  obtain ⟨readOnly, isFile⟩ := fileAt.isFile
  have reached := fileAt.reached
  have someName : names path ≠ [] := by
    rw [names_eq, namesOf, ne_eq, List.map_eq_nil_iff]
    exact Text.pieces_ne_nil _ _
  have namesEq := (List.dropLast_concat_getLast someName).symm
  generalize (names path).dropLast = front at namesEq
  generalize (names path).getLast someName = name at namesEq
  rw [namesEq, follow_append] at reached
  obtain ⟨directory, frontReached, step⟩ := except_bind_eq_ok.mp reached
  have isDirectory := isDirectory_of_follow_cons step
  rw [follow_cons isDirectory] at step
  have adds : ¬ (name = "" ∨ name = ".") := by
    intro skipped
    rw [if_pos skipped] at step
    cases step
    obtain ⟨_, isDirectory⟩ := isDirectory
    rw [isFile] at isDirectory
    cases isDirectory
  obtain ⟨filled, notDot⟩ := not_or.mp adds
  rw [if_neg adds] at step
  refine ⟨front, name, directory, namesEq, filled, notDot, frontReached, isDirectory, ?_, ?_⟩
  · intro up
    rw [if_pos up] at step
    exact (Except.ok.inj step).symm
  · intro down
    rw [if_neg down] at step
    obtain ⟨entered, isBelow, same⟩ := except_bind_eq_ok.mp step
    cases same
    unfold below at isBelow
    split at isBelow
    · cases isBelow
    · rename_i short
      exact ⟨(Except.ok.inj isBelow).symm, Nat.le_of_not_lt short⟩

end Names

end FileTree

end CompiledCode
