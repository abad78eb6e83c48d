import CompiledCode.Proofs.Storage.Parents

/-!
A name that is joined to the parent of a path names something in the directory of what the path
names. So a file that is named after the stem of a path lies beside the file at the path.
-/

namespace CompiledCode

namespace Path

theorem splitHead_suffix (text : List Char) : (splitHead text).2 <:+ text := by
  rw [splitHead.eq_def]
  split
  · exact List.suffix_cons _ _
  · exact List.nil_suffix
  · exact List.suffix_cons _ _
  · exact List.suffix_rfl

theorem stemOfName_sublist (name : List Char) : (stemOfName name).Sublist name := by
  unfold stemOfName
  dsimp only
  split
  · exact List.Sublist.refl name
  · have kept := ((List.drop_sublist 1 _).trans
      (List.dropWhile_sublist (· ≠ '.') (l := name.reverse))).reverse
    rwa [List.reverse_reverse] at kept

/-- The last name is made of characters of the path, and none of them is a slash. -/
theorem of_fileName?_eq_some {path : String} {name : List Char}
    (isName : fileName? path = some name) : name.Sublist path.toList ∧ '/' ∉ name := by
  unfold fileName? at isName
  dsimp only at isName
  split at isName
  · cases isName
  · cases isName
    constructor
    · have part := (List.takeWhile_sublist (· ≠ '/')).trans
        (trimReversed_suffix (splitHead path.toList).2.reverse).sublist
      have body := part.reverse
      rw [List.reverse_reverse] at body
      exact body.trans (splitHead_suffix path.toList).sublist
    · intro slash
      have kept := List.mem_takeWhile_imp (List.mem_reverse.mp slash)
      simp at kept

/-- The stem of a path is made of characters of the path. -/
theorem stem_sublist (path : String) : (stem path).toList.Sublist path.toList := by
  rw [stem, String.toList_ofList]
  cases isName : fileName? path with
  | none => exact List.nil_sublist _
  | some name => exact (stemOfName_sublist name).trans (of_fileName?_eq_some isName).1

/-- A stem is a single name. -/
theorem slash_not_mem_stem (path : String) : '/' ∉ (stem path).toList := by
  rw [stem, String.toList_ofList]
  cases isName : fileName? path with
  | none => simp
  | some name =>
    intro slash
    exact (of_fileName?_eq_some isName).2 ((stemOfName_sublist name).subset slash)

end Path

namespace FileTree

open CompiledCode.Path

section Joining

variable {tree : FileTree} {name : String} (directory : String)

/-- A name that is joined to a directory is one step more. -/
theorem names_join (noSlash : '/' ∉ name.toList) : ∃ front, names (join directory name) =
    front ++ [name] ∧ steps front = steps (names directory) := by
  have single : namesOf name.toList = [name] := by
    rw [namesOf_single noSlash, String.ofList_toList]
  rcases toList_join directory name with ⟨rfl, joined⟩ | ⟨front, isDirectory, joined⟩ | joined
  · refine ⟨[], ?_, by decide⟩
    rw [joined, names_eq, single]
    rfl
  · refine ⟨namesOf front, ?_, ?_⟩
    · rw [names_eq, joined, namesOf_slash, single]
    · rw [names_eq, isDirectory, steps_slash]
  · refine ⟨names directory, ?_, rfl⟩
    rw [names_eq, joined, namesOf_slash, single]
    rfl

theorem origin_join (noSlash : '/' ∉ name.toList) :
    tree.origin (join directory name) = tree.origin directory := by
  by_cases nothing : directory = ""
  · subst nothing
    refine (origin_empty ?_).symm
    intro isRoot
    exact noSlash (List.mem_of_head? isRoot)
  · refine (origin_of_isPrefix ?_ nothing).symm
    rcases toList_join directory name with ⟨rfl, _⟩ | ⟨front, isDirectory, joined⟩ | joined
    · exact absurd rfl nothing
    · rw [isDirectory, joined]
      exact ⟨name.toList, by simp⟩
    · rw [joined]
      exact List.prefix_append _ _

end Joining

section Parents

variable {tree : FileTree} {path last other : String} {front : List String}
  {directory location : Location}

/-- What is joined to the parent of a path is reached as the last name of the path is. -/
theorem reached_join_parent (namesEq : names path = front ++ [last]) (filled : last ≠ "")
    (notDot : last ≠ ".") (reached : tree.follow (tree.origin path) front = .ok directory)
    (isDirectory : tree.IsDirectory directory) (noSlash : '/' ∉ other.toList) :
    ∃ others, names (join ((parent? path).getD ".") other) = others ++ [other] ∧
      tree.follow (tree.origin (join ((parent? path).getD ".") other)) others = .ok directory := by
  obtain ⟨parent, isParent, _, _, sameSteps, sameOrigin⟩ :=
    parent_of_names tree namesEq filled notDot
  rw [isParent, Option.getD_some]
  obtain ⟨others, joined, joinedSteps⟩ := names_join parent noSlash
  refine ⟨others, joined, ?_⟩
  rw [← follow_steps isDirectory, joinedSteps, sameSteps, origin_join parent noSlash, sameOrigin,
    follow_steps isDirectory, reached]

/-- What is joined to the parent of a path lies in the directory of what the path leads to. -/
theorem target_join (namesEq : names path = front ++ [last]) (filled : last ≠ "")
    (notDot : last ≠ ".") (reached : tree.follow (tree.origin path) front = .ok directory)
    (isDirectory : tree.IsDirectory directory) (noSlash : '/' ∉ other.toList)
    (isTarget : tree.target (join ((parent? path).getD ".") other) = .ok location) :
    location = directory ++ [other] := by
  obtain ⟨others, joined, joinedReached⟩ :=
    reached_join_parent namesEq filled notDot reached isDirectory noSlash
  obtain ⟨otherFront, name, otherDirectory, otherLeads, entered⟩ := leadsTo_of_target isTarget
  obtain ⟨rfl, sameName⟩ := List.append_inj' (otherLeads.namesEq.symm.trans joined) rfl
  obtain rfl : name = other := List.singleton_inj.mp sameName
  cases otherLeads.reached.symm.trans joinedReached
  unfold below at entered
  split at entered <;> cases entered
  rfl

theorem target_join_parent (leads : tree.LeadsTo path front last directory)
    (noSlash : '/' ∉ other.toList)
    (isTarget : tree.target (join ((parent? path).getD ".") other) = .ok location) :
    location = directory ++ [other] :=
  target_join leads.namesEq leads.isName leads.isBelow.1 leads.reached leads.isDirectory noSlash
    isTarget

/-- The last name of a path, joined to its parent, leads where the path does. -/
theorem leadsTo_join_parent (leads : tree.LeadsTo path front last directory) :
    ∃ others, tree.LeadsTo (join ((parent? path).getD ".") last) others last directory := by
  have namesEq := leads.namesEq
  obtain ⟨others, joined, reached⟩ := reached_join_parent namesEq leads.isName leads.isBelow.1
    leads.reached leads.isDirectory (toList_of_namesOf namesEq).1
  refine ⟨others, ?_, joined, leads.isName, leads.isBelow, reached, leads.isDirectory⟩
  obtain ⟨parent, isParent, _, isPart, _⟩ :=
    parent_of_names tree namesEq leads.isName leads.isBelow.1
  rw [isParent, Option.getD_some] at joined ⊢
  refine checkPath_of_sublist leads.checked isPart fun nothing => ?_
  rw [nothing, ← List.nil_append (names "")] at joined
  obtain ⟨_, same⟩ := List.append_inj' joined rfl
  exact leads.isName (List.singleton_inj.mp same).symm

end Parents

end FileTree

end CompiledCode
