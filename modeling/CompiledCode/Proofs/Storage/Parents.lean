import CompiledCode.Proofs.Storage.Writing
import CompiledCode.Proofs.Text.Utf8RoundTrip
import CompiledCode.Storage.Path
import Mathlib.Data.List.TakeWhile

/-!
The directory that a path names besides its last name is there whenever the path lets a file be
written. The two are found by different readings of the path: one follows each name, the other looks
for slashes from the end and leaves out names that add nothing.
-/

namespace CompiledCode

namespace FileTree

/-- The names that are followed, without those that add nothing. -/
def steps (names : List String) : List String :=
  names.filter fun name => !(name = "" || name = ".")

theorem steps_append (first second : List String) :
    steps (first ++ second) = steps first ++ steps second := List.filter_append ..

theorem steps_cons_of_adds {name : String} {rest : List String} (plain : ¬ (name = "" ∨ name = ".")) :
    steps (name :: rest) = name :: steps rest := List.filter_cons_of_pos (by simpa using plain)

theorem steps_cons_of_skipped {name : String} {rest : List String} (skipped : name = "" ∨ name = ".") :
    steps (name :: rest) = steps rest :=
  List.filter_cons_of_neg (by rcases skipped with rfl | rfl <;> decide)

/-- On the way to a directory, names that add nothing may be left out or put in. -/
theorem follow_steps {tree : FileTree} {start stop : Location} {names : List String}
    (isDirectory : tree.IsDirectory stop) :
    tree.follow start (steps names) = .ok stop ↔ tree.follow start names = .ok stop := by
  induction names generalizing start with
  | nil => rfl
  | cons name rest inductionHypothesis =>
    by_cases skipped : name = "" ∨ name = "."
    · rw [steps_cons_of_skipped skipped, inductionHypothesis]
      constructor
      · intro success
        have here : tree.IsDirectory start := by
          cases rest with
          | nil =>
            cases success
            exact isDirectory
          | cons => exact isDirectory_of_follow_cons success
        rw [follow_cons here, if_pos skipped, success]
      · intro success
        rw [follow_cons (isDirectory_of_follow_cons success), if_pos skipped] at success
        exact success
    · rw [steps_cons_of_adds skipped]
      by_cases here : tree.IsDirectory start
      · rw [follow_cons here, follow_cons here, if_neg skipped, if_neg skipped]
        split
        · exact inductionHypothesis
        · simp only [except_bind_eq_ok, inductionHypothesis]
      · constructor
        · intro success
          exact absurd (isDirectory_of_follow_cons success) here
        · intro success
          exact absurd (isDirectory_of_follow_cons success) here

/-- The names of a path that is given by its characters. -/
def namesOf (text : List Char) : List String := (Text.pieces (· == '/') text).map String.ofList

theorem names_eq (path : String) : names path = namesOf path.toList := rfl

theorem namesOf_slash (before after : List Char) :
    namesOf (before ++ '/' :: after) = namesOf before ++ namesOf after := by
  rw [namesOf, Text.pieces_separator rfl, List.map_append]
  rfl

theorem namesOf_single {text : List Char} (noSlash : '/' ∉ text) :
    namesOf text = [String.ofList text] := by
  have inside : ∀ c ∈ text, (c == '/') = false := by
    intro c member
    rw [beq_eq_false_iff_ne]
    rintro rfl
    exact noSlash member
  rw [namesOf, Text.pieces_single inside]
  rfl

theorem steps_slash (text : List Char) : steps (namesOf (text ++ ['/'])) = steps (namesOf text) := by
  rw [namesOf_slash, steps_append]
  exact List.append_nil _

theorem steps_dot (text : List Char) :
    steps (namesOf (text ++ ['/', '.'])) = steps (namesOf text) := by
  rw [namesOf_slash, steps_append]
  exact List.append_nil _

end FileTree

namespace Path

open FileTree

theorem trimReversed_suffix (reversed : List Char) : trimReversed reversed <:+ reversed := by
  fun_induction trimReversed reversed with
  | case1 rest inductionHypothesis => exact inductionHypothesis.trans (List.suffix_cons _ _)
  | case2 rest inductionHypothesis =>
    exact inductionHypothesis.trans ((List.suffix_cons _ _).trans (List.suffix_cons _ _))
  | case3 => exact List.nil_suffix
  | case4 => exact List.suffix_rfl

/-- A head is what a path starts with besides its names: a slash, a single dot, or nothing. -/
structure IsHead (head body : List Char) : Prop where
  isHead : head = [] ∨ head = ['/'] ∨ head = ['.']
  /-- Only a slash follows the single dot. -/
  apart : head = ['.'] → ∀ c, body.head? = some c → c = '/'

/-- What is trimmed at the end of a path adds nothing to its names. -/
theorem steps_trimReversed {head reversed : List Char} (isHead : IsHead head reversed.reverse) :
    steps (namesOf (head ++ (trimReversed reversed).reverse)) =
      steps (namesOf (head ++ reversed.reverse)) := by
  fun_induction trimReversed reversed with
  | case1 rest inductionHypothesis =>
    rw [List.reverse_cons, ← List.append_assoc, steps_slash]
    refine inductionHypothesis ⟨isHead.isHead, fun isDot c first => isHead.apart isDot c ?_⟩
    rw [List.reverse_cons, List.head?_append, first]
    rfl
  | case2 rest inductionHypothesis =>
    rw [List.reverse_cons, List.reverse_cons, List.append_assoc, ← List.append_assoc]
    change _ = steps (namesOf (head ++ rest.reverse ++ ['/', '.']))
    rw [steps_dot]
    refine inductionHypothesis ⟨isHead.isHead, fun isDot c first => isHead.apart isDot c ?_⟩
    rw [List.reverse_cons, List.reverse_cons, List.append_assoc, List.head?_append, first]
    rfl
  | case3 =>
    rcases isHead.isHead with rfl | rfl | rfl
    · decide
    · decide
    · exact absurd (isHead.apart rfl '.' rfl) (by decide)
  | case4 => rfl

/-- A name of a file or of a directory below another one, as the characters of a path. -/
structure IsName (name : List Char) : Prop where
  filled : name ≠ []
  notDot : name ≠ ['.']
  noSlash : '/' ∉ name

/-- Nothing is trimmed at the end of a name. -/
theorem trimReversed_name {name : List Char} (isName : IsName name) (before : List Char) :
    trimReversed (name.reverse ++ before) = name.reverse ++ before := by
  obtain ⟨reversed, rfl⟩ : ∃ reversed : List Char, name = reversed.reverse :=
    ⟨name.reverse, name.reverse_reverse.symm⟩
  obtain ⟨filled, notDot, noSlash⟩ := isName
  rw [List.reverse_reverse]
  rw [List.mem_reverse] at noSlash
  cases reversed with
  | nil => exact absurd rfl filled
  | cons last rest =>
    rw [List.cons_append, trimReversed.eq_def]
    split
    · rename_i same
      obtain ⟨rfl, _⟩ := List.cons.inj same
      exact absurd List.mem_cons_self noSlash
    · rename_i same
      obtain ⟨rfl, restSame⟩ := List.cons.inj same
      cases rest with
      | nil => exact absurd rfl notDot
      | cons next others =>
        obtain ⟨rfl, _⟩ := List.cons.inj restSame
        exact absurd (List.mem_cons_of_mem _ List.mem_cons_self) noSlash
    · rename_i same
      obtain ⟨rfl, restSame⟩ := List.cons.inj same
      obtain ⟨rfl, _⟩ := List.append_eq_nil_iff.mp restSame
      exact absurd rfl notDot
    · rfl

theorem dropWhile_name {name : List Char} (noSlash : '/' ∉ name) (before : List Char) :
    (name.reverse ++ '/' :: before).dropWhile (· ≠ '/') = '/' :: before := by
  rw [List.dropWhile_append_of_pos, List.dropWhile_cons_of_neg (by decide)]
  intro c member
  rw [decide_eq_true_eq]
  rintro rfl
  exact noSlash (List.mem_reverse.mp member)

/-- The parent of a path whose last name stands behind a slash. -/
theorem parent?_of_splitHead {path : String} {head before name : List Char} (isName : IsName name)
    (split : splitHead path.toList = (head, before ++ '/' :: name)) :
    parent? path = some (String.ofList (head ++ (trimReversed before.reverse).reverse)) := by
  have reversed : (before ++ '/' :: name).reverse = name.reverse ++ '/' :: before.reverse := by simp
  have filled : name.reverse ++ '/' :: before.reverse ≠ [] := by simp
  rw [parent?, split]
  dsimp only
  rw [reversed, trimReversed_name isName]
  split
  · rename_i nothing
    exact absurd nothing filled
  · rw [dropWhile_name isName.noSlash, List.drop_one, List.tail_cons]

/-- The parent of a path that is a head and a single name. -/
theorem parent?_of_single {path : String} {head name : List Char} (isName : IsName name)
    (split : splitHead path.toList = (head, name)) :
    parent? path = some (String.ofList head) := by
  have reversed := trimReversed_name isName []
  have noneLeft : name.reverse.dropWhile (· ≠ '/') = [] := by
    rw [List.dropWhile_eq_nil_iff]
    intro c member
    rw [decide_eq_true_eq]
    rintro rfl
    exact isName.noSlash (List.mem_reverse.mp member)
  have nothing : trimReversed [] = [] := rfl
  rw [List.append_nil] at reversed
  rw [parent?, split]
  dsimp only
  rw [reversed]
  split
  · rename_i nothing
    exact absurd (List.reverse_eq_nil_iff.mp nothing) isName.filled
  · rw [noneLeft, List.drop_nil, nothing, List.reverse_nil, List.append_nil]

/-- A path that starts with neither a slash nor a single dot has no head. -/
theorem splitHead_of_plain {text : List Char} (noRoot : ∀ rest, text ≠ '/' :: rest)
    (notDot : text ≠ ['.']) (noCurrent : ∀ rest, text ≠ '.' :: '/' :: rest) :
    splitHead text = ([], text) := by
  rw [splitHead.eq_def]
  split
  · exact absurd rfl (noRoot _)
  · exact absurd rfl notDot
  · exact absurd rfl (noCurrent _)
  · rfl

/-- Only a path from the root starts with a slash. -/
theorem head?_of_splitHead {text body : List Char} (split : splitHead text = ([], body)) :
    text.head? ≠ some '/' := by
  intro isRoot
  obtain ⟨rest, rfl⟩ := List.head?_eq_some_iff.mp isRoot
  cases split

/-- The head of a path whose last name stands behind a slash and something else. -/
theorem splitHead_slash {before : List Char} (filled : before ≠ []) (name : List Char) :
    ∃ head rest, before = head ++ rest ∧ IsHead head rest ∧
      splitHead (before ++ '/' :: name) = (head, rest ++ '/' :: name) := by
  cases before with
  | nil => exact absurd rfl filled
  | cons first rest =>
    by_cases isRoot : first = '/'
    · subst isRoot
      exact ⟨['/'], rest, rfl, ⟨.inr (.inl rfl), by simp⟩, rfl⟩
    by_cases isDot : first = '.' ∧ ∀ c, rest.head? = some c → c = '/'
    · obtain ⟨rfl, apart⟩ := isDot
      refine ⟨['.'], rest, rfl, ⟨.inr (.inr rfl), fun _ => apart⟩, ?_⟩
      cases rest with
      | nil => rfl
      | cons second others =>
        obtain rfl : second = '/' := apart second rfl
        rfl
    · refine ⟨[], first :: rest, rfl, ⟨.inl rfl, by simp⟩, ?_⟩
      refine splitHead_of_plain ?_ ?_ ?_
      · rintro others same
        exact isRoot (List.cons.inj same).1
      · intro same
        have lengths := congrArg List.length same
        simp at lengths
      · rintro others same
        obtain ⟨rfl, restSame⟩ := List.cons.inj same
        refine isDot ⟨rfl, fun c isFirst => ?_⟩
        cases rest with
        | nil => cases isFirst
        | cons second more =>
          cases isFirst
          exact (List.cons.inj restSame).1

/-- A path that ends with a name is the name alone, behind the root, or behind something else. -/
theorem splitHead_of_name {text name : List Char} (isName : IsName name)
    (whole : text = name ∨ ∃ before, text = before ++ '/' :: name) :
    (text = name ∧ splitHead text = ([], name)) ∨
      (text = '/' :: name ∧ splitHead text = (['/'], name)) ∨
      ∃ head rest, text = head ++ rest ++ '/' :: name ∧ IsHead head rest ∧
        splitHead text = (head, rest ++ '/' :: name) := by
  rcases whole with rfl | ⟨before, rfl⟩
  · refine .inl ⟨rfl, splitHead_of_plain ?_ isName.notDot ?_⟩
    · intro rest same
      exact isName.noSlash (same ▸ List.mem_cons_self)
    · intro rest same
      exact isName.noSlash (same ▸ List.mem_cons_of_mem _ List.mem_cons_self)
  · by_cases isRoot : before = []
    · subst isRoot
      exact .inr (.inl ⟨rfl, rfl⟩)
    · obtain ⟨head, rest, rfl, isHead, split⟩ := splitHead_slash isRoot name
      exact .inr (.inr ⟨head, rest, rfl, isHead, split⟩)

/-- A name is joined to a directory by at most one slash. -/
theorem toList_join (directory name : String) : directory = "" ∧ join directory name = name ∨
    (∃ front, directory.toList = front ++ ['/'] ∧
      (join directory name).toList = front ++ '/' :: name.toList) ∨
    (join directory name).toList = directory.toList ++ '/' :: name.toList := by
  unfold join
  by_cases nothing : directory = ""
  · subst nothing
    exact .inl ⟨rfl, rfl⟩
  · have filled : directory.isEmpty = false := by simpa using nothing
    rw [filled, Bool.false_or]
    split
    · rename_i slash
      rw [← String.endsWith_toSlice, String.Slice.endsWith_string_iff,
        String.copy_toSlice] at slash
      obtain ⟨front, parts⟩ := slash
      refine .inr (.inl ⟨front, parts.symm, ?_⟩)
      rw [String.toList_append, ← parts, List.append_assoc]
      rfl
    · refine .inr (.inr ?_)
      simp

/-- A name below a part of what a path has in front of its last slash is no longer than the path. -/
theorem join_sublist {directory name : String} {before : List Char}
    (isPart : directory.toList.Sublist before) :
    (join directory name).toList.Sublist (before ++ '/' :: name.toList) := by
  rcases toList_join directory name with ⟨_, joined⟩ | ⟨front, isDirectory, joined⟩ | joined
  · rw [joined]
    exact (List.sublist_cons_self _ _).trans (List.sublist_append_right _ _)
  · have frontPart : front.Sublist before := by
      rw [isDirectory] at isPart
      exact (List.sublist_append_left _ _).trans isPart
    rw [joined]
    exact frontPart.append_right _
  · rw [joined]
    exact isPart.append_right _

end Path

namespace FileTree

open CompiledCode.Path

/-- A shorter path is no worse. -/
theorem checkPath_of_sublist {part path : String} (checked : checkPath path = .ok ())
    (isPart : part.toList.Sublist path.toList) (filled : part ≠ "") : checkPath part = .ok () := by
  obtain ⟨noZero, _, short⟩ := checkPath_iff.mp checked
  have partShort : part.utf8ByteSize ≤ path.utf8ByteSize := by
    rw [← Text.Utf8.length_encode, ← Text.Utf8.length_encode]
    exact Text.Utf8.length_encode_le isPart
  exact checkPath_iff.mpr ⟨fun zero => noZero (isPart.subset zero), filled, partShort.trans short⟩

theorem startsWith_slash (path : String) :
    path.startsWith "/" = true ↔ path.toList.head? = some '/' := by
  rw [String.startsWith_string_iff]
  change ['/'] <+: path.toList ↔ _
  cases path.toList with
  | nil => simp
  | cons first rest => simp [eq_comm]

/-- A path and one that it starts with start from the same directory. -/
theorem origin_of_isPrefix {tree : FileTree} {part path : String}
    (isPart : part.toList <+: path.toList) (filled : part ≠ "") :
    tree.origin part = tree.origin path := by
  have partFilled : part.toList ≠ [] := fun nothing => filled (String.toList_eq_nil_iff.mp nothing)
  have sameFirst : part.toList.head? = path.toList.head? := by
    obtain ⟨rest, whole⟩ := isPart
    rw [← whole, List.head?_append]
    cases same : part.toList with
    | nil => exact absurd same partFilled
    | cons first others => rfl
  have sameStart : part.startsWith "/" = path.startsWith "/" := by
    rw [Bool.eq_iff_iff, startsWith_slash, startsWith_slash, sameFirst]
  rw [origin, origin, sameStart]

/-- A path that does not start with a slash starts from where no path at all would. -/
theorem origin_empty {tree : FileTree} {path : String} (noRoot : path.toList.head? ≠ some '/') :
    tree.origin "" = tree.origin path := by
  have isPlain : ¬ path.startsWith "/" = true := fun isRoot => noRoot ((startsWith_slash _).mp isRoot)
  have emptyIsPlain : ¬ "".startsWith "/" = true := by simp
  rw [origin, origin, if_neg isPlain, if_neg emptyIsPlain]

/-- The characters of a path that ends with a name: the name, or what stands before a slash and it. -/
theorem toList_of_namesOf {text : List Char} {front : List String} {name : String}
    (namesEq : namesOf text = front ++ [name]) : '/' ∉ name.toList ∧
      (text = name.toList ∨ ∃ before, text = before ++ '/' :: name.toList ∧ namesOf before = front) := by
  by_cases slash : '/' ∈ text
  · obtain ⟨after, before, parts, noSlash⟩ :=
      List.eq_append_cons_of_mem (List.mem_reverse.mpr slash)
    have whole : text = before.reverse ++ '/' :: after.reverse := by
      rw [← List.reverse_reverse text, parts]
      simp
    have lastNoSlash : '/' ∉ after.reverse := by rwa [List.mem_reverse]
    rw [whole, namesOf_slash, namesOf_single lastNoSlash] at namesEq
    obtain ⟨frontEq, nameEq⟩ := List.append_inj' namesEq rfl
    obtain rfl : String.ofList after.reverse = name := List.singleton_inj.mp nameEq
    rw [String.toList_ofList]
    exact ⟨lastNoSlash, .inr ⟨before.reverse, whole, frontEq⟩⟩
  · rw [namesOf_single slash, ← List.nil_append [String.ofList text]] at namesEq
    obtain ⟨_, nameEq⟩ := List.append_inj' namesEq rfl
    obtain rfl : String.ofList text = name := List.singleton_inj.mp nameEq
    rw [String.toList_ofList]
    exact ⟨slash, .inl rfl⟩

section Names

variable {path name : String} {front : List String}

/-- The last of the names of a path, if it is one that adds something. -/
theorem isName_of_names (namesEq : names path = front ++ [name]) (filled : name ≠ "")
    (notDot : name ≠ ".") : IsName name.toList :=
  ⟨fun nothing => filled (String.toList_eq_nil_iff.mp nothing),
    fun isDot => notDot (String.toList_inj.mp isDot), (toList_of_namesOf namesEq).1⟩

/--
A path and its parent start from the same directory, and their steps lead to the same place. The
parent and the name together are no longer than the path.
-/
theorem parent_of_names (tree : FileTree) (namesEq : names path = front ++ [name])
    (filled : name ≠ "") (notDot : name ≠ ".") :
    ∃ directory, parent? path = some directory ∧ directory.toList <+: path.toList ∧
      (join directory name).toList.Sublist path.toList ∧
      steps (names directory) = steps front ∧ tree.origin directory = tree.origin path := by
  have isName := isName_of_names namesEq filled notDot
  obtain ⟨noSlash, whole⟩ := toList_of_namesOf namesEq
  have single : namesOf name.toList = [name] := by
    rw [namesOf_single noSlash, String.ofList_toList]
  have apart : path.toList = name.toList ∨ ∃ before, path.toList = before ++ '/' :: name.toList :=
    whole.imp_right fun ⟨before, parts, _⟩ => ⟨before, parts⟩
  rw [names_eq] at namesEq
  rcases splitHead_of_name isName apart with
    ⟨alone, split⟩ | ⟨isRoot, split⟩ | ⟨head, rest, parts, isHead, split⟩
  · rw [alone, single, ← List.nil_append [name]] at namesEq
    have joined : join (String.ofList []) name = name := String.empty_append
    have isPath : (join (String.ofList []) name).toList = path.toList := by rw [joined, alone]
    refine ⟨_, parent?_of_single isName split, List.nil_prefix, isPath ▸ List.Sublist.refl _, ?_,
      origin_empty (head?_of_splitHead split)⟩
    rw [← List.append_cancel_right namesEq]
    decide
  · have isPart : ['/'] <+: path.toList := by
      rw [isRoot]
      exact ⟨name.toList, rfl⟩
    rw [isRoot, ← List.nil_append ('/' :: _), namesOf_slash, single] at namesEq
    refine ⟨_, parent?_of_single isName split, isPart, ?_, ?_,
      origin_of_isPrefix isPart (by decide)⟩
    · have slash : (String.ofList ['/']).endsWith "/" = true := by decide +kernel
      have isPath : (join (String.ofList ['/']) name).toList = path.toList := by
        rw [isRoot, join, slash, Bool.or_true, if_pos rfl, String.toList_append]
        rfl
      exact isPath ▸ List.Sublist.refl _
    · rw [← List.append_cancel_right namesEq]
      decide
  · have isFront : head ++ (trimReversed rest.reverse).reverse <+: head ++ rest := by
      have kept := List.reverse_prefix.mpr (trimReversed_suffix rest.reverse)
      rw [List.reverse_reverse] at kept
      exact (List.prefix_append_right_inj head).mpr kept
    have isPart : head ++ (trimReversed rest.reverse).reverse <+: path.toList := by
      rw [parts]
      exact isFront.trans (List.prefix_append _ _)
    rw [parts, namesOf_slash, single] at namesEq
    refine ⟨_, parent?_of_splitHead isName split, ?_, ?_, ?_, ?_⟩
    · rwa [String.toList_ofList]
    · rw [parts]
      apply join_sublist
      rw [String.toList_ofList]
      exact isFront.sublist
    · rw [names_eq, String.toList_ofList, ← List.append_cancel_right namesEq]
      rw [← List.reverse_reverse rest] at isHead
      have trimmed := steps_trimReversed isHead
      rwa [List.reverse_reverse] at trimmed
    · by_cases nothing : String.ofList (head ++ (trimReversed rest.reverse).reverse) = ""
      · obtain ⟨rfl, _⟩ := List.append_eq_nil_iff.mp (String.ofList_eq_empty_iff.mp nothing)
        rw [nothing]
        exact origin_empty (head?_of_splitHead split)
      · refine origin_of_isPrefix ?_ nothing
        rwa [String.toList_ofList]

end Names

/-- Where a path lets a file be written, the directory that it names is there. -/
theorem present_of_target {tree : FileTree} {path directory : String} {location : Location}
    (success : tree.target path = .ok location) (isParent : parent? path = some directory)
    (filled : directory ≠ "") : tree.present directory = true := by
  obtain ⟨front, name, parent, leads, _⟩ := leadsTo_of_target success
  obtain ⟨other, isOther, isPart, _, sameSteps, sameOrigin⟩ :=
    parent_of_names tree leads.namesEq leads.isName leads.isBelow.1
  obtain rfl : directory = other := Option.some.inj (isParent.symm.trans isOther)
  obtain ⟨readOnly, isDirectory⟩ := leads.isDirectory
  have reached : tree.follow (tree.origin directory) (names directory) = .ok parent := by
    rw [← follow_steps leads.isDirectory, sameSteps, follow_steps leads.isDirectory, sameOrigin,
      leads.reached]
  have found : tree.resolve directory = .ok (.directory readOnly) := by
    refine except_bind_eq_ok.mpr ⟨(), checkPath_of_sublist leads.checked isPart.sublist filled, ?_⟩
    refine except_bind_eq_ok.mpr ⟨parent, reached, ?_⟩
    rw [isDirectory]
  rw [present, found]
  rfl

end FileTree

end CompiledCode
