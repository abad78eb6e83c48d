import CompiledCode.Proofs.Outcomes
import CompiledCode.Proofs.Text.NumberRoundTrip
import CompiledCode.Storage.FileTree
import Mathlib.Data.List.TakeWhile

/-!
A file that is written is read back. Writing changes the tree at one location, which is no
directory, and so every path that leads through directories leads to the same location as before.
-/

namespace CompiledCode.FileTree

theorem lookup_replace (entries : List (Location × TreeEntry)) (location other : Location)
    (entry : TreeEntry) :
    (entries.map fun pair => if pair.1 = location then (location, entry) else pair).lookup other =
      if other = location then (entries.lookup location).map fun _ => entry
      else entries.lookup other := by
  induction entries with
  | nil => simp
  | cons first rest inductionHypothesis =>
    rw [List.map_cons, List.lookup_cons, inductionHypothesis, List.lookup_cons, List.lookup_cons]
    by_cases replaced : first.1 = location
    · rw [if_pos replaced, replaced, beq_self_eq_true]
      dsimp only
      by_cases same : other = location
      · rw [if_pos same, if_pos same, same, beq_self_eq_true]
        rfl
      · rw [if_neg same, if_neg same, beq_false_of_ne same]
    · rw [if_neg replaced, beq_false_of_ne (Ne.symm replaced)]
      by_cases same : other = location
      · rw [same, beq_false_of_ne (Ne.symm replaced)]
      · rw [if_neg same, if_neg same]

section Entries

variable {tree : FileTree} {location other : Location} {entry : TreeEntry}

theorem entry?_of_ne_root (nested : location ≠ []) :
    tree.entry? location = tree.entries.lookup location := by
  cases location with
  | nil => exact absurd rfl nested
  | cons => rfl

theorem lookup_put : (tree.put location entry).entries.lookup other =
    if other = location then some entry else tree.entries.lookup other := by
  unfold put
  dsimp only
  split
  · rename_i there
    rw [lookup_replace]
    obtain ⟨old, isOld⟩ := Option.isSome_iff_exists.mp there
    rw [isOld, Option.map_some]
  · rename_i missing
    have absent : tree.entries.lookup location = none := Option.not_isSome_iff_eq_none.mp missing
    rw [List.lookup_append, List.lookup_cons, List.lookup_nil]
    by_cases same : other = location
    · rw [if_pos same, same, absent, beq_self_eq_true]
      rfl
    · rw [if_neg same, beq_false_of_ne same]
      exact Option.or_none

theorem entry?_put_self (nested : location ≠ []) :
    entry? (tree.put location entry) location = some entry := by
  rw [entry?_of_ne_root nested, lookup_put, if_pos rfl]

theorem entry?_put_other (differs : other ≠ location) :
    entry? (tree.put location entry) other = tree.entry? other := by
  cases other with
  | nil => rfl
  | cons name names =>
    rw [entry?_of_ne_root (List.cons_ne_nil _ _), entry?_of_ne_root (List.cons_ne_nil _ _),
      lookup_put, if_neg differs]

end Entries

/-- A directory is at the location. -/
def IsDirectory (tree : FileTree) (location : Location) : Prop :=
  ∃ readOnly, tree.entry? location = some (.directory readOnly)

section Paths

variable {tree : FileTree} {start stop : Location}

/-- Only a directory is left by a name. -/
theorem isDirectory_of_follow_cons {name : String} {rest : List String}
    (success : tree.follow start (name :: rest) = .ok stop) : tree.IsDirectory start := by
  rw [follow] at success
  split at success
  · cases success
  · cases success
  · rename_i readOnly isDirectory
    exact ⟨readOnly, isDirectory⟩

theorem follow_cons (isDirectory : tree.IsDirectory start) (name : String) (rest : List String) :
    tree.follow start (name :: rest) =
      if name = "" ∨ name = "." then tree.follow start rest
      else if name = ".." then tree.follow start.dropLast rest
      else below start name >>= fun location => tree.follow location rest := by
  obtain ⟨readOnly, isDirectory⟩ := isDirectory
  rw [follow, isDirectory]

theorem follow_append {first second : List String} :
    tree.follow start (first ++ second) =
      tree.follow start first >>= fun middle => tree.follow middle second := by
  induction first generalizing start with
  | nil => rfl
  | cons name rest inductionHypothesis =>
    rw [List.cons_append, follow, follow]
    cases tree.entry? start with
    | none => rfl
    | some entry =>
      cases entry with
      | file => rfl
      | directory =>
        dsimp only
        simp only [inductionHypothesis]
        split
        · rfl
        · split
          · rfl
          · rw [bind_assoc]

/-- A file in the place of no directory is on the way to nothing. -/
theorem follow_put {location : Location} {entry : TreeEntry} {names : List String}
    (noDirectory : ¬ tree.IsDirectory location) (success : tree.follow start names = .ok stop) :
    (tree.put location entry).follow start names = .ok stop := by
  induction names generalizing start with
  | nil => exact success
  | cons name rest inductionHypothesis =>
    have isDirectory := isDirectory_of_follow_cons success
    have differs : start ≠ location := by
      rintro rfl
      exact noDirectory isDirectory
    have stillDirectory : (tree.put location entry).IsDirectory start := by
      rw [IsDirectory, entry?_put_other differs]
      exact isDirectory
    rw [follow_cons isDirectory] at success
    rw [follow_cons stillDirectory]
    split
    · rename_i adds
      rw [if_pos adds] at success
      exact inductionHypothesis success
    · rename_i plain
      rw [if_neg plain] at success
      split
      · rename_i up
        rw [if_pos up] at success
        exact inductionHypothesis success
      · rename_i down
        rw [if_neg down] at success
        cases entered : below start name with
        | error fault =>
          rw [entered] at success
          cases success
        | ok inner =>
          rw [entered] at success
          exact inductionHypothesis success

theorem follow_skip (isDirectory : tree.IsDirectory start) :
    tree.follow start [""] = .ok start := by
  rw [follow_cons isDirectory, if_pos (.inl rfl)]
  rfl

/-- Behind the last name there still has to be a directory. -/
theorem follow_directory_iff {way : List String} : tree.follow start (way ++ [""]) = .ok stop ↔
    tree.follow start way = .ok stop ∧ tree.IsDirectory stop := by
  rw [follow_append, except_bind_eq_ok]
  constructor
  · rintro ⟨middle, reached, skipped⟩
    have isDirectory := isDirectory_of_follow_cons skipped
    rw [follow_skip isDirectory] at skipped
    cases skipped
    exact ⟨reached, isDirectory⟩
  · rintro ⟨reached, isDirectory⟩
    exact ⟨stop, reached, follow_skip isDirectory⟩

/-- The path ends with an ordinary name, and the names before it lead to a directory. -/
structure LeadsTo (tree : FileTree) (path : String) (front : List String) (name : String)
    (directory : Location) : Prop where
  checked : checkPath path = .ok ()
  namesEq : names path = front ++ [name]
  isName : name ≠ ""
  isBelow : name ≠ "." ∧ name ≠ ".."
  reached : tree.follow (tree.origin path) front = .ok directory
  isDirectory : tree.IsDirectory directory

/--
The names of a path that have to lead to a directory, and the name that a file may have there. A
path that ends with dots or with a slash has no such name.
-/
inductive EndsIn (path : String) : List String → Option String → Prop
  | dots {front blanks : List String} {name : String}
      (parts : names path = front ++ name :: blanks) (blank : ∀ other ∈ blanks, other = "")
      (isDots : name = "." ∨ name = "..") : EndsIn path (front ++ [name]) none
  | slash {front blanks : List String} {name : String}
      (parts : names path = front ++ name :: blanks) (blank : ∀ other ∈ blanks, other = "")
      (filled : name ≠ "") (notDots : ¬ (name = "." ∨ name = "..")) (ended : blanks ≠ []) :
      EndsIn path front none
  | name {front : List String} {name : String} (parts : names path = front ++ [name])
      (filled : name ≠ "") (notDots : ¬ (name = "." ∨ name = "..")) : EndsIn path front (some name)

section Targets

variable {path : String} {way : List String} {last : Option String}

/-- All names are empty, or the last one that is not parts the others. -/
theorem blank_or_parts (all : List String) : (∀ name ∈ all, name = "") ∨
    ∃ front name blanks, all = front ++ name :: blanks ∧ name ≠ "" ∧
      ∀ other ∈ blanks, other = "" := by
  induction all with
  | nil => exact .inl (by simp)
  | cons first rest inductionHypothesis =>
    rcases inductionHypothesis with blank | ⟨front, name, blanks, rfl, filled, blank⟩
    · by_cases empty : first = ""
      · exact .inl (List.forall_mem_cons.mpr ⟨empty, blank⟩)
      · exact .inr ⟨[], first, rest, rfl, empty, blank⟩
    · exact .inr ⟨first :: front, name, blanks, rfl, filled, blank⟩

/-- A path has no name at all, or it ends in one of the three ways. -/
theorem blank_or_endsIn (path : String) :
    (∀ name ∈ names path, name = "") ∨ ∃ way last, EndsIn path way last := by
  apply (blank_or_parts (names path)).imp_right
  rintro ⟨front, name, blanks, parts, filled, blank⟩
  by_cases isDots : name = "." ∨ name = ".."
  · exact ⟨_, _, .dots parts blank isDots⟩
  · by_cases ended : blanks = []
    · subst ended
      exact ⟨_, _, .name parts filled isDots⟩
    · exact ⟨_, _, .slash parts blank filled isDots ended⟩

/-- The empty names at the end are dropped. -/
theorem dropWhile_blanks {front blanks : List String} {name : String}
    (blank : ∀ other ∈ blanks, other = "") (filled : name ≠ "") :
    ((front ++ name :: blanks).reverse.dropWhile (· = "")).reverse = front ++ [name] := by
  have blankReversed : ∀ other ∈ blanks.reverse, decide (other = "") = true := by
    simpa using blank
  rw [List.reverse_append, List.reverse_cons, List.append_assoc,
    List.dropWhile_append_of_pos blankReversed, List.singleton_append,
    List.dropWhile_cons_of_neg (by simpa using filled), List.reverse_cons, List.reverse_reverse]

/-- The names in front lead to a directory first, and only then the last name counts. -/
theorem target_of_endsIn (checked : checkPath path = .ok ()) (ends : EndsIn path way last) :
    tree.target path = (do
      let directory ← tree.follow (tree.origin path) (way ++ [""])
      match last with
      | none => .error .isDirectory
      | some name => below directory name) := by
  rw [target, checked]
  change (match ((names path).reverse.dropWhile (· = "")).reverse.getLast? with
    | none => _
    | some name => _) = _
  cases ends with
  | @dots front blanks name parts blank isDots =>
    have filled : name ≠ "" := by rcases isDots with rfl | rfl <;> decide
    rw [parts, dropWhile_blanks blank filled, List.getLast?_concat]
    dsimp only
    rw [if_pos isDots]
  | @slash _ blanks name parts blank filled notDots ended =>
    have isLast : (way ++ name :: blanks).getLast?.getD "" = "" := by
      obtain ⟨other, isOther⟩ : ∃ other, blanks.getLast? = some other :=
        Option.isSome_iff_exists.mp (List.getLast?_isSome.mpr ended)
      rw [List.append_cons, List.getLast?_append, isOther]
      exact blank other (List.mem_of_getLast? isOther)
    rw [parts, dropWhile_blanks blank filled, List.getLast?_concat]
    dsimp only
    rw [if_neg notDots, List.dropLast_concat]
    simp only [isLast, if_true]
  | @name _ name parts filled notDots =>
    rw [parts, dropWhile_blanks (by simp) filled, List.getLast?_concat]
    dsimp only
    rw [if_neg notDots, List.dropLast_concat]
    simp only [Option.getD_some, if_neg filled]

theorem target_of_blank (checked : checkPath path = .ok ())
    (blank : ∀ name ∈ names path, name = "") : tree.target path = .error .isDirectory := by
  have nothing : (names path).reverse.dropWhile (· = "") = [] :=
    List.dropWhile_eq_nil_iff.mpr (by simpa using blank)
  rw [target, checked]
  change (match ((names path).reverse.dropWhile (· = "")).reverse.getLast? with
    | none => _
    | some name => _) = _
  rw [nothing]
  rfl

theorem leadsTo_of_target {location : Location} (success : tree.target path = .ok location) :
    ∃ front name directory, tree.LeadsTo path front name directory ∧
      below directory name = .ok location := by
  obtain ⟨⟨⟩, checked, _⟩ := except_bind_eq_ok.mp success
  rcases blank_or_endsIn path with blank | ⟨way, last, ends⟩
  · rw [target_of_blank checked blank] at success
    cases success
  · rw [target_of_endsIn checked ends] at success
    obtain ⟨directory, followed, entered⟩ := except_bind_eq_ok.mp success
    obtain ⟨reached, isDirectory⟩ := follow_directory_iff.mp followed
    cases ends with
    | dots => cases entered
    | slash => cases entered
    | name parts filled notDots =>
      exact ⟨_, _, directory,
        ⟨checked, parts, filled, not_or.mp notDots, reached, isDirectory⟩, entered⟩

end Targets

end Paths

theorem checkPath_iff {path : String} : checkPath path = .ok () ↔
    '\x00' ∉ path.toList ∧ path ≠ "" ∧ path.utf8ByteSize ≤ pathLimit := by
  have holdsZero : path.contains '\x00' = true ↔ '\x00' ∈ path.toList := by
    rw [String.contains_char_eq, decide_eq_true_eq]
  rw [← holdsZero, checkPath]
  constructor
  · intro checked
    split at checked
    · cases checked
    rename_i noZero
    split at checked
    · cases checked
    rename_i filled
    split at checked
    · cases checked
    rename_i short
    exact ⟨noZero, filled, Nat.le_of_not_lt short⟩
  · rintro ⟨noZero, filled, short⟩
    rw [if_neg noZero, if_neg filled, if_neg (Nat.not_lt_of_le short)]

section Reading

variable {tree : FileTree} {path : String} {bytes : List UInt8}

theorem present_of_read (holds : tree.read path = .ok bytes) : tree.present path = true := by
  obtain ⟨entry, found, _⟩ := except_bind_eq_ok.mp holds
  rw [present, found]
  rfl

theorem checkPath_of_read (holds : tree.read path = .ok bytes) : checkPath path = .ok () := by
  obtain ⟨entry, found, _⟩ := except_bind_eq_ok.mp holds
  obtain ⟨⟨⟩, checked, _⟩ := except_bind_eq_ok.mp found
  exact checked

end Reading

section Writing

variable {tree changed : FileTree} {path : String} {location : Location} {bytes : List UInt8}

/-- The path leads to the location where it lets a file be made. -/
theorem follow_of_target (success : tree.target path = .ok location) :
    checkPath path = .ok () ∧ tree.follow (tree.origin path) (names path) = .ok location ∧
      location ≠ [] := by
  obtain ⟨front, name, directory, leads, entered⟩ := leadsTo_of_target success
  refine ⟨leads.checked, ?_, ?_⟩
  · rw [leads.namesEq, follow_append, leads.reached]
    change tree.follow directory [name] = .ok location
    rw [follow_cons leads.isDirectory, if_neg (not_or.mpr ⟨leads.isName, leads.isBelow.1⟩),
      if_neg leads.isBelow.2, entered]
    rfl
  · unfold below at entered
    split at entered <;> cases entered
    exact List.append_ne_nil_of_right_ne_nil _ (List.cons_ne_nil _ _)

/-- Where a path lets a file be written, and whether the file is read-only then. -/
def slot (tree : FileTree) (path : String) : Except SystemFault (Location × Bool) := do
  let location ← tree.target path
  match tree.entry? location with
  | some (.directory _) => .error .isDirectory
  | some (.file old readOnly) =>
    if tree.mayWrite (.file old readOnly) then .ok (location, readOnly)
    else .error .permissionDenied
  | none =>
    match tree.entry? location.dropLast with
    | some directory =>
      if tree.mayWrite directory then .ok (location, false) else .error .permissionDenied
    | none => .error .notFound

/-- The bytes that are written play no part in where they go. -/
theorem write_eq (tree : FileTree) (path : String) (bytes : List UInt8) :
    tree.write path bytes =
      (fun place => tree.put place.1 (.file bytes place.2)) <$> tree.slot path := by
  unfold write slot
  cases tree.target path with
  | error fault => rfl
  | ok location =>
    simp only [bind, Except.bind]
    cases tree.entry? location with
    | none =>
      cases tree.entry? location.dropLast with
      | none => rfl
      | some directory =>
        dsimp only
        cases tree.mayWrite directory <;> rfl
    | some entry =>
      cases entry with
      | directory => rfl
      | file old readOnly =>
        dsimp only
        cases tree.mayWrite (.file old readOnly) <;> rfl

/-- What is written to a path takes the place of no directory. -/
theorem slot_spec {location : Location} {readOnly : Bool}
    (success : tree.slot path = .ok (location, readOnly)) :
    tree.target path = .ok location ∧ ¬ tree.IsDirectory location := by
  obtain ⟨target, isTarget, allowed⟩ := except_bind_eq_ok.mp success
  have noDirectory : ∀ {entry : Option TreeEntry}, tree.entry? target = entry →
      (∀ readOnly, entry ≠ some (.directory readOnly)) → ¬ tree.IsDirectory target := by
    rintro entry isEntry other ⟨readOnly, isDirectory⟩
    exact other readOnly (isEntry.symm.trans isDirectory)
  split at allowed
  · cases allowed
  · rename_i isFile
    split at allowed <;> cases allowed
    exact ⟨isTarget, noDirectory isFile (by simp)⟩
  · rename_i missing
    split at allowed
    · split at allowed <;> cases allowed
      exact ⟨isTarget, noDirectory missing (by simp)⟩
    · cases allowed

/-- What was written to a path is read from it. -/
theorem read_of_write (success : tree.write path bytes = .ok changed) :
    changed.read path = .ok bytes := by
  rw [write_eq] at success
  obtain ⟨⟨location, readOnly⟩, isSlot, rfl⟩ := except_map_eq_ok.mp success
  obtain ⟨isTarget, noDirectory⟩ := slot_spec isSlot
  obtain ⟨checked, reached, nested⟩ := follow_of_target isTarget
  have stillReached : (tree.put location (.file bytes readOnly)).follow (tree.origin path)
      (names path) = .ok location := follow_put noDirectory reached
  have found : (tree.put location (.file bytes readOnly)).resolve path =
      .ok (.file bytes readOnly) := by
    refine except_bind_eq_ok.mpr ⟨(), checked, except_bind_eq_ok.mpr ⟨location, stillReached, ?_⟩⟩
    rw [entry?_put_self nested]
  exact except_bind_eq_ok.mpr ⟨_, found, rfl⟩

/-- Where some bytes can be written, any bytes can. -/
theorem write_of_write (success : tree.write path bytes = .ok changed) (others : List UInt8) :
    ∃ result, tree.write path others = .ok result := by
  rw [write_eq] at success
  obtain ⟨place, isSlot, _⟩ := except_map_eq_ok.mp success
  refine ⟨tree.put place.1 (.file others place.2), ?_⟩
  rw [write_eq, isSlot]
  rfl

theorem below_ne_denied {directory : Location} {name : String} :
    below directory name ≠ .error .permissionDenied := by
  unfold below
  split <;> simp

theorem follow_ne_denied {start : Location} {names : List String} :
    tree.follow start names ≠ .error .permissionDenied := by
  induction names generalizing start with
  | nil => simp [follow]
  | cons name rest inductionHypothesis =>
    rw [follow]
    split
    · simp
    · simp
    · split
      · exact inductionHypothesis
      · split
        · exact inductionHypothesis
        · exact except_bind_ne_error below_ne_denied fun _ => inductionHypothesis

/-- A path is looked up without a permission. -/
theorem target_ne_denied : tree.target path ≠ .error .permissionDenied := by
  apply except_bind_ne_error
  · unfold checkPath
    split
    · simp
    · split
      · simp
      · split <;> simp
  · intro
    dsimp only
    split
    · simp
    · split
      · exact except_bind_ne_error follow_ne_denied (by simp)
      · apply except_bind_ne_error follow_ne_denied
        intro directory
        split
        · simp
        · exact below_ne_denied

/-- A privileged user may write everywhere. -/
theorem unprivileged_of_denied
    (denied : tree.write path bytes = .error .permissionDenied) : tree.privileged = false := by
  cases privileged : tree.privileged with
  | false => rfl
  | true =>
    have mayWrite (entry : TreeEntry) : tree.mayWrite entry = true := by
      rw [FileTree.mayWrite, privileged, Bool.true_or]
    refine absurd denied (except_bind_ne_error target_ne_denied fun location => ?_)
    split
    · simp
    · simp [mayWrite]
    · split <;> simp [mayWrite]

/-- A file with the bytes is at the location, and everything else is as it was before. -/
structure Replaces (before after : FileTree) (location : Location) (bytes : List UInt8) :
    Prop where
  noDirectory : ¬ before.IsDirectory location
  holds : ∃ readOnly, after.entry? location = some (.file bytes readOnly)
  others : ∀ other, other ≠ location → after.entry? other = before.entry? other
  sameCurrent : after.current = before.current
  samePrivilege : after.privileged = before.privileged

/-- A write changes the file that the path leads to and nothing else. -/
theorem replaces_of_write (success : tree.write path bytes = .ok changed) :
    ∃ location, tree.target path = .ok location ∧ tree.Replaces changed location bytes := by
  rw [write_eq] at success
  obtain ⟨⟨location, readOnly⟩, isSlot, rfl⟩ := except_map_eq_ok.mp success
  obtain ⟨isTarget, noDirectory⟩ := slot_spec isSlot
  obtain ⟨_, _, nested⟩ := follow_of_target isTarget
  exact ⟨location, isTarget, noDirectory, ⟨readOnly, entry?_put_self nested⟩,
    fun _ => entry?_put_other, rfl, rfl⟩

end Writing

end CompiledCode.FileTree
