import CompiledCode.Proofs.Storage.Writing

/-!
What becomes of a path that is opened for writing. The names in front of the last one have to lead
to a directory, the last one must be able to name a file there, and the user must be allowed to
write it. Where one of these is not so, the fault says which.
-/

namespace CompiledCode.FileTree

/-- Names that do not lead to a directory, and why. -/
inductive Strays (tree : FileTree) (start : Location) (way : List String) : SystemFault → Prop
  | missing {front : List String} {location : Location} (isFront : front <+: way)
      (reached : tree.follow start front = .ok location)
      (nothing : tree.entry? location = none) : Strays tree start way .notFound
  | file {front : List String} {location : Location} {bytes : List UInt8} {readOnly : Bool}
      (isFront : front <+: way) (reached : tree.follow start front = .ok location)
      (isFile : tree.entry? location = some (.file bytes readOnly)) :
      Strays tree start way .notDirectory
  | longName {front : List String} {name : String} {location : Location}
      (isFront : front ++ [name] <+: way) (reached : tree.follow start front = .ok location)
      (isDirectory : tree.IsDirectory location) (filled : name ≠ "")
      (notDots : ¬ (name = "." ∨ name = "..")) (long : nameLimit < name.utf8ByteSize) :
      Strays tree start way .nameTooLong

/-- What decides whether a file may be written: the file, or its directory when it is not there. -/
inductive Guards (tree : FileTree) (location : Location) : TreeEntry → Prop
  | file {bytes : List UInt8} {readOnly : Bool}
      (isFile : tree.entry? location = some (.file bytes readOnly)) :
      Guards tree location (.file bytes readOnly)
  | directory {entry : TreeEntry} (nothing : tree.entry? location = none)
      (above : tree.entry? location.dropLast = some entry) : Guards tree location entry

/-- The location at which a path is opened for writing, or why it is not opened. -/
inductive Opening (tree : FileTree) (path : String) : Except SystemFault Location → Prop
  | unchecked {fault : SystemFault} (refused : checkPath path = .error fault) :
      Opening tree path (.error fault)
  | nameless (checked : checkPath path = .ok ()) (blank : ∀ name ∈ names path, name = "") :
      Opening tree path (.error .isDirectory)
  | strays {way : List String} {last : Option String} {fault : SystemFault}
      (checked : checkPath path = .ok ()) (ends : EndsIn path way last)
      (strays : tree.Strays (tree.origin path) way fault) : Opening tree path (.error fault)
  | noFile {way : List String} {directory : Location} (checked : checkPath path = .ok ())
      (ends : EndsIn path way none) (reached : tree.follow (tree.origin path) way = .ok directory)
      (isDirectory : tree.IsDirectory directory) : Opening tree path (.error .isDirectory)
  | longName {front : List String} {name : String} {directory : Location}
      (leads : tree.LeadsTo path front name directory) (long : nameLimit < name.utf8ByteSize) :
      Opening tree path (.error .nameTooLong)
  | directory {front : List String} {name : String} {directory : Location}
      (leads : tree.LeadsTo path front name directory) (short : name.utf8ByteSize ≤ nameLimit)
      (isDirectory : tree.IsDirectory (directory ++ [name])) :
      Opening tree path (.error .isDirectory)
  | denied {front : List String} {name : String} {directory : Location} {guard : TreeEntry}
      (leads : tree.LeadsTo path front name directory) (short : name.utf8ByteSize ≤ nameLimit)
      (guards : tree.Guards (directory ++ [name]) guard) (refuses : tree.mayWrite guard = false) :
      Opening tree path (.error .permissionDenied)
  | opened {front : List String} {name : String} {directory : Location} {guard : TreeEntry}
      (leads : tree.LeadsTo path front name directory) (short : name.utf8ByteSize ≤ nameLimit)
      (guards : tree.Guards (directory ++ [name]) guard) (allows : tree.mayWrite guard = true) :
      Opening tree path (.ok (directory ++ [name]))

section Ways

variable {tree : FileTree} {start middle stop : Location} {way : List String} {fault : SystemFault}

/-- A way that goes wrong behind its first name goes wrong as a whole. -/
theorem Strays.cons {name : String}
    (step : ∀ rest, tree.follow start (name :: rest) = tree.follow middle rest)
    (strays : tree.Strays middle way fault) : tree.Strays start (name :: way) fault := by
  cases strays with
  | missing isFront reached nothing =>
    exact .missing (List.cons_prefix_cons.mpr ⟨rfl, isFront⟩) ((step _).trans reached) nothing
  | file isFront reached isFile =>
    exact .file (List.cons_prefix_cons.mpr ⟨rfl, isFront⟩) ((step _).trans reached) isFile
  | longName isFront reached isDirectory filled notDots long =>
    rename_i front _ _
    have isLonger : (name :: front) ++ [_] <+: name :: way :=
      List.cons_prefix_cons.mpr ⟨rfl, isFront⟩
    exact .longName isLonger ((step _).trans reached) isDirectory filled notDots long

theorem strays_of_follow (failed : tree.follow start (way ++ [""]) = .error fault) :
    tree.Strays start way fault := by
  induction way generalizing start with
  | nil =>
    rw [List.nil_append, follow] at failed
    split at failed
    · rename_i nothing
      cases failed
      exact .missing List.nil_prefix rfl nothing
    · rename_i isFile
      cases failed
      exact .file List.nil_prefix rfl isFile
    · rw [if_pos (.inl rfl)] at failed
      cases failed
  | cons name rest inductionHypothesis =>
    rw [List.cons_append, follow] at failed
    split at failed
    · rename_i nothing
      cases failed
      exact .missing List.nil_prefix rfl nothing
    · rename_i isFile
      cases failed
      exact .file List.nil_prefix rfl isFile
    · rename_i isEntry
      have isDirectory : tree.IsDirectory start := ⟨_, isEntry⟩
      split at failed
      · rename_i stays
        refine .cons (fun rest => ?_) (inductionHypothesis failed)
        rw [follow_cons isDirectory, if_pos stays]
      · rename_i leaves
        split at failed
        · rename_i up
          refine .cons (fun rest => ?_) (inductionHypothesis failed)
          rw [follow_cons isDirectory, if_neg leaves, if_pos up]
        · rename_i down
          obtain ⟨filled, notDot⟩ := not_or.mp leaves
          by_cases long : nameLimit < name.utf8ByteSize
          · rw [below, if_pos long] at failed
            cases failed
            have isFront : [] ++ [name] <+: name :: rest := ⟨rest, rfl⟩
            exact .longName isFront rfl isDirectory filled (not_or.mpr ⟨notDot, down⟩) long
          · have entered : below start name = .ok (start ++ [name]) := if_neg long
            rw [entered] at failed
            refine .cons (fun rest => ?_) (inductionHypothesis failed)
            rw [follow_cons isDirectory, if_neg leaves, if_neg down, entered]
            rfl

theorem follow_of_strays (strays : tree.Strays start way fault) :
    tree.follow start (way ++ [""]) = .error fault := by
  -- Behind a front that is reached there is always another name to follow.
  have behind : ∀ {front later : List String} {location : Location},
      tree.follow start front = .ok location →
        tree.follow start (front ++ later) = tree.follow location later := by
    intro front later location reached
    rw [follow_append, reached]
    rfl
  cases strays with
  | missing isFront reached nothing =>
    obtain ⟨rest, rfl⟩ := isFront
    rw [List.append_assoc, behind reached]
    cases rest <;> simp only [List.nil_append, List.cons_append, follow, nothing]
  | file isFront reached isFile =>
    obtain ⟨rest, rfl⟩ := isFront
    rw [List.append_assoc, behind reached]
    cases rest <;> simp only [List.nil_append, List.cons_append, follow, isFile]
  | longName isFront reached isDirectory filled notDots long =>
    obtain ⟨rest, rfl⟩ := isFront
    obtain ⟨notDot, notUp⟩ := not_or.mp notDots
    rw [List.append_assoc, List.append_assoc, behind reached, List.singleton_append,
      follow_cons isDirectory, if_neg (not_or.mpr ⟨filled, notDot⟩), if_neg notUp, below,
      if_pos long]
    rfl

end Ways

section Targets

variable {tree : FileTree} {path : String}

theorem target_of_leadsTo {front : List String} {name : String} {directory : Location}
    (leads : tree.LeadsTo path front name directory) : tree.target path = below directory name := by
  have ends : EndsIn path front (some name) :=
    .name leads.namesEq leads.isName (not_or.mpr leads.isBelow)
  rw [target_of_endsIn leads.checked ends,
    follow_directory_iff.mpr ⟨leads.reached, leads.isDirectory⟩]
  rfl

end Targets

section Openings

variable {tree : FileTree} {path : String} {location : Location} {guard : TreeEntry}
  {outcome : Except SystemFault Location}

theorem slot_of_guards (isTarget : tree.target path = .ok location)
    (guards : tree.Guards location guard) : Prod.fst <$> tree.slot path =
      if tree.mayWrite guard then .ok location else .error .permissionDenied := by
  rw [slot, isTarget]
  cases guards with
  | file isFile =>
    simp only [bind, Except.bind, isFile]
    split <;> rfl
  | directory nothing above =>
    simp only [bind, Except.bind, nothing, above]
    split <;> rfl

theorem below_of_short {directory : Location} {name : String}
    (short : name.utf8ByteSize ≤ nameLimit) : below directory name = .ok (directory ++ [name]) :=
  if_neg (Nat.not_lt.mpr short)

/-- What the opening of a path comes to is what a write to it meets. -/
theorem slot_of_opening (opening : tree.Opening path outcome) :
    Prod.fst <$> tree.slot path = outcome := by
  cases opening with
  | unchecked refused =>
    rw [slot, target, refused]
    rfl
  | nameless checked blank =>
    rw [slot, target_of_blank checked blank]
    rfl
  | strays checked ends strays =>
    rw [slot, target_of_endsIn checked ends, follow_of_strays strays]
    rfl
  | noFile checked ends reached isDirectory =>
    rw [slot, target_of_endsIn checked ends, follow_directory_iff.mpr ⟨reached, isDirectory⟩]
    rfl
  | longName leads long =>
    rw [slot, target_of_leadsTo leads, below, if_pos long]
    rfl
  | directory leads short isDirectory =>
    obtain ⟨readOnly, isDirectory⟩ := isDirectory
    rw [slot, target_of_leadsTo leads, below_of_short short]
    simp only [bind, Except.bind, isDirectory]
    rfl
  | denied leads short guards refuses =>
    rw [slot_of_guards ((target_of_leadsTo leads).trans (below_of_short short)) guards, refuses]
    rfl
  | opened leads short guards allows =>
    rw [slot_of_guards ((target_of_leadsTo leads).trans (below_of_short short)) guards, allows]
    rfl

/-- Where a path leads to a name in a directory, what is there decides. -/
theorem exists_opening_of_leadsTo {front : List String} {name : String} {directory : Location}
    (leads : tree.LeadsTo path front name directory) : ∃ outcome, tree.Opening path outcome := by
  by_cases long : nameLimit < name.utf8ByteSize
  · exact ⟨_, .longName leads long⟩
  have short := Nat.le_of_not_lt long
  have guarded : ∀ guard, tree.Guards (directory ++ [name]) guard →
      ∃ outcome, tree.Opening path outcome := by
    intro guard guards
    cases allows : tree.mayWrite guard with
    | false => exact ⟨_, .denied leads short guards allows⟩
    | true => exact ⟨_, .opened leads short guards allows⟩
  cases isEntry : tree.entry? (directory ++ [name]) with
  | none =>
    obtain ⟨readOnly, isDirectory⟩ := leads.isDirectory
    have above : tree.entry? (directory ++ [name]).dropLast = some (.directory readOnly) := by
      rw [List.dropLast_concat]
      exact isDirectory
    exact guarded _ (.directory isEntry above)
  | some entry =>
    cases entry with
    | file bytes readOnly => exact guarded _ (.file isEntry)
    | directory readOnly => exact ⟨_, .directory leads short ⟨readOnly, isEntry⟩⟩

/-- Every path is opened somewhere, or there is a reason why it is not. -/
theorem exists_opening (tree : FileTree) (path : String) :
    ∃ outcome, tree.Opening path outcome := by
  cases checked : checkPath path with
  | error fault => exact ⟨_, .unchecked checked⟩
  | ok =>
    rcases blank_or_endsIn path with blank | ⟨way, last, ends⟩
    · exact ⟨_, .nameless checked blank⟩
    · cases followed : tree.follow (tree.origin path) (way ++ [""]) with
      | error fault => exact ⟨_, .strays checked ends (strays_of_follow followed)⟩
      | ok directory =>
        obtain ⟨reached, isDirectory⟩ := follow_directory_iff.mp followed
        cases last with
        | none => exact ⟨_, .noFile checked ends reached isDirectory⟩
        | some name =>
          cases ends with
          | name parts filled notDots =>
            exact exists_opening_of_leadsTo
              ⟨checked, parts, filled, not_or.mp notDots, reached, isDirectory⟩

/-- A path that is opened at a location is written there, with any bytes. -/
theorem write_of_opening (opening : tree.Opening path (.ok location)) (bytes : List UInt8) :
    ∃ after, tree.write path bytes = .ok after ∧ tree.Replaces after location bytes := by
  obtain ⟨⟨place, readOnly⟩, isSlot, rfl⟩ := except_map_eq_ok.mp (slot_of_opening opening)
  obtain ⟨after, written⟩ : ∃ after, tree.write path bytes = .ok after := by
    rw [write_eq, isSlot]
    exact ⟨_, rfl⟩
  obtain ⟨target, isTarget, replaces⟩ := replaces_of_write written
  obtain rfl := Except.ok.inj (isTarget.symm.trans (slot_spec isSlot).1)
  exact ⟨after, written, replaces⟩

/-- A path that is not opened is not written. -/
theorem write_of_unopened {fault : SystemFault} (opening : tree.Opening path (.error fault))
    (bytes : List UInt8) : tree.write path bytes = .error fault := by
  rw [write_eq, except_map_eq_error]
  exact except_map_eq_error.mp (slot_of_opening opening)

end Openings

end CompiledCode.FileTree
