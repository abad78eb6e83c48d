import CompiledCode.Proofs.CommandLine.Runs

/-!
All the ways in which the command that compiles a listing can end. Whatever holds of every ending
holds of every run, so that the steps of the command are followed only here.
-/

namespace CompiledCode

@[simp]
theorem Report.status_failure (output : String) (remarks : List Remark) :
    (Report.failure output remarks).status = 1 := rfl

namespace Compilation

@[simp]
theorem status_rejection (input source : String) (failure : Listing.AssemblyError) :
    (rejection input source failure).status = 1 := rfl

/-- It is no failure when the user may not write the output. -/
@[simp]
theorem status_conclusion (input output : String) (outcome : Except FileError DumpOutcome) :
    (conclusion input output outcome).status = if outcome.isOk then 0 else 1 := by
  unfold conclusion
  split <;> rfl

/-- Something is at the input and the output has a directory, but the input holds no text. -/
structure IsUnreadable (tree : FileTree) (input output : String) : Prop where
  isThere : tree.present input = true
  hasDirectory : ∀ directory, outputDirectory? output = some directory →
    tree.present directory = true
  noText : tree.text? input = none

/-- What is reported, and what tree is left, when the listing at one path is compiled to another. -/
inductive Ending (tree : FileTree) (input output : String) : Report → FileTree → Prop where
  | noInput (missing : tree.present input = false) :
    Ending tree input output
      (.failure "" [Report.error s!"Input file does not exist: {input}"]) tree
  | noDirectory {directory : String} (isDirectory : outputDirectory? output = some directory)
    (missing : tree.present directory = false) :
    Ending tree input output
      (.failure "" [Report.error s!"Output directory does not exist: {directory}"]) tree
  /-- Nothing is said of an input that is there and is no text. -/
  | noText (unreadable : IsUnreadable tree input output) :
    Ending tree input output (.failure "" []) tree
  | rejected {source : String} {failure : Listing.AssemblyError}
    (isText : tree.text? input = some source) (refused : Listing.assemble source = .error failure) :
    Ending tree input output (rejection input source failure) tree
  | unwritten {source : String} {assembly : Listing.Assembly} {fault : SystemFault}
    (isText : tree.text? input = some source) (assembled : Listing.assemble source = .ok assembly)
    (refused : tree.write output (CompiledFile.encode (method input assembly)) = .error fault)
    (allowed : fault ≠ .permissionDenied) :
    Ending tree input output (conclusion input output (.error (.io output fault))) tree
  | skipped {source : String} {assembly : Listing.Assembly}
    (isText : tree.text? input = some source) (assembled : Listing.assemble source = .ok assembly)
    (denied : tree.write output (CompiledFile.encode (method input assembly)) =
      .error .permissionDenied) :
    Ending tree input output (conclusion input output (.ok .skipped)) tree
  | written {source : String} {assembly : Listing.Assembly} {after : FileTree}
    (isText : tree.text? input = some source) (assembled : Listing.assemble source = .ok assembly)
    (success : tree.write output (CompiledFile.encode (method input assembly)) = .ok after) :
    Ending tree input output
      (conclusion input output
        (.ok (.written (CompiledFile.encode (method input assembly)).length))) after

variable {tree : FileTree} {input output : String}

/-- A command ends in a way if its run does. -/
theorem Ending.of_run {command : StateM FileTree Report} {report : Report} {after : FileTree}
    (ran : command tree = (report, after)) (ending : Ending tree input output report after) :
    Ending tree input output (command tree).1 (command tree).2 := by
  rwa [ran]

theorem ending_build (isThere : tree.present input = true)
    (hasDirectory : ∀ directory, outputDirectory? output = some directory →
      tree.present directory = true) :
    Ending tree input output ((build input output : StateM FileTree Report) tree).1
      ((build input output : StateM FileTree Report) tree).2 := by
  cases isText : tree.text? input with
  | none => exact .of_run (build_of_no_text isText) (.noText ⟨isThere, hasDirectory, isText⟩)
  | some source =>
    cases assembled : Listing.assemble source with
    | error failure =>
      exact .of_run (build_of_rejected isText assembled) (.rejected isText assembled)
    | ok assembly =>
      cases result : tree.write output (CompiledFile.encode (method input assembly)) with
      | ok after =>
        exact .of_run (build_of_dump isText assembled (dump_of_write result))
          (.written isText assembled result)
      | error fault =>
        by_cases denied : fault = .permissionDenied
        · subst denied
          exact .of_run (build_of_dump isText assembled (dump_of_denied result))
            (.skipped isText assembled result)
        · exact .of_run (build_of_dump isText assembled (dump_of_refused result denied))
            (.unwritten isText assembled result denied)

/-- There are no other endings, whichever output is chosen. -/
theorem ending_run (tree : FileTree) (input : String) (choice : Option String) :
    Ending tree input (choice.getD (defaultOutput input))
      ((run input choice : StateM FileTree Report) tree).1
      ((run input choice : StateM FileTree Report) tree).2 := by
  cases isThere : tree.present input with
  | false =>
    refine .of_run ?_ (.noInput isThere)
    rw [run, FileTree.run_bind (FileTree.run_present isThere)]
    rfl
  | true =>
    rw [run, FileTree.run_bind (FileTree.run_present isThere), if_pos rfl]
    generalize choice.getD (defaultOutput input) = output
    cases isDirectory : outputDirectory? output with
    | none => exact ending_build isThere (by simp [isDirectory])
    | some directory =>
      dsimp only
      cases hasDirectory : tree.present directory with
      | false =>
        refine .of_run ?_ (.noDirectory isDirectory hasDirectory)
        rw [FileTree.run_bind (FileTree.run_present hasDirectory)]
        rfl
      | true =>
        rw [FileTree.run_bind (FileTree.run_present hasDirectory), if_pos rfl]
        exact ending_build isThere (by simp [isDirectory, hasDirectory])

end Compilation

namespace Program

@[simp]
theorem status_refusal (program : String) (problem : ArgumentError) :
    (refusal program problem).status = 1 := by
  cases problem <;> rfl

/-- What is reported, and what tree is left, when the arguments of a run are carried out. -/
inductive Ending (program : String) (config : Config) (arguments : List String) (tree : FileTree) :
    Report → FileTree → Prop where
  | refused {problem : ArgumentError} (asked : Request.ofArguments arguments = .error problem) :
    Ending program config arguments tree (refusal program problem) tree
  | usage (asked : Request.ofArguments arguments = .ok .usage) :
    Ending program config arguments tree
      ⟨if arguments.isEmpty then 1 else 0, "", [Report.info (usageText program)]⟩ tree
  | unopened {path : String} {failure : FileError}
    (asked : Request.ofArguments arguments = .ok (.disassemble path))
    (loaded : (load config path : StateM FileTree _) tree = (.error failure, tree)) :
    Ending program config arguments tree (.failure "" [Report.error failure.message]) tree
  | shown {path : String} {file : CompiledFile}
    (asked : Request.ofArguments arguments = .ok (.disassemble path))
    (loaded : (load config path : StateM FileTree _) tree = (.ok file, tree)) :
    Ending program config arguments tree (Inspection.ofFile file) tree
  | compiled {input : String} {choice : Option String} {report : Report} {after : FileTree}
    (asked : Request.ofArguments arguments = .ok (.compile input choice))
    (ending : Compilation.Ending tree input (choice.getD (Compilation.defaultOutput input))
      report after) :
    Ending program config arguments tree report after

theorem ending_carryOut {program : String} {config : Config} {arguments : List String}
    {tree after : FileTree} {report : Report}
    (done : (carryOut program config arguments : StateM FileTree _) tree = (report, after)) :
    Ending program config arguments tree report after := by
  rw [carryOut] at done
  cases asked : Request.ofArguments arguments with
  | error problem =>
    rw [asked] at done
    cases done
    exact .refused asked
  | ok request =>
    rw [asked] at done
    cases request with
    | usage =>
      cases done
      exact .usage asked
    | disassemble path =>
      dsimp only at done
      rw [inspect] at done
      cases loaded : (load config path : StateM FileTree _) tree with
      | mk outcome left =>
        have leaves : ((load config path : StateM FileTree _) tree).2 = tree :=
          load_leaves config path
        rw [loaded] at leaves
        subst leaves
        rw [FileTree.run_bind loaded] at done
        cases outcome with
        | error failure =>
          cases done
          exact .unopened asked loaded
        | ok file =>
          cases done
          exact .shown asked loaded
    | compile input choice =>
      have ending := Compilation.ending_run tree input choice
      dsimp only at done
      rw [done] at ending
      exact .compiled asked ending

/-- The files are those that the ending leaves, and what is said begins with the settings. -/
theorem ending_of_run {program : String} {environment : Environment} {arguments : List String}
    {tree after : FileTree} {transcript : Transcript}
    (ran : (run program environment arguments : StateM FileTree _) tree = (transcript, after)) :
    ∃ report, Ending program (settings environment arguments).1 arguments tree report after ∧
      transcript = ⟨report.status, report.output,
        Notice.render Config.default.logLevel (settings environment arguments).2 ++
          report.errors (settings environment arguments).1.logLevel⟩ := by
  cases done : (carryOut program (settings environment arguments).1 arguments :
      StateM FileTree Report) tree with
  | mk report left =>
    rw [run_of_done done] at ran
    cases ran
    exact ⟨report, ending_carryOut done, rfl⟩

end Program

end CompiledCode
