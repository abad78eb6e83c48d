import CompiledCode.Proofs.CommandLine.Endings
import CompiledCode.Proofs.Storage.Siblings

/-!
A run changes no file but its output, and that one only when it has compiled a listing.
-/

namespace CompiledCode

namespace Compilation

/-- The file of the method is at the output, unless the user may not write there. -/
inductive Leaves (tree : FileTree) (output : String) (method : Method) : FileTree → Prop where
  | nothing (unprivileged : tree.privileged = false)
    (denied : tree.write output (CompiledFile.encode method) = .error .permissionDenied) :
    Leaves tree output method tree
  | file {location : Location} {after : FileTree} (isTarget : tree.target output = .ok location)
    (replaces : tree.Replaces after location (CompiledFile.encode method))
    (readBack : after.read output = .ok (CompiledFile.encode method)) :
    Leaves tree output method after

variable {tree after : FileTree} {input output : String} {report : Report}

/-- A command that fails has changed nothing. -/
theorem Ending.unchanged (ending : Ending tree input output report after)
    (failed : report.status ≠ 0) : after = tree := by
  cases ending with
  | written => exact absurd rfl failed
  | _ => rfl

/-- A command that succeeds has assembled the listing and has written its method. -/
theorem Ending.leaves (ending : Ending tree input output report after)
    (success : report.status = 0) : ∃ source assembly, tree.text? input = some source ∧
      Listing.assemble source = .ok assembly ∧
      Leaves tree output (method input assembly) after := by
  cases ending with
  | skipped isText assembled denied =>
    have unprivileged := FileTree.unprivileged_of_denied denied
    exact ⟨_, _, isText, assembled, .nothing unprivileged denied⟩
  | written isText assembled written =>
    obtain ⟨location, isTarget, replaces⟩ := FileTree.replaces_of_write written
    have readBack := FileTree.read_of_write written
    exact ⟨_, _, isText, assembled, .file isTarget replaces readBack⟩
  | noInput | noDirectory | noText | rejected | unwritten =>
    simp [Except.isOk, Except.toBool] at success

/-- The default output lies in the directory of the input. -/
theorem location_of_defaultOutput {directory location : Location} {name : String}
    (isInput : tree.target input = .ok (directory ++ [name]))
    (isTarget : tree.target (defaultOutput input) = .ok location) :
    location = directory ++ [Path.stem input ++ ".rbc"] := by
  obtain ⟨front, last, there, leads, entered⟩ := FileTree.leadsTo_of_target isInput
  unfold FileTree.below at entered
  split at entered
  · cases entered
  obtain ⟨rfl, _⟩ := List.append_inj' (Except.ok.inj entered) rfl
  have noSlash : '/' ∉ (Path.stem input ++ ".rbc").toList := by
    rw [String.toList_append, List.mem_append]
    exact not_or.mpr ⟨Path.slash_not_mem_stem input, by decide⟩
  exact FileTree.target_join_parent leads noSlash isTarget

end Compilation

namespace Program

variable {program : String} {environment : Environment} {arguments : List String}
  {tree after : FileTree}

/-- Only a listing that is compiled changes the files. -/
theorem Ending.unchanged_or_compiled {config : Config} {report : Report}
    (ending : Ending program config arguments tree report after) :
    after = tree ∨ ∃ input choice, Request.ofArguments arguments = .ok (.compile input choice) ∧
      Compilation.Ending tree input (choice.getD (Compilation.defaultOutput input)) report after := by
  cases ending with
  | compiled asked ending => exact .inr ⟨_, _, asked, ending⟩
  | _ => exact .inl rfl

/-- A run that succeeds and whose first argument is no option has compiled a listing. -/
theorem Ending.compiled_of_success {config : Config} {report : Report}
    (ending : Ending program config arguments tree report after) (success : report.status = 0)
    (noOption : ∀ first, arguments.head? = some first →
      first ∉ ["--help", "-h", "--disasm", "-d"]) :
    ∃ input choice, Request.ofArguments arguments = .ok (.compile input choice) ∧
      Compilation.Ending tree input (choice.getD (Compilation.defaultOutput input)) report after := by
  cases arguments with
  | nil =>
    cases ending with
    | usage => simp at success
    | refused asked | unopened asked | shown asked | compiled asked => cases asked
  | cons first rest =>
    have asksToCompile {request : Request}
        (asked : Request.ofArguments (first :: rest) = .ok request) :
        ∃ output, request = .compile first output :=
      Request.compile_of_path (noOption first rfl) asked
    cases ending with
    | compiled asked ending => exact ⟨_, _, asked, ending⟩
    | refused => simp at success
    | usage asked | unopened asked | shown asked =>
      obtain ⟨_, same⟩ := asksToCompile asked
      cases same

/--
A run that fails, and one whose first argument is an option, leaves every file as it was. Any other
run has assembled the listing that its first argument names, and at most one file is new or changed:
the last one that the options name, or else the one beside the listing that has the stem of its
name. That file holds the method of the stem, with the path of the listing and with its code and
literals. It is not written when the user may not do so.
-/
theorem run_changes_output {transcript : Transcript}
    (ran : (run program environment arguments : StateM FileTree Transcript) tree =
      (transcript, after)) :
    (transcript.status ≠ 0 ∨ (∃ first ∈ ["--help", "-h", "--disasm", "-d"],
      arguments.head? = some first) → after = tree) ∧
    (transcript.status = 0 → (∀ first, arguments.head? = some first →
        first ∉ ["--help", "-h", "--disasm", "-d"]) →
      ∃ input rest outputs source assembly method, arguments = input :: rest ∧
        Request.NamesOutputs rest outputs ∧ tree.text? input = some source ∧
        Listing.assemble source = .ok assembly ∧
        Compilation.Leaves tree (outputs.getLast?.getD (Compilation.defaultOutput input)) method
          after ∧
        method = Compilation.method input assembly ∧
        method.name = .symbol (Text.Utf8.encode (Path.stem input)) ∧
        method.file = .symbol (Text.Utf8.encode input) ∧ method.code = .code assembly.code ∧
        method.literals = .tuple (assembly.literals.map (·.value)) ∧
        (outputs = [] → ∀ location directory name, tree.target input = .ok (directory ++ [name]) →
          tree.target (Compilation.defaultOutput input) = .ok location →
          location = directory ++ [Path.stem input ++ ".rbc"])) := by
  obtain ⟨report, ending, rfl⟩ := ending_of_run ran
  constructor
  · intro failedOrOption
    rcases ending.unchanged_or_compiled with same | ⟨input, choice, asked, compiling⟩
    · exact same
    · rcases failedOrOption with failed | ⟨first, isOption, isFirst⟩
      · exact compiling.unchanged failed
      · obtain ⟨_, _, rfl, noOption, _⟩ := Request.ofArguments_eq_compile_iff.mp asked
        cases isFirst
        exact absurd isOption noOption
  · intro success noOption
    obtain ⟨input, choice, asked, compiling⟩ := ending.compiled_of_success success noOption
    obtain ⟨source, assembly, isText, assembled, leaves⟩ := compiling.leaves success
    obtain ⟨rest, outputs, named, _, names, rfl⟩ := Request.ofArguments_eq_compile_iff.mp asked
    exact ⟨input, rest, outputs, source, assembly, _, named, names, isText, assembled, leaves, rfl,
      rfl, rfl, rfl, rfl, fun _ _ _ _ => Compilation.location_of_defaultOutput⟩

/-- A listing whose name has two dots is compiled beside itself, and an option alone does nothing. -/
theorem run_changes_output_beside :
    let tree : FileTree := ⟨[(["work"], .directory false),
      (["work", "loop.v2.rbs"], .file (Text.Utf8.encode "top: goto top\n") false)], ["work"], false⟩
    let method := Compilation.method "loop.v2.rbs" ⟨[⟨.goto, [0]⟩], ⟨[8, 0], 0⟩, [], [("top", 0)]⟩
    ∃ transcript after,
      (run "rbc" (fun _ => none) ["loop.v2.rbs"] : StateM FileTree Transcript) tree =
        (transcript, after) ∧ transcript.status = 0 ∧
      tree.Replaces after ["work", "loop.v2.rbc"] (CompiledFile.encode method) ∧
      ((run "rbc" (fun _ => none) ["loop.v2.rbs", "-o"] : StateM FileTree Transcript) tree).2 =
        tree := by
  intro tree method
  have checked : FileTree.checkPath "loop.v2.rbs" = .ok () :=
    FileTree.checkPath_iff.mpr (by decide +kernel)
  have isInput : tree.target "loop.v2.rbs" = .ok ["work", "loop.v2.rbs"] :=
    except_bind_eq_ok.mpr ⟨(), checked, by decide +kernel⟩
  have holds : tree.read "loop.v2.rbs" = .ok (Text.Utf8.encode "top: goto top\n") := by
    refine except_bind_eq_ok.mpr ⟨.file (Text.Utf8.encode "top: goto top\n") false, ?_, rfl⟩
    exact except_bind_eq_ok.mpr ⟨(), checked, by decide +kernel⟩
  have isDefault : Compilation.defaultOutput "loop.v2.rbs" = "loop.v2.rbc" := by decide +kernel
  have isTarget : tree.target (Compilation.defaultOutput "loop.v2.rbs") =
      .ok ["work", "loop.v2.rbc"] := by
    rw [isDefault]
    exact except_bind_eq_ok.mpr
      ⟨(), FileTree.checkPath_iff.mpr (by decide +kernel), by decide +kernel⟩
  have assembled : Listing.assemble "top: goto top\n" =
      .ok ⟨[⟨.goto, [0]⟩], ⟨[8, 0], 0⟩, [], [("top", 0)]⟩ := by decide +kernel
  have isSlot : tree.slot (Compilation.defaultOutput "loop.v2.rbs") =
      .ok (["work", "loop.v2.rbc"], false) :=
    except_bind_eq_ok.mpr ⟨_, isTarget, by decide +kernel⟩
  obtain ⟨after, written⟩ : ∃ after, tree.write (Compilation.defaultOutput "loop.v2.rbs")
      (CompiledFile.encode method) = .ok after := by
    rw [FileTree.write_eq, isSlot]
    exact ⟨_, rfl⟩
  have compiling : (carryOut "rbc" (settings (fun _ => none) ["loop.v2.rbs"]).1 ["loop.v2.rbs"] :
      StateM FileTree _) tree = _ :=
    (Compilation.run_of_present none (FileTree.present_of_read holds) isTarget).trans
      (Compilation.build_of_assemble holds assembled written)
  have ran := run_of_done compiling
  refine ⟨_, after, ran, rfl, ?_, ?_⟩
  · obtain ⟨input, rest, outputs, source, assembly, _, named, names, isText, assembledAgain,
      leaves, rfl, _, _, _, _, beside⟩ := (run_changes_output ran).2 rfl (by simp)
    cases named
    cases names
    have sameText : tree.text? "loop.v2.rbs" = some "top: goto top\n" :=
      FileTree.text?_eq_some.mpr ⟨_, holds, Text.Utf8.decode?_encode _⟩
    cases sameText.symm.trans isText
    cases assembled.symm.trans assembledAgain
    cases leaves with
    | nothing _ denied => cases written.symm.trans denied
    | file isTarget replaces =>
      have isBeside : _ = ["work"] ++ ["loop.v2.rbc"] :=
        beside rfl _ ["work"] "loop.v2.rbs" isInput isTarget
      rwa [isBeside] at replaces
  · have refused : (run "rbc" (fun _ => none) ["loop.v2.rbs", "-o"] :
        StateM FileTree Transcript) tree = (⟨1, "", _⟩, tree) := rfl
    exact (run_changes_output refused).1 (.inl (by decide))

end Program

end CompiledCode
