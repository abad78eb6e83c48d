import CompiledCode.CommandLine.Program
import CompiledCode.Proofs.Storage.Parents

/-!
The program on a tree of files. Each command has one equation, which says what it reports and what
tree it leaves when the files that it asks for are there.
-/

namespace CompiledCode

section Store

variable {tree after : FileTree} {path : String} {bytes : List UInt8}

/-- A run goes on from the tree that its first step leaves. -/
theorem FileTree.run_bind {α β : Type} {first : StateM FileTree α} {next : α → StateM FileTree β}
    {a : α} (done : first tree = (a, after)) : (first >>= next) tree = next a after := by
  change StateT.bind first next tree = _
  rw [StateT.bind, done]
  rfl

theorem FileTree.run_present {isThere : Bool} (present : tree.present path = isThere) :
    (FileStore.present path : StateM FileTree _) tree = (isThere, tree) := by
  rw [← present]
  rfl

theorem FileTree.run_read (holds : tree.read path = .ok bytes) :
    (FileStore.read path : StateM FileTree _) tree = (.ok bytes, tree) := by
  rw [← holds]
  rfl

theorem FileTree.run_write (written : tree.write path bytes = .ok after) :
    (FileStore.write path bytes : StateM FileTree _) tree = (.ok (), after) := by
  simp only [FileStore.write, written]

theorem FileTree.run_read_error {fault : SystemFault} (refused : tree.read path = .error fault) :
    (FileStore.read path : StateM FileTree _) tree = (.error fault, tree) := by
  rw [← refused]
  rfl

/-- A write that is refused leaves the tree as it was. -/
theorem FileTree.run_write_error {fault : SystemFault}
    (refused : tree.write path bytes = .error fault) :
    (FileStore.write path bytes : StateM FileTree _) tree = (.error fault, tree) := by
  simp only [FileStore.write, refused]

theorem dump_of_write {method : Method}
    (written : tree.write path (CompiledFile.encode method) = .ok after) :
    (dump method path : StateM FileTree _) tree =
      (.ok (.written (CompiledFile.encode method).length), after) :=
  FileTree.run_bind (FileTree.run_write written)

theorem dump_of_denied {method : Method}
    (refused : tree.write path (CompiledFile.encode method) = .error .permissionDenied) :
    (dump method path : StateM FileTree _) tree = (.ok .skipped, tree) :=
  FileTree.run_bind (FileTree.run_write_error refused)

theorem dump_of_refused {method : Method} {fault : SystemFault}
    (refused : tree.write path (CompiledFile.encode method) = .error fault)
    (allowed : fault ≠ .permissionDenied) :
    (dump method path : StateM FileTree _) tree = (.error (.io path fault), tree) := by
  rw [dump, FileTree.run_bind (FileTree.run_write_error refused)]
  cases fault <;> first | exact absurd rfl allowed | rfl

theorem load_of_read (config : Config) (holds : tree.read path = .ok bytes) :
    (load config path : StateM FileTree _) tree = (CompiledFile.parse config bytes, tree) :=
  FileTree.run_bind (FileTree.run_read holds)

/-- A file is loaded without a change to the tree. -/
theorem load_leaves (config : Config) (path : String) :
    ((load config path : StateM FileTree _) tree).2 = tree := by
  cases holds : tree.read path with
  | error fault =>
    rw [load, FileTree.run_bind (FileTree.run_read_error holds)]
    rfl
  | ok bytes => rw [load_of_read config holds]

end Store

/-- The text of the file at a path, if there is a file and it is a text. -/
def FileTree.text? (tree : FileTree) (path : String) : Option String :=
  (tree.read path).toOption.bind Text.Utf8.decode?

theorem FileTree.text?_eq_some {tree : FileTree} {path source : String} :
    tree.text? path = some source ↔
      ∃ bytes, tree.read path = .ok bytes ∧ Text.Utf8.decode? bytes = some source := by
  rw [text?, Option.bind_eq_some_iff]
  cases tree.read path <;> simp [Except.toOption]

namespace Compilation

variable {tree after : FileTree} {input output source : String} {assembly : Listing.Assembly}

theorem build_of_no_text (noText : tree.text? input = none) :
    (build input output : StateM FileTree _) tree = (.failure "" [], tree) := by
  rw [build]
  cases holds : tree.read input with
  | error fault => rw [FileTree.run_bind (FileTree.run_read_error holds)]; rfl
  | ok bytes =>
    have notText : Text.Utf8.decode? bytes = none := by
      rwa [FileTree.text?, holds] at noText
    rw [FileTree.run_bind (FileTree.run_read holds)]
    dsimp only
    rw [notText]
    rfl

theorem build_of_rejected {failure : Listing.AssemblyError}
    (isText : tree.text? input = some source)
    (refused : Listing.assemble source = .error failure) :
    (build input output : StateM FileTree _) tree = (rejection input source failure, tree) := by
  obtain ⟨bytes, holds, decoded⟩ := FileTree.text?_eq_some.mp isText
  rw [build, FileTree.run_bind (FileTree.run_read holds)]
  dsimp only
  rw [decoded]
  dsimp only
  rw [refused]
  rfl

theorem build_of_dump {outcome : Except FileError DumpOutcome}
    (isText : tree.text? input = some source) (assembled : Listing.assemble source = .ok assembly)
    (dumped : (dump (method input assembly) output : StateM FileTree _) tree = (outcome, after)) :
    (build input output : StateM FileTree _) tree = (conclusion input output outcome, after) := by
  obtain ⟨bytes, holds, decoded⟩ := FileTree.text?_eq_some.mp isText
  rw [build, FileTree.run_bind (FileTree.run_read holds)]
  dsimp only
  rw [decoded]
  dsimp only
  rw [assembled]
  exact FileTree.run_bind dumped

theorem build_of_assemble (holds : tree.read input = .ok (Text.Utf8.encode source))
    (assembled : Listing.assemble source = .ok assembly)
    (written : tree.write output (CompiledFile.encode (method input assembly)) = .ok after) :
    (build input output : StateM FileTree _) tree =
      (conclusion input output
        (.ok (.written (CompiledFile.encode (method input assembly)).length)), after) := by
  have isText : tree.text? input = some source :=
    FileTree.text?_eq_some.mpr ⟨_, holds, Text.Utf8.decode?_encode source⟩
  exact build_of_dump isText assembled (dump_of_write written)

/-- Where a file can be made, its directory is found by the name that the path gives it. -/
theorem run_of_present (choice : Option String) {location : Location}
    (present : tree.present input = true)
    (isTarget : tree.target (choice.getD (defaultOutput input)) = .ok location) :
    (run input choice : StateM FileTree _) tree =
      (build input (choice.getD (defaultOutput input)) : StateM FileTree _) tree := by
  rw [run, FileTree.run_bind (FileTree.run_present present), if_pos rfl]
  generalize choice.getD (defaultOutput input) = output at isTarget ⊢
  cases isDirectory : outputDirectory? output with
  | none => rfl
  | some directory =>
    obtain ⟨isParent, filled⟩ := Option.filter_eq_some_iff.mp isDirectory
    have named : directory ≠ "" := by
      rintro rfl
      exact absurd filled (by decide)
    have there := FileTree.present_of_target isTarget isParent named
    dsimp only
    rw [FileTree.run_bind (FileTree.run_present there), if_pos rfl]

end Compilation

/-- No variable that holds a setting is set. -/
def Environment.IsUnset (environment : Environment) : Prop :=
  ∀ name ∈ [Config.depthVariable, Config.checksumVariable, Config.levelVariable],
    environment name = none

theorem Config.ofEnvironment_of_isUnset {environment : Environment}
    (unset : environment.IsUnset) : ofEnvironment environment = (.default, []) := by
  have missing : ∀ name ∈ [depthVariable, checksumVariable, levelVariable], ∀ (α : Type)
      (expected : String) (parse : String → Option α) (default : α),
      setting environment name expected parse default = (default, []) := by
    intro name member α expected parse default
    rw [setting, unset name member]
  unfold ofEnvironment
  rw [missing depthVariable (by simp), missing checksumVariable (by simp),
    missing levelVariable (by simp)]
  rfl

namespace Request

/-- The arguments are options, each with the path of an output. -/
inductive NamesOutputs : List String → List String → Prop where
  | nil : NamesOutputs [] []
  | cons {option path : String} {rest outputs : List String}
    (isOption : option = "--output" ∨ option = "-o") (after : NamesOutputs rest outputs) :
    NamesOutputs (option :: path :: rest) (path :: outputs)

/-- The last path that is named is taken. -/
theorem outputOf_eq_ok_iff {current output : Option String} {arguments : List String} :
    outputOf current arguments = .ok output ↔
      ∃ outputs, NamesOutputs arguments outputs ∧ output = outputs.getLast?.or current := by
  constructor
  · intro success
    fun_induction outputOf current arguments with
    | case1 =>
      cases success
      exact ⟨[], .nil, rfl⟩
    | case2 => cases success
    | case3 current option isOption path rest inductionHypothesis =>
      obtain ⟨outputs, names, rfl⟩ := inductionHypothesis success
      refine ⟨path :: outputs, .cons isOption names, ?_⟩
      cases outputs <;> simp [List.getLast?_cons]
    | case4 => cases success
  · rintro ⟨outputs, names, rfl⟩
    induction names generalizing current with
    | nil => rfl
    | cons isOption _ inductionHypothesis =>
      rename_i path _ outputs
      rw [outputOf, if_pos isOption, inductionHypothesis]
      cases outputs <;> simp [List.getLast?_cons]

/-- A first argument that is no option is the path of a listing. -/
theorem ofArguments_of_path {input : String} {rest : List String}
    (noOption : input ∉ ["--help", "-h", "--disasm", "-d"]) :
    ofArguments (input :: rest) = Request.compile input <$> outputOf none rest := by
  simp only [List.mem_cons, List.not_mem_nil, or_false, not_or] at noOption
  obtain ⟨notHelp, notShortHelp, notDisassemble, notShortDisassemble⟩ := noOption
  rw [ofArguments.eq_def]
  dsimp only
  rw [if_neg (not_or.mpr ⟨notHelp, notShortHelp⟩),
    if_neg (not_or.mpr ⟨notDisassemble, notShortDisassemble⟩)]
  rfl

theorem compile_of_path {input : String} {rest : List String} {request : Request}
    (noOption : input ∉ ["--help", "-h", "--disasm", "-d"])
    (asked : ofArguments (input :: rest) = .ok request) :
    ∃ output, request = .compile input output := by
  rw [ofArguments_of_path noOption] at asked
  obtain ⟨output, _, rfl⟩ := except_map_eq_ok.mp asked
  exact ⟨output, rfl⟩

/-- The arguments ask for a listing to be compiled if they start with its path. -/
theorem ofArguments_eq_compile_iff {arguments : List String} {input : String}
    {output : Option String} : ofArguments arguments = .ok (.compile input output) ↔
      ∃ rest outputs, arguments = input :: rest ∧ input ∉ ["--help", "-h", "--disasm", "-d"] ∧
        NamesOutputs rest outputs ∧ output = outputs.getLast? := by
  cases arguments with
  | nil => simp [ofArguments]
  | cons first rest =>
    by_cases isOption : first ∈ ["--help", "-h", "--disasm", "-d"]
    · constructor
      · intro asked
        simp only [List.mem_cons, List.not_mem_nil, or_false] at isOption
        rw [ofArguments.eq_def] at asked
        dsimp only at asked
        split at asked
        · cases asked
        · rename_i notHelp
          have disassembles : first = "--disasm" ∨ first = "-d" := by
            rw [← or_assoc] at isOption
            exact isOption.resolve_left notHelp
          rw [if_pos disassembles] at asked
          split at asked <;> cases asked
      · rintro ⟨_, _, same, noOption, _⟩
        cases same
        exact absurd isOption noOption
    · rw [ofArguments_of_path isOption]
      constructor
      · intro asked
        obtain ⟨choice, named, same⟩ := except_map_eq_ok.mp asked
        cases same
        obtain ⟨outputs, names, isLast⟩ := outputOf_eq_ok_iff.mp named
        exact ⟨rest, outputs, rfl, isOption, names, by simpa using isLast⟩
      · rintro ⟨_, outputs, same, _, names, isLast⟩
        cases same
        refine except_map_eq_ok.mpr ⟨output, outputOf_eq_ok_iff.mpr ⟨outputs, names, ?_⟩, rfl⟩
        simpa using isLast

theorem ofArguments_compile {input : String}
    (noOption : input ∉ ["--help", "-h", "--disasm", "-d"]) (output : String) :
    ofArguments [input, "-o", output] = .ok (.compile input (some output)) := by
  rw [ofArguments_of_path noOption]
  rfl

end Request

namespace Program

variable {tree after : FileTree}

theorem inspect_of_read {config : Config} {path : String} {bytes : List UInt8}
    {file : CompiledFile} (holds : tree.read path = .ok bytes)
    (parsed : CompiledFile.parse config bytes = .ok file) :
    (inspect config path : StateM FileTree _) tree = (Inspection.ofFile file, tree) := by
  have loaded := load_of_read config holds
  rw [inspect, FileTree.run_bind loaded, parsed]
  rfl

/-- A run reports on its settings first, and then on what it has done. -/
theorem run_of_done {program : String} {environment : Environment} {arguments : List String}
    {report : Report}
    (done : (carryOut program (settings environment arguments).1 arguments : StateM FileTree _) tree =
      (report, after)) :
    (run program environment arguments : StateM FileTree _) tree =
      (⟨report.status, report.output,
        Notice.render Config.default.logLevel (settings environment arguments).2 ++
          report.errors (settings environment arguments).1.logLevel⟩, after) :=
  FileTree.run_bind done

/-- Without settings a run carries out its request under the defaults and has nothing to add. -/
theorem run_of_carryOut {program : String} {environment : Environment} {arguments : List String}
    {report : Report} (unset : environment.IsUnset)
    (done : (carryOut program .default arguments : StateM FileTree _) tree = (report, after)) :
    (run program environment arguments : StateM FileTree _) tree =
      (⟨report.status, report.output, report.errors .info⟩, after) := by
  have settingsEq : settings environment arguments = (.default, []) := by
    rw [settings.eq_def, Config.ofEnvironment_of_isUnset unset]
    split <;> rfl
  have underSettings : (carryOut program (settings environment arguments).1 arguments :
      StateM FileTree _) tree = (report, after) := by rwa [settingsEq]
  rw [run_of_done underSettings, settingsEq]
  change (_, _) = _
  congr 2

end Program

end CompiledCode
