import CompiledCode.Proofs.Archive.FileRoundTrip
import CompiledCode.Proofs.CommandLine.Effects
import CompiledCode.Proofs.Storage.Overwriting
import CompiledCode.Proofs.Text.Utf8Acceptance

/-!
What becomes of a listing that is compiled without a name for the output. The output lies beside the
listing and has the stem of its name. That is another file, unless the listing is named like a
compiled file.
-/

namespace CompiledCode

namespace Text

/-- A text whose bytes start with those of another one starts with that one. -/
theorem Utf8.exists_of_encode_append {source : String} {text : List Char} {tail : List UInt8}
    (same : encode source = text.flatMap String.utf8EncodeChar ++ tail) :
    ∃ rest, source.toList = text ++ rest := by
  have split : scalars (text.flatMap String.utf8EncodeChar ++ tail) =
      text.map some ++ scalars tail := by
    clear same
    induction text with
    | nil => rfl
    | cons c text inductionHypothesis =>
      rw [List.flatMap_cons, List.append_assoc, scalars_encodeChar, inductionHypothesis,
        List.map_cons, List.cons_append]
  have whole := scalars_encode source.toList
  rw [← encode, same, split] at whole
  obtain ⟨front, rest, parts, sameFront, _⟩ := List.map_eq_append_iff.mp whole.symm
  obtain rfl := List.map_injective_iff.mpr (Option.some_injective Char) sameFront
  exact ⟨rest, parts⟩

/-- The first line of a text that goes on behind it. -/
theorem lines_feed {line : List Char} (noFeed : '\n' ∉ line) (rest : List Char) :
    ∃ others, lines (line ++ '\n' :: rest) = dropReturn line :: others := by
  have inside : ∀ c ∈ line, (c == '\n') = false := by
    intro c member
    rw [beq_eq_false_iff_ne]
    rintro rfl
    exact noFeed member
  rw [lines, pieces_append inside rfl, List.dropLast_cons_of_ne_nil (pieces_ne_nil _ _),
    List.map_cons, List.cons_append]
  exact ⟨_, rfl⟩

end Text

namespace Listing

/-- A compiled file is no listing: its first line names no instruction. -/
theorem assemble_encode_ne_ok {method : Method} {source : String}
    (decoded : Text.Utf8.decode? (CompiledFile.encode method) = some source) (assembly : Assembly) :
    assemble source ≠ .ok assembly := by
  have firstLine (tail : List UInt8) : Text.Utf8.encode magicLine ++ 10 :: tail =
      (magicLine.toList ++ ['\n']).flatMap String.utf8EncodeChar ++ tail := by
    rw [List.flatMap_append, List.append_assoc]
    rfl
  rw [Text.Utf8.decode?_eq_some_iff, CompiledFile.encode_eq, firstLine] at decoded
  obtain ⟨rest, parts⟩ := Text.Utf8.exists_of_encode_append decoded
  rw [List.append_assoc] at parts
  have noFeed : '\n' ∉ magicLine.toList := by decide
  obtain ⟨others, linesEq⟩ := Text.lines_feed noFeed rest
  have noInstruction : ∃ failure,
      (⟨0, [], []⟩ : Outline).addLine 1 (Text.dropReturn magicLine.toList) = .error failure :=
    ⟨_, rfl⟩
  obtain ⟨failure, refused⟩ := noInstruction
  have noOutline : outlineOf source = .error failure := by
    rw [outlineOf, parts]
    change (Text.lines (magicLine.toList ++ '\n' :: rest)).zipIdx.foldlM _ _ = _
    rw [linesEq, List.zipIdx_cons, List.foldlM_cons, Nat.zero_add]
    dsimp only
    rw [refused]
    rfl
  rw [assemble, noOutline]
  intro success
  cases success

end Listing

namespace Compilation

variable {tree : FileTree} {input : String} {place location : Location} {bytes : List UInt8}

/-- The output is the input just if the input is named like a compiled file. -/
theorem output_eq_input_iff (fileAt : tree.FileAt input place bytes)
    (isTarget : tree.target (defaultOutput input) = .ok location) :
    place = location ↔ Path.IsCompiled input := by
  obtain ⟨front, name, directory, last⟩ := fileAt.exists_lastName
  have noSlash : '/' ∉ (Path.stem input ++ ".rbc").toList := by
    rw [String.toList_append, List.mem_append]
    exact not_or.mpr ⟨Path.slash_not_mem_stem input, by decide⟩
  have beside := FileTree.target_join last.namesEq last.filled last.notDot last.reached
    last.isDirectory noSlash isTarget
  have isName := FileTree.fileName?_of_names last.namesEq last.filled last.notDot
  by_cases up : name = ".."
  · rw [if_pos up] at isName
    constructor
    · intro same
      have lengths := congrArg List.length (same.symm.trans (last.leaves up))
      rw [beside, List.length_append, List.length_dropLast, List.length_singleton] at lengths
      omega
    · rintro ⟨stem, _, extended⟩
      rw [isName] at extended
      cases extended
  · rw [if_neg up] at isName
    rw [(last.enters up).1, beside, List.append_cancel_left_eq, List.singleton_inj, eq_comm,
      ← Path.stem_extended_iff isName, String.ofList_toList]

/-- An input that is named like a compiled file and its output are the same file. -/
theorem target_of_isCompiled (fileAt : tree.FileAt input place bytes)
    (isCompiled : Path.IsCompiled input) :
    tree.target input = .ok place ∧ tree.target (defaultOutput input) = .ok place := by
  obtain ⟨front, name, directory, last⟩ := fileAt.exists_lastName
  have isName := FileTree.fileName?_of_names last.namesEq last.filled last.notDot
  have notUp : name ≠ ".." := by
    intro up
    obtain ⟨stem, _, extended⟩ := isCompiled
    rw [isName, if_pos up] at extended
    cases extended
  rw [if_neg notUp] at isName
  obtain ⟨entered, short⟩ := last.enters notUp
  have leads : tree.LeadsTo input front name directory :=
    ⟨fileAt.checked, last.namesEq, last.filled, ⟨last.notDot, notUp⟩, last.reached,
      last.isDirectory⟩
  have sameName : Path.stem input ++ ".rbc" = name := by
    rw [(Path.stem_extended_iff isName).mpr isCompiled, String.ofList_toList]
  obtain ⟨others, beside⟩ := FileTree.leadsTo_join_parent leads
  have entersName : FileTree.below directory name = .ok place := by
    rw [FileTree.below_of_short short, entered]
  rw [defaultOutput, sameName]
  exact ⟨(FileTree.target_of_leadsTo leads).trans entersName,
    (FileTree.target_of_leadsTo beside).trans entersName⟩

end Compilation

namespace FileTree

/-- Paths with the same target are written alike. -/
theorem write_eq_of_target {tree : FileTree} {first second : String}
    (same : tree.target first = tree.target second) (bytes : List UInt8) :
    tree.write first bytes = tree.write second bytes := by
  rw [write, write, same]

end FileTree

/-- No option is named like a compiled file. -/
theorem Path.IsCompiled.noOption {path : String} (isCompiled : IsCompiled path) :
    path ∉ ["--help", "-h", "--disasm", "-d"] := by
  obtain ⟨stem, _, extended⟩ := isCompiled
  have ending : (fileName? path).bind List.getLast? = some 'c' := by
    rw [extended, Option.bind_some]
    simp
  intro isOption
  simp only [List.mem_cons, List.not_mem_nil, or_false] at isOption
  rcases isOption with rfl | rfl | rfl | rfl <;> exact absurd ending (by decide)

namespace Program

variable {program : String} {environment : Environment} {tree after : FileTree}
  {input source : String} {bytes : List UInt8} {assembly : Listing.Assembly}
  {transcript : Transcript}

theorem run_keeps_input (holds : tree.read input = .ok bytes)
    (ran : (run program environment [input] : StateM FileTree Transcript) tree =
      (transcript, after))
    (keeps : ¬ (Path.IsCompiled input ∧ ∃ changed, tree.write input bytes = .ok changed)) :
    after.read input = .ok bytes := by
  obtain ⟨report, ending, rfl⟩ := ending_of_run ran
  rcases ending.unchanged_or_compiled with rfl | ⟨path, choice, asked, compiling⟩
  · exact holds
  obtain ⟨rest, outputs, same, _, names, rfl⟩ := Request.ofArguments_eq_compile_iff.mp asked
  obtain ⟨rfl, rfl⟩ := List.cons.inj same
  cases names
  cases compiling with
  | written isText assembled success =>
    obtain ⟨place, fileAt⟩ := FileTree.read_eq_ok_iff.mp holds
    obtain ⟨location, isTarget, _⟩ := FileTree.replaces_of_write success
    rw [fileAt.of_write isTarget success, if_neg]
    intro same
    have isCompiled := (Compilation.output_eq_input_iff fileAt isTarget).mp same
    obtain ⟨inputTarget, outputTarget⟩ := Compilation.target_of_isCompiled fileAt isCompiled
    obtain ⟨changed, allowed⟩ := FileTree.write_of_write success bytes
    have sameWrite := FileTree.write_eq_of_target (inputTarget.trans outputTarget.symm) bytes
    exact keeps ⟨isCompiled, changed, sameWrite.trans allowed⟩
  | _ => exact holds

theorem run_overwrites_input (holds : tree.read input = .ok bytes)
    (decoded : Text.Utf8.decode? bytes = some source)
    (assembled : Listing.assemble source = .ok assembly)
    (ran : (run program environment [input] : StateM FileTree Transcript) tree =
      (transcript, after)) (isCompiled : Path.IsCompiled input)
    (mayWrite : ∃ changed, tree.write input bytes = .ok changed) :
    transcript.status = 0 ∧
      after.read input = .ok (CompiledFile.encode (Compilation.method input assembly)) := by
  obtain ⟨place, fileAt⟩ := FileTree.read_eq_ok_iff.mp holds
  obtain ⟨inputTarget, outputTarget⟩ := Compilation.target_of_isCompiled fileAt isCompiled
  obtain ⟨changed, allowed⟩ := mayWrite
  obtain ⟨written, success⟩ := FileTree.write_of_write allowed
    (CompiledFile.encode (Compilation.method input assembly))
  rw [FileTree.write_eq_of_target (inputTarget.trans outputTarget.symm)] at success
  have isListing : tree.read input = .ok (Text.Utf8.encode source) := by
    rw [holds, Text.Utf8.decode?_eq_some_iff.mp decoded]
  have present := FileTree.present_of_read holds
  have built := (Compilation.run_of_present none present outputTarget).trans
    (Compilation.build_of_assemble isListing assembled success)
  have compiling : (carryOut program (settings environment [input]).1 [input] :
      StateM FileTree Report) tree =
        (Compilation.conclusion input (Compilation.defaultOutput input)
          (.ok (.written (CompiledFile.encode (Compilation.method input assembly)).length)),
          written) := by
    rw [carryOut, Request.ofArguments_of_path isCompiled.noOption]
    exact built
  obtain ⟨rfl, rfl⟩ := Prod.mk.inj ((run_of_done compiling).symm.trans ran)
  refine ⟨rfl, ?_⟩
  rw [fileAt.of_write outputTarget success, if_pos rfl]

/--
A listing that is compiled without a name for the output stays as it is, unless it is named like a
compiled file and may be written. Then the run succeeds and the compiled file takes the place of the
listing.
-/
theorem run_keeps_input_iff (holds : tree.read input = .ok bytes)
    (decoded : Text.Utf8.decode? bytes = some source)
    (assembled : Listing.assemble source = .ok assembly)
    (ran : (run program environment [input] : StateM FileTree Transcript) tree =
      (transcript, after)) :
    (after.read input = .ok bytes ↔
      ¬ (Path.IsCompiled input ∧ ∃ changed, tree.write input bytes = .ok changed)) ∧
    (after.read input ≠ .ok bytes → transcript.status = 0 ∧
      after.read input = .ok (CompiledFile.encode (Compilation.method input assembly))) := by
  have overwrites := run_overwrites_input holds decoded assembled ran
  have keeps := run_keeps_input holds ran
  constructor
  · constructor
    · rintro same ⟨isCompiled, mayWrite⟩
      obtain ⟨_, compiled⟩ := overwrites isCompiled mayWrite
      rw [Except.ok.inj (same.symm.trans compiled)] at decoded
      exact Listing.assemble_encode_ne_ok decoded assembly assembled
    · exact keeps
  · intro differs
    obtain ⟨isCompiled, mayWrite⟩ := not_not.mp (mt keeps differs)
    exact overwrites isCompiled mayWrite

/-- A listing that is named like a compiled file is lost in a run that succeeds. -/
theorem run_keeps_input_iff_self :
    let tree : FileTree := ⟨[(["work"], .directory false),
      (["work", "self.rbc"], .file (Text.Utf8.encode "ret") false)], ["work"], false⟩
    ∃ transcript after,
      (run "rbc" (fun _ => none) ["self.rbc"] : StateM FileTree Transcript) tree =
        (transcript, after) ∧ transcript.status = 0 ∧
      after.read "self.rbc" ≠ .ok (Text.Utf8.encode "ret") := by
  intro tree
  have checked : FileTree.checkPath "self.rbc" = .ok () :=
    FileTree.checkPath_iff.mpr (by decide +kernel)
  have holds : tree.read "self.rbc" = .ok (Text.Utf8.encode "ret") :=
    FileTree.read_eq_ok_iff.mpr
      ⟨["work", "self.rbc"], checked, by decide +kernel, false, by decide +kernel⟩
  have isTarget : tree.target "self.rbc" = .ok ["work", "self.rbc"] :=
    except_bind_eq_ok.mpr ⟨(), checked, by decide +kernel⟩
  have isSlot : tree.slot "self.rbc" = .ok (["work", "self.rbc"], false) :=
    except_bind_eq_ok.mpr ⟨_, isTarget, by decide +kernel⟩
  have mayWrite : ∃ changed, tree.write "self.rbc" (Text.Utf8.encode "ret") = .ok changed := by
    rw [FileTree.write_eq, isSlot]
    exact ⟨_, rfl⟩
  have isCompiled : Path.IsCompiled "self.rbc" :=
    ⟨['s', 'e', 'l', 'f'], by decide, by decide +kernel⟩
  have assembled : Listing.assemble "ret" = .ok ⟨[⟨.ret, []⟩], ⟨[12], 0⟩, [], []⟩ := by
    decide +kernel
  obtain ⟨⟨transcript, after⟩, ran⟩ : ∃ result,
      (run "rbc" (fun _ => none) ["self.rbc"] : StateM FileTree Transcript) tree = result :=
    ⟨_, rfl⟩
  obtain ⟨kept, overwrites⟩ :=
    run_keeps_input_iff holds (Text.Utf8.decode?_encode "ret") assembled ran
  have lost := mt kept.mp (not_not.mpr ⟨isCompiled, mayWrite⟩)
  exact ⟨transcript, after, ran, (overwrites lost).1, lost⟩

end Program

end CompiledCode
