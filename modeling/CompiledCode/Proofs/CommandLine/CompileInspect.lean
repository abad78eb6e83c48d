import CompiledCode.Proofs.Archive.ListingMethod
import CompiledCode.Proofs.CommandLine.Runs

/-!
A listing that is compiled and then inspected is shown as it was assembled. The two runs share
nothing but the file that the first one writes.
-/

namespace CompiledCode

namespace Listing

/-- A literal as a note: a string in quotes, a symbol with a colon in front. -/
def Literal.note : Literal → String
  | string bytes => Text.quote (Text.Utf8.decodeLossy bytes)
  | symbol name => ":" ++ Text.Utf8.decodeLossy name

/-- The literals with their indices under a heading, or nothing when there are none. -/
def LiteralTable.lines (literals : LiteralTable) : String :=
  if literals = [] then ""
  else "literals:\n" ++ String.join (literals.zipIdx.map fun (literal, index) =>
    "  [" ++ toString index ++ "] " ++ literal.note ++ "\n")

/-- What is shown of the file that a listing is compiled to. -/
def Assembly.report (assembly : Assembly) (input : String) (header : Header) (decoded : Decoded) :
    String :=
  "magic:      " ++ header.magic ++ "\n" ++
  "version:    " ++ toString header.version ++ "\n" ++
  "checksum:   " ++ header.checksum ++ "\n" ++
  "name:       :" ++ Path.stem input ++ "\n" ++
  "file:       :" ++ input ++ "\n" ++
  "stack size: " ++ toString assembly.code.stackDepth.toNat ++ "\n" ++
  assembly.literals.lines ++
  "code:\n" ++ decoded.render fun index => assembly.literals[index.toNat]?.map Literal.note

end Listing

theorem Text.Utf8.decodeLossy_encode (text : String) : decodeLossy (encode text) = text := by
  rw [decodeLossy, encode, scalars_encode, List.map_map]
  have kept : text.toList.map ((·.getD '\uFFFD') ∘ some) = text.toList.map id := rfl
  rw [kept, List.map_id, String.ofList_toList]

namespace Inspection

variable {input : String} {assembly : Listing.Assembly}

theorem note_value (literal : Listing.Literal) : literal.value.note = literal.note := by
  cases literal <;> rfl

theorem literal?_method (index : UInt64) :
    ((Compilation.method input assembly).literal? index).map Value.note =
      assembly.literals[index.toNat]?.map Listing.Literal.note := by
  have values : (Compilation.method input assembly).literalValues =
      assembly.literals.map (·.value) := rfl
  rw [MethodRecord.literal?, values, List.getElem?_map, Option.map_map]
  congr 1
  funext literal
  exact note_value literal

theorem literalLines_method :
    literalLines (assembly.literals.map (·.value)) = assembly.literals.lines := by
  unfold literalLines Listing.LiteralTable.lines
  cases assembly.literals with
  | nil => rfl
  | cons first rest =>
    rw [if_neg (by simp), if_neg (by simp), List.zipIdx_map, List.map_map]
    congr 3
    funext entry
    change _ ++ toString (entry.1.value.note) ++ "\n" = _
    rw [note_value]
    rfl

theorem stackSize_text (small : assembly.code.stackDepth.toNat < 2 ^ 63) :
    (Compilation.method input assembly).stackSize.integer?.map (fun size => toString size.toInt) =
      some (toString assembly.code.stackDepth.toNat) := by
  have capped : min (assembly.code.stackDepth.toNat : Int) (2 ^ 63 - 1) =
      assembly.code.stackDepth.toNat := by omega
  change some (toString (Int64.ofInt (min assembly.code.stackDepth.toNat (2 ^ 63 - 1))).toInt) = _
  rw [capped, Int64.toInt_ofInt_of_le (by omega) (by omega)]
  rfl

theorem summary_codeLines (header : Header) (decoded : Decoded)
    (small : assembly.code.stackDepth.toNat < 2 ^ 63) :
    summary header (Compilation.method input assembly) ++
      codeLines (Compilation.method input assembly) decoded =
      assembly.report input header decoded := by
  have values : (Compilation.method input assembly).literalValues =
      assembly.literals.map (·.value) := rfl
  have name : (Compilation.method input assembly).name.symbol?.map symbolText =
      some (":" ++ Path.stem input) :=
    congrArg (fun text => some (":" ++ text)) (Text.Utf8.decodeLossy_encode _)
  have file : (Compilation.method input assembly).file.symbol?.map symbolText =
      some (":" ++ input) :=
    congrArg (fun text => some (":" ++ text)) (Text.Utf8.decodeLossy_encode _)
  unfold summary codeLines Listing.Assembly.report
  rw [values, literalLines_method, name, file, stackSize_text small]
  simp only [literal?_method, field, String.append_assoc, toString]
  -- Only the places where the fixed texts are cut are different now.
  have version : "\nversion:    " = "\n" ++ "version:    " := by decide
  have nameLabel : "name:       :" = "name:       " ++ ":" := by decide
  have fileLabel : "file:       :" = "file:       " ++ ":" := by decide
  rw [version, nameLabel, fileLabel, String.append_assoc, String.append_assoc, String.append_assoc]

/-- The method is found in the file that it is written to. -/
theorem method_ofMethod_method (input : String) {source : String}
    (assembled : Listing.assemble source = .ok assembly)
    (fits : (Text.Utf8.encode source).length < 2 ^ 64)
    (pathFits : (Text.Utf8.encode input).length < 2 ^ 64) :
    (CompiledFile.ofMethod .default (Compilation.method input assembly)).method.1 =
      .ok (Compilation.method input assembly) := by
  obtain ⟨_, _, _, _, isCode⟩ := Listing.of_assemble_ok assembled
  have small := CodeBlock.stackDepth_lt_of_encode isCode
  have sized := Compilation.sized_method assembled fits pathFits
  have shallow : (Value.method (Compilation.method input assembly)).depth <
      Config.default.maxDepth :=
    (Compilation.depth_method input assembly).trans_lt (by decide)
  have reading := Value.unmarshal_marshal_append sized shallow []
  rw [List.append_nil, if_pos rfl, Compilation.canonical_method small] at reading
  rw [CompiledFile.method_ofMethod, reading]
  rfl

theorem ofFile_eq {file : CompiledFile} {method : Method} {decoded : Decoded}
    (isMethod : file.method.1 = .ok method) (isCode : method.disassemble = .ok decoded) :
    ofFile file = .success (summary file.header method ++ codeLines method decoded)
      (decodingRemarks file ++ paddingRemarks decoded.padding) := by
  rw [ofFile, isMethod]
  dsimp only
  rw [isCode]

/-- The file of a compiled listing is shown as the listing. -/
theorem ofFile_compiled {source : String} (assembled : Listing.assemble source = .ok assembly)
    (fits : (Text.Utf8.encode source).length < 2 ^ 64)
    (pathFits : (Text.Utf8.encode input).length < 2 ^ 64) :
    ∃ file decoded, CompiledFile.parse .default
        (CompiledFile.encode (Compilation.method input assembly)) = .ok file ∧
      file.header = ⟨"!RBIX", 0, checksumOf file.rawBody⟩ ∧
      assembly.code.decode = .ok decoded ∧ ∃ remarks,
      ofFile file = .success (assembly.report input file.header decoded) remarks := by
  obtain ⟨_, _, _, _, isCode⟩ := Listing.of_assemble_ok assembled
  obtain ⟨wellFormed, wordsEq⟩ := CodeBlock.of_encode_ok isCode
  have small := CodeBlock.stackDepth_lt_of_encode isCode
  have isMethod := method_ofMethod_method input assembled fits pathFits
  obtain ⟨padding, decoding⟩ := CodeBlock.decodeFrom_stream wellFormed false 0
  rw [← wordsEq] at decoding
  have disassembled : (Compilation.method input assembly).disassemble = .ok
      ⟨Instruction.placed 0 (Instruction.stripFrom false assembly.instructions), padding⟩ := by
    change assembly.code.decode.mapError FileError.code = _
    rw [CodeBlock.decode, decoding]
    rfl
  have shown := ofFile_eq isMethod disassembled
  rw [summary_codeLines _ _ small] at shown
  exact ⟨_, _, CompiledFile.parse_encode .default _, rfl, decoding, _, shown⟩

end Inspection

namespace Program

/--
A listing that assembles is compiled to a path where a file can be written, and the file is shown
as the listing: with the header of the file, the name and the path of the listing, the stack depth
and the literals of the assembled code, and the code as it is decoded. A length has 64 bits, and so
no file of the system is longer than the listing may be.
-/
theorem compile_then_inspect (program : String) {environment : Environment}
    (unset : environment.IsUnset) {tree opened : FileTree} {input output source : String}
    {assembly : Listing.Assembly} (noOption : input ∉ ["--help", "-h", "--disasm", "-d"])
    (holds : tree.read input = .ok (Text.Utf8.encode source))
    (fits : (Text.Utf8.encode source).length < 2 ^ 64)
    (assembled : Listing.assemble source = .ok assembly)
    (writable : tree.write output [] = .ok opened) :
    ∃ compiled inspected after bytes file decoded,
      (run program environment [input, "-o", output] : StateM FileTree Transcript) tree =
        (compiled, after) ∧ compiled.status = 0 ∧
      (run program environment ["--disasm", output] : StateM FileTree Transcript) after =
        (inspected, after) ∧ inspected.status = 0 ∧
      after.read output = .ok bytes ∧ CompiledFile.parse .default bytes = .ok file ∧
      file.header = ⟨"!RBIX", 0, checksumOf file.rawBody⟩ ∧
      assembly.code.decode = .ok decoded ∧
      inspected.output = assembly.report input file.header decoded := by
  have pathFits : (Text.Utf8.encode input).length < 2 ^ 64 := by
    obtain ⟨_, _, short⟩ := FileTree.checkPath_iff.mp (FileTree.checkPath_of_read holds)
    rw [Text.Utf8.length_encode]
    exact short.trans_lt (by decide)
  obtain ⟨after, written⟩ := FileTree.write_of_write writable
    (CompiledFile.encode (Compilation.method input assembly))
  obtain ⟨location, isTarget, _⟩ := except_bind_eq_ok.mp writable
  have built : (Compilation.run input (some output) : StateM FileTree _) tree = _ :=
    (Compilation.run_of_present (some output) (FileTree.present_of_read holds) isTarget).trans
      (Compilation.build_of_assemble holds assembled written)
  have compiling : (carryOut program .default [input, "-o", output] : StateM FileTree _) tree =
      (Compilation.conclusion input output (.ok (.written
        (CompiledFile.encode (Compilation.method input assembly)).length)), after) := by
    rw [carryOut, Request.ofArguments_compile noOption]
    exact built
  obtain ⟨file, decoded, parsed, header, decoding, remarks, shown⟩ :=
    Inspection.ofFile_compiled assembled fits pathFits
  have readBack := FileTree.read_of_write written
  have inspecting : (carryOut program .default ["--disasm", output] : StateM FileTree _) after =
      (.success (assembly.report input file.header decoded) remarks, after) := by
    rw [← shown]
    exact inspect_of_read readBack parsed
  exact ⟨_, _, after, _, file, decoded, run_of_carryOut unset compiling, rfl,
    run_of_carryOut unset inspecting, rfl, readBack, parsed, header, decoding, rfl⟩

/-- A listing with a loop and with an index outside its literals, compiled to another directory. -/
theorem compile_then_inspect_loop :
    let source := "top: push_literal \"a b\"\ngoto_if_true top\npush_literal :done\n" ++
      "push_literal 7\nret\n"
    let tree : FileTree := ⟨[(["work"], .directory false),
      (["work", "loop.rbs"], .file (Text.Utf8.encode source) false),
      (["cache"], .directory false)], ["work"], false⟩
    ∃ compiled inspected after checksum,
      (run "rbc" (fun _ => none) ["loop.rbs", "-o", "../cache/loop.rbc"] :
        StateM FileTree Transcript) tree = (compiled, after) ∧ compiled.status = 0 ∧
      (run "rbc" (fun _ => none) ["--disasm", "../cache/loop.rbc"] :
        StateM FileTree Transcript) after = (inspected, after) ∧ inspected.status = 0 ∧
      inspected.output = "magic:      !RBIX\nversion:    0\nchecksum:   " ++ (checksum ++
        ("\nname:       :loop\nfile:       :loop.rbs\nstack size: 2\n" ++
          "literals:\n  [0] \"a b\"\n  [1] :done\n" ++
          "code:\n>0000: push_literal 0  # \"a b\"\n 0002: goto_if_true 0\n" ++
          " 0004: push_literal 1  # :done\n 0006: push_literal 7\n 0008: ret\n")) := by
  intro source tree
  have assembled : Listing.assemble source = .ok ⟨[⟨.pushLiteral, [0]⟩, ⟨.gotoIfTrue, [0]⟩,
      ⟨.pushLiteral, [1]⟩, ⟨.pushLiteral, [7]⟩, ⟨.ret, []⟩], ⟨[6, 0, 10, 0, 6, 1, 6, 7, 12], 2⟩,
      [.string [97, 32, 98], .symbol [100, 111, 110, 101]], [("top", 0)]⟩ := by decide +kernel
  have writable : tree.write "../cache/loop.rbc" [] =
      .ok (tree.put ["cache", "loop.rbc"] (.file [] false)) := by
    have checked : FileTree.checkPath "../cache/loop.rbc" = .ok () :=
      FileTree.checkPath_iff.mpr (by decide +kernel)
    refine except_bind_eq_ok.mpr ⟨["cache", "loop.rbc"], ?_, by decide +kernel⟩
    exact except_bind_eq_ok.mpr ⟨(), checked, by decide +kernel⟩
  have holds : tree.read "loop.rbs" = .ok (Text.Utf8.encode source) := by
    have checked : FileTree.checkPath "loop.rbs" = .ok () :=
      FileTree.checkPath_iff.mpr (by decide +kernel)
    refine except_bind_eq_ok.mpr ⟨.file (Text.Utf8.encode source) false, ?_, rfl⟩
    exact except_bind_eq_ok.mpr ⟨(), checked, by decide +kernel⟩
  have decoding : (CodeBlock.mk [6, 0, 10, 0, 6, 1, 6, 7, 12] 2).decode =
      .ok ⟨[(0, ⟨.pushLiteral, [0]⟩), (2, ⟨.gotoIfTrue, [0]⟩), (4, ⟨.pushLiteral, [1]⟩),
        (6, ⟨.pushLiteral, [7]⟩), (8, ⟨.ret, []⟩)], .none⟩ := by cbv
  have unset : Environment.IsUnset fun _ => none := fun _ _ => rfl
  obtain ⟨compiled, inspected, after, bytes, file, decoded, compiling, done, inspecting, shown, _,
      _, header, isDecoded, text⟩ :=
    compile_then_inspect "rbc" unset (by decide) holds (by decide +kernel) assembled writable
  cases decoding.symm.trans isDecoded
  refine ⟨compiled, inspected, after, file.header.checksum, compiling, done, inspecting, shown, ?_⟩
  rw [text, header]
  unfold Listing.Assembly.report
  dsimp only
  have head : "magic:      " ++ "!RBIX" ++ "\n" ++ "version:    " ++ toString (0 : UInt64) ++ "\n" ++
      "checksum:   " = "magic:      !RBIX\nversion:    0\nchecksum:   " := by decide +kernel
  rw [head]
  -- The texts around the digits of the digest are compared apart from them.
  generalize "magic:      !RBIX\nversion:    0\nchecksum:   " = start
  simp only [String.append_assoc]
  congr 2
  decide +kernel

end Program

end CompiledCode
