import CompiledCode.Proofs.Archive.FileRoundTrip
import CompiledCode.Proofs.CommandLine.Runs
import CompiledCode.Proofs.Storage.Opening

/-!
The file of a method is written as a whole or not at all. It is written if its path is opened, and
a path that is not opened leaves every file as it was.
-/

namespace CompiledCode

/-- What was dumped is loaded again, without a change to the files. -/
theorem load_of_dump (config : Config) {method : Method} {tree after : FileTree} {path : String}
    (written : tree.write path (CompiledFile.encode method) = .ok after) :
    (load config path : StateM FileTree _) after =
      (.ok (CompiledFile.ofMethod config method), after) := by
  rw [load_of_read config (FileTree.read_of_write written), CompiledFile.parse_encode]

/--
Every path is opened at a location or has a fault. In the first case the location holds the bytes of
the file and nothing else has changed, and the body that is loaded is the marshalled method. In the
second case nothing has changed at all, and only a missing permission is no error.
-/
theorem dump_is_all_or_nothing (method : Method) (tree : FileTree) (path : String) :
    (∃ outcome, tree.Opening path outcome) ∧
    (∀ location, tree.Opening path (.ok location) → ∃ after,
      (dump method path : StateM FileTree _) tree =
        (.ok (.written (CompiledFile.encode method).length), after) ∧
      tree.Replaces after location (CompiledFile.encode method) ∧
      after.read path = .ok (CompiledFile.encode method) ∧
      ∀ config, ∃ file, (load config path : StateM FileTree _) after = (.ok file, after) ∧
        file.rawBody = (Value.method method).marshal) ∧
    (tree.Opening path (.error .permissionDenied) →
      (dump method path : StateM FileTree _) tree = (.ok .skipped, tree)) ∧
    (∀ fault, fault ≠ .permissionDenied → tree.Opening path (.error fault) →
      (dump method path : StateM FileTree _) tree = (.error (.io path fault), tree)) := by
  refine ⟨tree.exists_opening path, ?_, ?_, ?_⟩
  · intro location opening
    obtain ⟨after, written, replaces⟩ :=
      FileTree.write_of_opening opening (CompiledFile.encode method)
    exact ⟨after, dump_of_write written, replaces, FileTree.read_of_write written,
      fun config => ⟨_, load_of_dump config written, rfl⟩⟩
  · intro denied
    exact dump_of_denied (FileTree.write_of_unopened denied _)
  · intro fault allowed refused
    exact dump_of_refused (FileTree.write_of_unopened refused _) allowed

/--
A longer file is replaced beside one that may not be written, which is skipped. A path through a
file, one into a directory that is missing and one to a directory are errors.
-/
theorem dump_is_all_or_nothing_mixed :
    let tree : FileTree := ⟨[(["a"], .file (List.replicate 1000 7) false),
      (["b"], .file [8] true), (["c"], .directory false)], [], false⟩
    let method : Method := MethodRecord.ofCode [109] ⟨[12], 0⟩
    (∃ after, (dump method "a" : StateM FileTree _) tree =
        (.ok (.written (CompiledFile.encode method).length), after) ∧
      after.entry? ["b"] = some (.file [8] true) ∧ after.entry? ["c"] = some (.directory false) ∧
      after.read "a" = .ok (CompiledFile.encode method)) ∧
    (dump method "b" : StateM FileTree _) tree = (.ok .skipped, tree) ∧
    (dump method "b/d" : StateM FileTree _) tree = (.error (.io "b/d" .notDirectory), tree) ∧
    (dump method "d/d" : StateM FileTree _) tree = (.error (.io "d/d" .notFound), tree) ∧
    (dump method "c" : StateM FileTree _) tree = (.error (.io "c" .isDirectory), tree) := by
  intro tree method
  have root : tree.IsDirectory [] := ⟨false, rfl⟩
  have leads : ∀ name ∈ ["a", "b", "c"], tree.LeadsTo name [] name [] := by
    have facts : ∀ name ∈ ["a", "b", "c"], FileTree.names name = [name] ∧
        tree.origin name = [] ∧ name ≠ "" ∧ (name ≠ "." ∧ name ≠ "..") ∧
        '\x00' ∉ name.toList ∧ name.utf8ByteSize ≤ FileTree.pathLimit := by decide +kernel
    intro name member
    obtain ⟨namesEq, origin, filled, notDots, noZero, short⟩ := facts name member
    exact ⟨FileTree.checkPath_iff.mpr ⟨noZero, filled, short⟩, namesEq, filled, notDots,
      congrArg Except.ok origin, root⟩
  have opened : tree.Opening "a" (.ok ["a"]) :=
    .opened (leads "a" (by simp)) (by decide +kernel) (.file rfl) rfl
  have denied : tree.Opening "b" (.error .permissionDenied) :=
    .denied (leads "b" (by simp)) (by decide +kernel) (.file rfl) rfl
  have directory : tree.Opening "c" (.error .isDirectory) :=
    .directory (leads "c" (by simp)) (by decide +kernel) ⟨false, rfl⟩
  have through : tree.Opening "b/d" (.error .notDirectory) := by
    have ends : FileTree.EndsIn "b/d" ["b"] (some "d") :=
      .name (by decide +kernel) (by decide) (by decide)
    exact .strays (FileTree.checkPath_iff.mpr (by decide +kernel)) ends
      (.file List.prefix_rfl (by decide +kernel : _ = Except.ok ["b"]) rfl)
  have missing : tree.Opening "d/d" (.error .notFound) := by
    have ends : FileTree.EndsIn "d/d" ["d"] (some "d") :=
      .name (by decide +kernel) (by decide) (by decide)
    exact .strays (FileTree.checkPath_iff.mpr (by decide +kernel)) ends
      (.missing List.prefix_rfl (by decide +kernel : _ = Except.ok ["d"]) rfl)
  obtain ⟨after, dumped, replaces, holds, _⟩ :=
    (dump_is_all_or_nothing method tree "a").2.1 _ opened
  refine ⟨⟨after, dumped, ?_, ?_, holds⟩, ?_, ?_, ?_, ?_⟩
  · exact replaces.others ["b"] (by decide)
  · exact replaces.others ["c"] (by decide)
  · exact (dump_is_all_or_nothing method tree "b").2.2.1 denied
  · exact (dump_is_all_or_nothing method tree "b/d").2.2.2 _ (by decide) through
  · exact (dump_is_all_or_nothing method tree "d/d").2.2.2 _ (by decide) missing
  · exact (dump_is_all_or_nothing method tree "c").2.2.2 _ (by decide) directory

end CompiledCode
