import CompiledCode.Proofs.CommandLine.Endings

/-!
A run that fails says so, in the settings of any environment. The one exception is a listing that
cannot be read although there is something at its path.
-/

namespace CompiledCode

theorem join_eq_empty_iff {texts : List String} :
    String.join texts = "" ↔ ∀ text ∈ texts, text = "" := by
  rw [← String.toList_inj, String.toList_join]
  simp

theorem Level.isShown_error (least : Level) : least.isShown .error = true := by
  cases least <;> rfl

/-- Nothing is rendered only when no notice is grave enough. -/
theorem Notice.render_eq_empty_iff {least : Level} {notices : List Notice} :
    render least notices = "" ↔ ∀ notice ∈ notices, least.isShown notice.level = false := by
  have filled (notice : Notice) : notice.line ≠ "" := by
    unfold line
    simp
  rw [render, join_eq_empty_iff, List.forall_mem_map]
  simp [filled]

namespace Report

variable {report : Report} {text : String}

/-- Something is said at every level. -/
def Speaks (report : Report) : Prop :=
  ∀ least, report.errors least ≠ ""

theorem errors_eq_empty_iff {least : Level} :
    report.errors least = "" ↔ ∀ remark ∈ report.remarks, remark.render least = "" := by
  rw [errors, join_eq_empty_iff]
  simp

theorem speaks_of_error (said : error text ∈ report.remarks) : report.Speaks := by
  intro least silent
  have hidden : Notice.render least [⟨.error, text⟩] = "" := errors_eq_empty_iff.mp silent _ said
  rw [Notice.render_eq_empty_iff] at hidden
  simp [Level.isShown_error] at hidden

theorem speaks_of_plain (said : .plain text ∈ report.remarks) (filled : text ≠ "") :
    report.Speaks := by
  intro least silent
  exact filled (errors_eq_empty_iff.mp silent _ said)

end Report

/-- The settings are warned of at a level that is shown by default. -/
theorem Config.level_of_mem_notices {environment : Environment} {notice : Notice}
    (given : notice ∈ (ofEnvironment environment).2) : notice.level = .warn := by
  have warns {α : Type} {name expected : String} {parse : String → Option α} {default : α}
      (given : notice ∈ (setting environment name expected parse default).2) :
      notice.level = .warn := by
    unfold setting at given
    split at given
    · cases given
    · split at given
      · cases given
      · rw [List.mem_singleton.mp given]
        rfl
  have parts : (ofEnvironment environment).2 =
      (setting environment depthVariable "a positive integer" depth? Config.default.maxDepth).2 ++
        (setting environment checksumVariable "a boolean" switch? Config.default.verifyChecksum).2 ++
          (setting environment levelVariable "debug, info, warn or error" Level.ofText?
            Config.default.logLevel).2 := rfl
  rw [parts, List.mem_append, List.mem_append] at given
  rcases given with (ofDepth | ofChecksum) | ofLevel
  · exact warns ofDepth
  · exact warns ofChecksum
  · exact warns ofLevel

theorem Config.render_notices_eq_empty_iff {environment : Environment} :
    Notice.render default.logLevel (ofEnvironment environment).2 = "" ↔
      (ofEnvironment environment).2 = [] := by
  rw [Notice.render_eq_empty_iff, List.eq_nil_iff_forall_not_mem]
  constructor
  · intro hidden notice given
    have isHidden := hidden notice given
    rw [level_of_mem_notices given] at isHidden
    cases isHidden
  · intro nothing notice given
    exact absurd given (nothing notice)

namespace Compilation

variable {tree after : FileTree} {input output : String} {report : Report}

/-- A command that fails says so unless the input is unreadable. -/
theorem Ending.speaks (ending : Ending tree input output report after)
    (failed : report.status ≠ 0) (readable : ¬ IsUnreadable tree input output) :
    report.Speaks := by
  cases ending with
  | noInput | noDirectory | unwritten => exact Report.speaks_of_error (List.mem_singleton.mpr rfl)
  | noText unreadable => exact absurd unreadable readable
  | rejected =>
    refine Report.speaks_of_plain (List.mem_append_right _ (List.mem_singleton.mpr rfl)) ?_
    simp
  | skipped | written => exact absurd rfl failed

/-- An unreadable input is refused without a word. -/
theorem Ending.of_isUnreadable (ending : Ending tree input output report after)
    (unreadable : IsUnreadable tree input output) : report = .failure "" [] := by
  obtain ⟨isThere, hasDirectory, noText⟩ := unreadable
  cases ending with
  | noText => rfl
  | noInput missing => rw [isThere] at missing; cases missing
  | noDirectory isDirectory missing =>
    rw [hasDirectory _ isDirectory] at missing
    cases missing
  | rejected isText | unwritten isText | skipped isText | written isText =>
    rw [noText] at isText
    cases isText

end Compilation

theorem Inspection.speaks_ofFile {file : CompiledFile} (failed : (ofFile file).status ≠ 0) :
    (ofFile file).Speaks := by
  have speaks (text : String) (remarks : List Remark) (message : String) :
      (Report.failure text (remarks ++ [Report.error message])).Speaks :=
    Report.speaks_of_error (List.mem_append_right _ (List.mem_singleton.mpr rfl))
  unfold ofFile at failed ⊢
  split
  · apply speaks
  · rename_i method isMethod
    rw [isMethod] at failed
    dsimp only at failed ⊢
    split
    · apply speaks
    · rename_i decoded isCode
      rw [isCode] at failed
      exact absurd rfl failed

namespace Program

variable {program : String} {environment : Environment} {arguments : List String}
  {tree after : FileTree}

theorem speaks_refusal (problem : ArgumentError) : (refusal program problem).Speaks := by
  cases problem <;> exact Report.speaks_of_error List.mem_cons_self

/-- How to use the program is shown at the level of the defaults. -/
theorem errors_usage (program : String) (status : UInt32) :
    Report.errors ⟨status, "", [Report.info (usageText program)]⟩ Config.default.logLevel ≠ "" := by
  intro silent
  have hidden : Notice.render Config.default.logLevel [⟨.info, usageText program⟩] = "" :=
    Report.errors_eq_empty_iff.mp silent _ (List.mem_singleton.mpr rfl)
  rw [Notice.render_eq_empty_iff] at hidden
  cases hidden _ (List.mem_singleton.mpr rfl)

theorem settings_of_usage (asked : Request.ofArguments arguments = .ok .usage) :
    settings environment arguments = (.default, []) := by
  rw [settings, asked]

theorem settings_of_compile {input : String} {output : Option String}
    (asked : Request.ofArguments arguments = .ok (.compile input output)) :
    settings environment arguments = Config.ofEnvironment environment := by
  rw [settings, asked]

/--
A run fails without a word exactly if it is asked to compile an input that is there and cannot be
read as a text, to an output whose directory is there, and if every setting makes sense.
-/
theorem run_silent_iff {transcript : Transcript}
    (ran : (run program environment arguments : StateM FileTree Transcript) tree =
      (transcript, after)) :
    transcript.status ≠ 0 ∧ transcript.errors = "" ↔ (Config.ofEnvironment environment).2 = [] ∧
      ∃ input output, Request.ofArguments arguments = .ok (.compile input output) ∧
        Compilation.IsUnreadable tree input (output.getD (Compilation.defaultOutput input)) := by
  obtain ⟨report, ending, rfl⟩ := ending_of_run ran
  dsimp only
  rw [String.append_eq_empty_iff]
  constructor
  · rintro ⟨failed, noWarning, silent⟩
    cases ending with
    | refused => exact absurd silent (speaks_refusal _ _)
    | usage asked =>
      rw [settings_of_usage asked] at silent
      exact absurd silent (errors_usage _ _)
    | unopened =>
      exact absurd silent (Report.speaks_of_error (List.mem_singleton.mpr rfl) _)
    | shown => exact absurd silent (Inspection.speaks_ofFile failed _)
    | compiled asked ending =>
      rw [settings_of_compile asked, Config.render_notices_eq_empty_iff] at noWarning
      refine ⟨noWarning, _, _, asked, ?_⟩
      by_contra readable
      exact ending.speaks failed readable _ silent
  · rintro ⟨noWarning, input, output, asked, unreadable⟩
    have isSilent : report = .failure "" [] := by
      cases ending with
      | compiled askedHere ending =>
        cases asked.symm.trans askedHere
        exact ending.of_isUnreadable unreadable
      | refused askedHere | usage askedHere | unopened askedHere | shown askedHere =>
        cases asked.symm.trans askedHere
    subst isSilent
    rw [settings_of_compile asked, Config.render_notices_eq_empty_iff]
    exact ⟨by decide, noWarning, rfl⟩

/-- A directory in the place of a listing is passed over in silence. -/
theorem run_silent_directory :
    let tree : FileTree := ⟨[(["work"], .directory false), (["work", "d.rbs"], .directory false)],
      ["work"], false⟩
    ∃ transcript after,
      (run "rbc" (fun _ => none) ["d.rbs"] : StateM FileTree Transcript) tree =
        (transcript, after) ∧ transcript.status ≠ 0 ∧ transcript.errors = "" := by
  intro tree
  have checked : FileTree.checkPath "d.rbs" = .ok () :=
    FileTree.checkPath_iff.mpr (by decide +kernel)
  have found : tree.resolve "d.rbs" = .ok (.directory false) :=
    except_bind_eq_ok.mpr ⟨(), checked, by decide +kernel⟩
  have unreadable : Compilation.IsUnreadable tree "d.rbs" (Compilation.defaultOutput "d.rbs") := by
    refine ⟨?_, ?_, ?_⟩
    · rw [FileTree.present, found]
      rfl
    · have noDirectory : Compilation.outputDirectory? (Compilation.defaultOutput "d.rbs") = none := by
        decide +kernel
      simp [noDirectory]
    · have isDirectory : tree.read "d.rbs" = .error .isDirectory := by
        rw [FileTree.read, found]
        rfl
      rw [FileTree.text?, isDirectory]
      rfl
  cases ran : (run "rbc" (fun _ => none) ["d.rbs"] : StateM FileTree Transcript) tree with
  | mk transcript after =>
    exact ⟨transcript, after, rfl, (run_silent_iff ran).mpr ⟨rfl, "d.rbs", none, rfl, unreadable⟩⟩

end Program

end CompiledCode
