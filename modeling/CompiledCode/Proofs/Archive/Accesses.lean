import CompiledCode.Proofs.Archive.Header
import CompiledCode.Proofs.Outcomes

/-!
A loaded file may be asked for its parts in any order and as often as wanted. It keeps the value of
its body once there is one, and that is all that changes. What it answers about the body does not
depend on what it was asked before.
-/

namespace CompiledCode

/-- What a loaded file can be asked for. -/
inductive Access where
  | header
  | rawBody
  | isDecoded
  | body
  | method
  | disassembly
  deriving DecidableEq, Repr

/-- The access needs the value of the body. -/
def Access.asksBody : Access → Bool
  | body | method | disassembly => true
  | header | rawBody | isDecoded => false

/-- What a loaded file answers. -/
inductive Answer where
  | header (header : Header)
  | rawBody (bytes : List UInt8)
  | isDecoded (decoded : Bool)
  | body (result : Except FileError Value)
  | method (result : Except FileError Method)
  | disassembly (result : Except FileError Decoded)

/-- The error is found before there is a value of the body. -/
def FileError.precedesValue : FileError → Bool
  | checksumMismatch _ _ | read _ => true
  | _ => false

/-- There was a value of the body, even if it was not of the kind that was asked for. -/
def FileError.gotPast {α : Type} : Except FileError α → Bool
  | .ok _ => true
  | .error failure => !failure.precedesValue

namespace Answer

/-- There was a value of the body to look at. -/
def gotPast : Answer → Bool
  | body result => FileError.gotPast result
  | method result => FileError.gotPast result
  | disassembly result => FileError.gotPast result
  | header _ | rawBody _ | isDecoded _ => false

def failure? : Answer → Option FileError
  | body (.error failure) | method (.error failure) | disassembly (.error failure) => some failure
  | _ => none

end Answer

namespace CompiledFile

/-- The answer to an access, and the file after it. -/
def access (file : CompiledFile) : Access → Answer × CompiledFile
  | .header => (.header file.header, file)
  | .rawBody => (.rawBody file.rawBody, file)
  | .isDecoded => (.isDecoded file.isDecoded, file)
  | .body => (.body file.body.1, file.body.2)
  | .method => (.method file.method.1, file.method.2)
  | .disassembly => (.disassembly (file.method.1 >>= MethodRecord.disassemble), file.method.2)

/-- The answers to accesses one after another, and the file after them. -/
def accesses (file : CompiledFile) : List Access → List Answer × CompiledFile
  | [] => ([], file)
  | first :: rest =>
    let (answer, next) := file.access first
    let (answers, last) := next.accesses rest
    (answer :: answers, last)

/--
The checksum of the body is not the one in the header, whatever the case of its letters is, and the
settings do not let that pass.
-/
def IsRefused (file : CompiledFile) : Prop :=
  file.config.verifyChecksum = true ∧ file.header.checksum ≠ "x" ∧
    Text.lowerAscii file.header.checksum ≠ Text.lowerAscii (checksumOf file.rawBody)

instance (file : CompiledFile) : Decidable file.IsRefused :=
  inferInstanceAs (Decidable (_ ∧ _ ∧ _))

/-- A checksum has 64 digits. -/
theorem length_checksumOf (body : List UInt8) : (checksumOf body).length = 64 := by
  rw [checksumOf, length_bytesHexadecimal, Digest.ofBytes, Digest.finish, List.length_map,
    List.length_range]

theorem checksumFits_iff (header : String) (body : List UInt8) :
    checksumFits header (checksumOf body) = true ↔
      header = "x" ∨ Text.lowerAscii header = Text.lowerAscii (checksumOf body) := by
  rw [checksumFits, Bool.or_eq_true, beq_iff_eq, beq_iff_eq, checksumOf,
    lowerAscii_bytesHexadecimal]
  rfl

theorem verify_eq (file : CompiledFile) :
    file.verify = if file.IsRefused then
      .error (.checksumMismatch file.header.checksum (checksumOf file.rawBody)) else .ok () := by
  unfold verify
  dsimp only
  by_cases refused : file.IsRefused
  · rw [if_pos refused]
    obtain ⟨asked, named, differs⟩ := refused
    have unfit : ¬ checksumFits file.header.checksum (checksumOf file.rawBody) = true := by
      rw [checksumFits_iff, not_or]
      exact ⟨named, differs⟩
    have compared : (file.config.verifyChecksum && file.header.checksum != uncheckedLine) = true := by
      rw [asked, Bool.true_and, bne_iff_ne]
      exact named
    rw [if_pos compared, if_neg unfit]
  · rw [if_neg refused]
    split
    · rename_i compared
      obtain ⟨asked, named⟩ := Bool.and_eq_true_iff.mp compared
      have fits : checksumFits file.header.checksum (checksumOf file.rawBody) = true := by
        rw [checksumFits_iff]
        refine .inr (Classical.byContradiction fun differs => ?_)
        exact refused ⟨asked, bne_iff_ne.mp named, differs⟩
      rw [if_pos fits]
    · rfl

/-- A body that is refused is not read, whatever the reader of values is. -/
theorem decodeBodyWith_eq (reader : Nat → List UInt8 → Except ReadError Value)
    (file : CompiledFile) :
    file.decodeBodyWith reader = if file.IsRefused then
      .error (.checksumMismatch file.header.checksum (checksumOf file.rawBody))
      else (reader file.config.maxDepth file.rawBody).mapError .read := by
  rw [decodeBodyWith, verify_eq]
  split <;> rfl

theorem precedesValue_of_decodeBody {file : CompiledFile} {failure : FileError}
    (failed : file.decodeBody = .error failure) : failure.precedesValue = true := by
  rw [decodeBody, decodeBodyWith_eq] at failed
  split at failed
  · cases failed
    rfl
  · cases reading : Value.unmarshal file.config.maxDepth file.rawBody with
    | ok value =>
      rw [reading] at failed
      cases failed
    | error cause =>
      rw [reading] at failed
      cases failed
      rfl

theorem not_precedesValue_of_methodOf {value : Value} {failure : FileError}
    (failed : methodOf value = .error failure) : failure.precedesValue = false := by
  unfold methodOf at failed
  split at failed <;> cases failed
  rfl

theorem not_precedesValue_of_disassemble {method : Method} {failure : FileError}
    (failed : method.disassemble = .error failure) : failure.precedesValue = false := by
  unfold MethodRecord.disassemble at failed
  split at failed
  · rename_i block _
    cases decoding : block.decode with
    | ok decoded =>
      rw [decoding] at failed
      cases failed
    | error cause =>
      rw [decoding] at failed
      cases failed
      rfl
  · cases failed
    rfl

section Steps

variable {file : CompiledFile}

theorem body_of_decoded {value : Value} (known : file.decoded = some value) :
    file.body = (.ok value, file) := by
  unfold body
  rw [known]

theorem body_of_unread (unread : file.decoded = none) : file.body.1 = file.decodeBody := by
  unfold body
  rw [unread]
  cases file.decodeBody <;> rfl

theorem precedesValue_of_body {failure : FileError} (failed : file.body.1 = .error failure) :
    failure.precedesValue = true := by
  cases known : file.decoded with
  | some value =>
    rw [body_of_decoded known] at failed
    cases failed
  | none =>
    rw [body_of_unread known] at failed
    exact precedesValue_of_decodeBody failed

/-- The value is kept when there is one. -/
theorem isDecoded_body : file.body.2.isDecoded = file.body.1.isOk := by
  unfold body
  cases known : file.decoded with
  | some value =>
    rw [isDecoded, known]
    rfl
  | none =>
    cases file.decodeBody with
    | ok value => rfl
    | error failure =>
      rw [isDecoded, known]
      rfl

theorem isOk_body_of_isDecoded (known : file.isDecoded = true) : file.body.1.isOk = true := by
  obtain ⟨value, isValue⟩ := Option.isSome_iff_exists.mp known
  rw [body_of_decoded isValue]
  rfl

end Steps

/-- What is looked for in a value, where every error is about the value. -/
def LooksAt {α : Type} (look : Value → Except FileError α) : Prop :=
  ∀ value failure, look value = .error failure → failure.precedesValue = false

theorem methodOf_looksAt : LooksAt methodOf := fun _ _ => not_precedesValue_of_methodOf

theorem disassemble_looksAt : LooksAt fun value => methodOf value >>= MethodRecord.disassemble := by
  intro value failure failed
  dsimp only at failed
  cases isMethod : methodOf value with
  | ok method =>
    rw [isMethod] at failed
    exact not_precedesValue_of_disassemble failed
  | error wrongKind =>
    rw [isMethod] at failed
    cases failed
    exact not_precedesValue_of_methodOf isMethod

section Looks

variable {α : Type} {file : CompiledFile} {look : Value → Except FileError α}

theorem gotPast_body : FileError.gotPast file.body.1 = file.body.1.isOk := by
  cases result : file.body.1 with
  | ok value => rfl
  | error failure =>
    rw [FileError.gotPast, precedesValue_of_body result]
    rfl

theorem gotPast_look (looksAt : LooksAt look) :
    FileError.gotPast (file.body.1 >>= look) = file.body.1.isOk := by
  cases result : file.body.1 with
  | ok value =>
    change FileError.gotPast (look value) = true
    cases found : look value with
    | ok a => rfl
    | error failure =>
      rw [FileError.gotPast, looksAt value failure found]
      rfl
  | error failure =>
    change FileError.gotPast (.error failure) = false
    rw [FileError.gotPast, precedesValue_of_body result]
    rfl

/-- An error in front of the value is the error of the body. -/
theorem look_eq_error_iff (looksAt : LooksAt look) {failure : FileError}
    (early : failure.precedesValue = true) :
    file.body.1 >>= look = .error failure ↔ file.body.1 = .error failure := by
  cases file.body.1 with
  | ok value =>
    constructor
    · intro failed
      have late := looksAt value failure failed
      rw [early] at late
      cases late
    · intro failed
      cases failed
  | error cause =>
    change (.error cause : Except FileError α) = .error failure ↔ _
    rw [Except.error.injEq, Except.error.injEq]

end Looks

section Steps

variable (file : CompiledFile) (access : Access)

theorem method_eq : file.method = (file.body.1 >>= methodOf, file.body.2) := rfl

theorem disassembly_eq : file.method.1 >>= MethodRecord.disassemble =
    file.body.1 >>= fun value => methodOf value >>= MethodRecord.disassemble := by
  rw [method_eq, bind_assoc]

/-- An access touches the body or nothing. -/
theorem access_snd :
    (file.access access).2 = if access.asksBody then file.body.2 else file := by
  cases access <;> rfl

theorem gotPast_access :
    (file.access access).1.gotPast = (access.asksBody && file.body.1.isOk) := by
  cases access with
  | header | rawBody | isDecoded => rfl
  | body => exact gotPast_body
  | method => exact gotPast_look methodOf_looksAt
  | disassembly =>
    change FileError.gotPast (file.method.1 >>= MethodRecord.disassemble) = file.body.1.isOk
    rw [disassembly_eq, gotPast_look disassemble_looksAt]

/-- The file keeps a value from the first access on that has one. -/
theorem isDecoded_access :
    (file.access access).2.isDecoded = (file.isDecoded || (file.access access).1.gotPast) := by
  rw [access_snd, gotPast_access]
  cases access.asksBody with
  | false => rw [if_neg Bool.false_ne_true, Bool.false_and, Bool.or_false]
  | true =>
    rw [if_pos rfl, isDecoded_body, Bool.true_and]
    cases known : file.isDecoded with
    | false => rw [Bool.false_or]
    | true => rw [isOk_body_of_isDecoded known, Bool.true_or]

end Steps

theorem isDecoded_accesses (file : CompiledFile) (history : List Access) :
    (file.accesses history).2.isDecoded =
      (file.isDecoded || (file.accesses history).1.any Answer.gotPast) := by
  induction history generalizing file with
  | nil => rw [accesses, List.any_nil, Bool.or_false]
  | cons first rest inductionHypothesis =>
    rw [accesses]
    dsimp only
    rw [inductionHypothesis, isDecoded_access, List.any_cons, Bool.or_assoc]

/-- The error of an access that needs the body, if it comes up in front of the value. -/
theorem failure_access_iff {file : CompiledFile} {access : Access} {failure : FileError}
    (early : failure.precedesValue = true) :
    (file.access access).1.failure? = some failure ↔
      access.asksBody = true ∧ file.body.1 = .error failure := by
  have named : ∀ {α : Type} (result : Except FileError α) (answer : Except FileError α → Answer),
      (∀ a, (answer (.ok a)).failure? = none) →
      (∀ cause, (answer (.error cause)).failure? = some cause) →
      ((answer result).failure? = some failure ↔ result = .error failure) := by
    intro α result answer ofOk ofError
    cases result with
    | ok a => simp [ofOk]
    | error cause => simp [ofError]
  cases access with
  | header | rawBody | isDecoded => simp [CompiledFile.access, Answer.failure?, Access.asksBody]
  | body =>
    rw [CompiledFile.access, named file.body.1 .body (fun _ => rfl) (fun _ => rfl)]
    simp [Access.asksBody]
  | method =>
    rw [CompiledFile.access, named file.method.1 .method (fun _ => rfl) (fun _ => rfl), method_eq,
      look_eq_error_iff methodOf_looksAt early]
    simp [Access.asksBody]
  | disassembly =>
    rw [CompiledFile.access, named _ .disassembly (fun _ => rfl) (fun _ => rfl), disassembly_eq,
      look_eq_error_iff disassemble_looksAt early]
    simp [Access.asksBody]

/-- What has become of a file: only the value of its body may have been kept. -/
structure Became (file now : CompiledFile) : Prop where
  header : now.header = file.header
  rawBody : now.rawBody = file.rawBody
  config : now.config = file.config
  kept : ∀ value, now.decoded = some value → file.decodeBody = .ok value

namespace Became

variable {file now : CompiledFile}

theorem refl (unread : file.decoded = none) : Became file file := by
  refine ⟨rfl, rfl, rfl, fun value known => ?_⟩
  rw [unread] at known
  cases known

theorem decodeBodyWith_eq (became : Became file now)
    (reader : Nat → List UInt8 → Except ReadError Value) :
    now.decodeBodyWith reader = file.decodeBodyWith reader := by
  rw [decodeBodyWith, decodeBodyWith, verify, verify, became.header, became.rawBody,
    became.config]

theorem decodeBody_eq (became : Became file now) : now.decodeBody = file.decodeBody :=
  became.decodeBodyWith_eq Value.unmarshal

/-- The body is the same as it was at first, whether it is kept or decoded once more. -/
theorem body_eq (became : Became file now) : now.body.1 = file.decodeBody := by
  cases known : now.decoded with
  | some value => rw [body_of_decoded known, became.kept value known]
  | none => rw [body_of_unread known, became.decodeBody_eq]

theorem body (became : Became file now) : Became file now.body.2 := by
  cases known : now.decoded with
  | some value =>
    rw [body_of_decoded known]
    exact became
  | none =>
    have outcome := became.decodeBody_eq
    unfold CompiledFile.body
    rw [known]
    dsimp only
    cases result : now.decodeBody with
    | ok value =>
      refine ⟨became.header, became.rawBody, became.config, fun kept isKept => ?_⟩
      cases isKept
      rw [← outcome, result]
    | error failure => exact became

theorem access (became : Became file now) (access : Access) :
    Became file (now.access access).2 := by
  rw [access_snd]
  split
  · exact became.body
  · exact became

theorem accesses (became : Became file now) (history : List Access) :
    Became file (now.accesses history).2 := by
  induction history generalizing now with
  | nil => exact became
  | cons first rest inductionHypothesis => exact inductionHypothesis (became.access first)

end Became

/-- A file that was just accepted has not been decoded, and it keeps the settings. -/
theorem unread_of_parse {config : Config} {bytes : List UInt8} {file : CompiledFile}
    (parsed : parse config bytes = .ok file) : file.decoded = none ∧ file.config = config := by
  obtain ⟨⟨magic, afterMagic⟩, _, parsed⟩ := except_bind_eq_ok.mp parsed
  obtain ⟨⟨version, afterVersion⟩, _, parsed⟩ := except_bind_eq_ok.mp parsed
  obtain ⟨⟨checksum, body⟩, _, accepted⟩ := except_bind_eq_ok.mp parsed
  dsimp only at accepted
  split at accepted
  · cases accepted
  split at accepted
  · cases accepted
  split at accepted <;> cases accepted
  exact ⟨rfl, rfl⟩

/--
After any accesses the header and the bytes of the body are what they were. The file is decoded if
and only if one of the accesses got as far as the value of the body, and it stays decoded. To ask
for the body gives the same each time. It is the mismatch of the checksum, for any reader of values,
if the body is refused, and what reading the body gives if it is not. An access that fails in front
of the value leaves the file as undecoded as it was, and all later ones that need the body fail like
it.
-/
theorem accesses_of_parse {config : Config} {bytes : List UInt8} {file : CompiledFile}
    (parsed : parse config bytes = .ok file) (history : List Access) :
    let now := (file.accesses history).2
    now.header = file.header ∧ now.rawBody = file.rawBody ∧ file.config = config ∧
    (now.isDecoded = true ↔ ∃ answer ∈ (file.accesses history).1, answer.gotPast = true) ∧
    (now.isDecoded = true → ∀ later, (now.accesses later).2.isDecoded = true) ∧
    (file.IsRefused →
      (now.access .body).1 = .body (.error
        (.checksumMismatch file.header.checksum (checksumOf file.rawBody))) ∧
      ∀ reader, now.decodeBodyWith reader =
        .error (.checksumMismatch file.header.checksum (checksumOf file.rawBody))) ∧
    (¬ file.IsRefused → (now.access .body).1 =
      .body ((Value.unmarshal config.maxDepth file.rawBody).mapError .read)) ∧
    ∀ access failure, (now.access access).1.failure? = some failure →
      failure.precedesValue = true →
      (now.access access).2.isDecoded = false ∧
      ∀ later again, again.asksBody = true →
        (((now.access access).2.accesses later).2.access again).1.failure? = some failure := by
  obtain ⟨unread, settings⟩ := unread_of_parse parsed
  have became : Became file (file.accesses history).2 := (Became.refl unread).accesses history
  have undecoded : file.isDecoded = false := by rw [isDecoded, unread, Option.isSome_none]
  have decodedIff := isDecoded_accesses file history
  have bodyIs : ((file.accesses history).2.access .body).1 = .body file.decodeBody :=
    congrArg Answer.body became.body_eq
  intro now
  refine ⟨became.header, became.rawBody, settings, ?_, ?_, ?_, ?_, ?_⟩
  · rw [decodedIff, undecoded, Bool.false_or, List.any_eq_true]
  · intro known later
    rw [isDecoded_accesses, known, Bool.true_or]
  · intro refused
    refine ⟨?_, fun reader => ?_⟩
    · rw [bodyIs, decodeBody, decodeBodyWith_eq, if_pos refused]
    · rw [became.decodeBodyWith_eq, CompiledFile.decodeBodyWith_eq, if_pos refused]
  · intro accepted
    rw [bodyIs, decodeBody, decodeBodyWith_eq, if_neg accepted, settings]
  · intro access failure failed early
    obtain ⟨asks, bodyFails⟩ := (failure_access_iff early).mp failed
    constructor
    · rw [access_snd, if_pos asks, isDecoded_body, bodyFails]
      rfl
    · intro later again asksAgain
      refine (failure_access_iff early).mpr ⟨asksAgain, ?_⟩
      rw [((became.access access).accesses later).body_eq, ← became.body_eq, bodyFails]

/--
The body is no method, but an access to the method decodes it. With a checksum of one digit the same
body is refused, and so is every later access to the method.
-/
theorem accesses_of_parse_wrong_kind :
    let file : CompiledFile := ⟨⟨"!RBIX", 0, "x"⟩, [116], .default, none⟩
    let refused : CompiledFile := { file with header := ⟨"!RBIX", 0, "0"⟩ }
    let mismatch : FileError := .checksumMismatch "0" (checksumOf [116])
    parse .default [33, 82, 66, 73, 88, 10, 48, 10, 120, 10, 116] = .ok file ∧
      (file.accesses [.isDecoded, .method]).1 = [.isDecoded false, .method (.error (.notMethod "true"))] ∧
      (file.accesses [.isDecoded, .method]).2.isDecoded = true ∧
      ((file.accesses [.isDecoded, .method]).2.access .body).1 = .body (.ok .true) ∧
    parse .default [33, 82, 66, 73, 88, 10, 48, 10, 48, 10, 116] = .ok refused ∧
      refused.IsRefused ∧ ((refused.accesses [.header]).2.access .body).1 = .body (.error mismatch) ∧
      ((((refused.accesses [.header]).2.access .body).2.accesses [.isDecoded]).2.access
        .method).1.failure? = some mismatch := by
  intro file refused mismatch
  have accepts : ∀ {checksum : String} {letter : UInt8}, IsVisible checksum →
      Text.Utf8.encode checksum = [letter] →
      parse .default [33, 82, 66, 73, 88, 10, 48, 10, letter, 10, 116] =
        .ok ⟨⟨"!RBIX", 0, checksum⟩, [116], .default, none⟩ := by
    intro checksum letter visible isLetter
    have magic : Text.Utf8.encode magicLine = [33, 82, 66, 73, 88] := by decide
    have version : Text.Utf8.encode (toString formatVersion) = [48] := by decide
    have lines := parse_lines .default visible [116]
    rw [magic, version, isLetter] at lines
    exact lines
  have parsed : parse .default [33, 82, 66, 73, 88, 10, 48, 10, 120, 10, 116] = .ok file :=
    accepts (by simp [IsVisible]) (by decide)
  have refusedParsed :
      parse .default [33, 82, 66, 73, 88, 10, 48, 10, 48, 10, 116] = .ok refused :=
    accepts (by simp [IsVisible]) (by decide)
  have isTrue : Value.unmarshal 512 [116] = .ok .true := by cbv
  have accepted : ¬ file.IsRefused := fun refusal => refusal.2.1 rfl
  have decoded : file.body.1 = .ok .true := by
    rw [body_of_unread rfl, decodeBody, decodeBodyWith_eq, if_neg accepted]
    exact congrArg (fun result => result.mapError FileError.read) isTrue
  have method : file.method.1 = .error (.notMethod "true") := by
    rw [method_eq, decoded]
    rfl
  have answers : (file.accesses [.isDecoded, .method]).1 =
      [.isDecoded false, .method (.error (.notMethod "true"))] :=
    congrArg (fun answer => [Answer.isDecoded false, .method answer]) method
  have differs : Text.lowerAscii "0" ≠ Text.lowerAscii (checksumOf [116]) := by
    intro same
    have lengths := congrArg String.length same
    rw [checksumOf, lowerAscii_bytesHexadecimal, ← checksumOf, length_checksumOf] at lengths
    exact absurd lengths (by decide)
  have isRefused : refused.IsRefused := ⟨rfl, by decide, differs⟩
  obtain ⟨_, _, _, decodedIff, _, _, body, _⟩ :=
    accesses_of_parse parsed [.isDecoded, .method]
  obtain ⟨_, _, _, _, _, mismatches, _, fails⟩ := accesses_of_parse refusedParsed [.header]
  obtain ⟨refusedBody, _⟩ := mismatches isRefused
  have failed : ((refused.accesses [.header]).2.access .body).1.failure? = some mismatch := by
    rw [refusedBody]
    rfl
  refine ⟨parsed, answers, ?_, ?_, refusedParsed, isRefused, refusedBody, ?_⟩
  · rw [decodedIff, answers]
    exact ⟨_, .tail _ (.head _), rfl⟩
  · rw [body accepted]
    exact congrArg (fun value => Answer.body (value.mapError .read)) isTrue
  · exact (fails .body mismatch failed rfl).2 [.isDecoded] .method rfl

end CompiledFile

end CompiledCode
