import CompiledCode.Proofs.Archive.Header
import CompiledCode.Proofs.Bytes.Delimiting
import CompiledCode.Proofs.Text.Fields
import CompiledCode.Proofs.Text.Utf8Acceptance
import Mathlib.Data.List.Basic

/-!
Which bytes are accepted as a file, and which fault each of the others has. The faults are ordered:
a line that is missing or no text comes before anything that the lines say, and of what they say the
magic comes before the version. The body is kept as it is and plays no part.
-/

namespace CompiledCode.CompiledFile

/-- The bytes of one line are a text, and without the blanks around it this is what it says. -/
def Reads (line : List UInt8) (text : String) : Prop :=
  10 ∉ line ∧ ∃ whole, Text.Utf8.encode whole = line ∧ Text.IsTrimmed whole.toList text.toList

/-- The fault of the first line for the fields that is missing or that is no text. -/
inductive Stops : List HeaderField → List UInt8 → FileError → Prop
  | missing {field : HeaderField} {fields : List HeaderField} {bytes : List UInt8}
      (noFeed : 10 ∉ bytes) : Stops (field :: fields) bytes (.missingLine field)
  | garbled {field : HeaderField} {fields : List HeaderField} {line rest : List UInt8}
      (noFeed : 10 ∉ line) (noText : ∀ text, Text.Utf8.encode text ≠ line) :
      Stops (field :: fields) (line ++ 10 :: rest) (.invalidText field)
  | later {field : HeaderField} {fields : List HeaderField} {line rest : List UInt8} {text : String}
      {fault : FileError} (reads : Reads line text) (stops : Stops fields rest fault) :
      Stops (field :: fields) (line ++ 10 :: rest) fault

/-- The bytes start with lines that say these texts, and the body is all that follows them. -/
inductive Shows : List String → List UInt8 → List UInt8 → Prop
  | body {bytes : List UInt8} : Shows [] bytes bytes
  | line {text : String} {texts : List String} {line rest body : List UInt8}
      (reads : Reads line text) (shows : Shows texts rest body) :
      Shows (text :: texts) (line ++ 10 :: rest) body

/-- The file that the bytes hold, or their fault. -/
inductive Answers (config : Config) (bytes : List UInt8) : Except FileError CompiledFile → Prop
  | stops {fault : FileError} (stops : Stops [.magic, .version, .checksum] bytes fault) :
      Answers config bytes (.error fault)
  | otherMagic {magic version checksum : String} {body : List UInt8}
      (lines : Shows [magic, version, checksum] bytes body) (other : magic ≠ "!RBIX") :
      Answers config bytes (.error (.unsupportedMagic magic))
  | noNumber {version checksum : String} {body : List UInt8}
      (lines : Shows ["!RBIX", version, checksum] bytes body)
      (nameless : ∀ value, ¬ Text.Names version.toList value) :
      Answers config bytes (.error (.invalidVersion version))
  | otherFormat {version checksum : String} {body : List UInt8} {value : UInt64}
      (lines : Shows ["!RBIX", version, checksum] bytes body)
      (names : Text.Names version.toList value) (other : value ≠ 0) :
      Answers config bytes (.error (.unsupportedFormat value))
  | accepted {version checksum : String} {body : List UInt8}
      (lines : Shows ["!RBIX", version, checksum] bytes body)
      (names : Text.Names version.toList 0) :
      Answers config bytes (.ok ⟨⟨"!RBIX", 0, checksum⟩, body, config, none⟩)

theorem judge_magic (config : Config) (version checksum : String) (body : List UInt8) :
    judge config "!RBIX" version checksum body =
      match Text.word? version.toList with
      | none => .error (.invalidVersion version)
      | some value =>
        if value ≠ 0 then .error (.unsupportedFormat value)
        else .ok ⟨⟨"!RBIX", value, checksum⟩, body, config, none⟩ := if_neg (not_not.mpr rfl)

section Lines

variable {field : HeaderField} {line bytes : List UInt8} {text : String}

theorem lineText_eq_ok (reads : Reads line text) : lineText field line = .ok text := by
  obtain ⟨-, whole, isLine, trimmed⟩ := reads
  rw [lineText, Text.Utf8.decode?_eq_some_iff.mpr isLine]
  dsimp only
  rw [Text.trim_eq_iff.mpr trimmed, String.ofList_toList]

theorem lineText_eq_error (noText : ∀ text, Text.Utf8.encode text ≠ line) :
    lineText field line = .error (.invalidText field) := by
  rw [lineText]
  split
  · rfl
  · rename_i text isText
    exact absurd (Text.Utf8.decode?_eq_some_iff.mp isText) (noText text)

theorem headerLine_missing (noFeed : 10 ∉ bytes) (start : Nat) :
    headerLine field ⟨start, bytes⟩ = .error (.missingLine field) := by
  have unfinished := Read.line_unfinished start fun letter member same => noFeed (same ▸ member)
  rw [headerLine, unfinished]

/-- Some line for the fields is missing or no text, or every one of them is there. -/
theorem stops_or_shows (fields : List HeaderField) (bytes : List UInt8) :
    (∃ fault, Stops fields bytes fault) ∨
      ∃ texts body, texts.length = fields.length ∧ Shows texts bytes body := by
  induction fields generalizing bytes with
  | nil => exact .inr ⟨[], bytes, rfl, .body⟩
  | cons field fields inductionHypothesis =>
    by_cases feed : 10 ∈ bytes
    · obtain ⟨line, rest, rfl, noFeed⟩ := List.eq_append_cons_of_mem feed
      by_cases isText : ∃ whole, Text.Utf8.encode whole = line
      · obtain ⟨whole, isLine⟩ := isText
        have reads : Reads line (String.ofList (Text.trim whole.toList)) := by
          refine ⟨noFeed, whole, isLine, ?_⟩
          rw [String.toList_ofList]
          exact Text.isTrimmed_trim whole.toList
        rcases inductionHypothesis rest with ⟨fault, stops⟩ | ⟨texts, body, count, shows⟩
        · exact .inl ⟨fault, .later reads stops⟩
        · exact .inr ⟨_ :: texts, body, congrArg (· + 1) count, .line reads shows⟩
      · exact .inl ⟨_, .garbled noFeed (not_exists.mp isText)⟩
    · exact .inl ⟨_, .missing feed⟩

end Lines

section Files

variable {config : Config} {bytes : List UInt8} {result : Except FileError CompiledFile}

/-- The fault of the first bad line is the fault of the header. -/
theorem headerLine_bind_of_stops {α : Type} {field : HeaderField} {fields : List HeaderField}
    {fault : FileError} {next : String × Cursor → Except FileError α} (start : Nat)
    (stops : Stops (field :: fields) bytes fault)
    (later : ∀ text start rest, Stops fields rest fault →
      next (text, ⟨start, rest⟩) = .error fault) :
    (headerLine field ⟨start, bytes⟩ >>= next) = .error fault := by
  cases stops with
  | missing noFeed =>
    rw [headerLine_missing noFeed]
    rfl
  | garbled noFeed noText =>
    rw [headerLine_feed noFeed, lineText_eq_error noText]
    rfl
  | later reads stops =>
    rw [headerLine_feed reads.1, lineText_eq_ok reads]
    exact later _ _ _ stops

theorem parse_of_stops {fault : FileError}
    (stops : Stops [.magic, .version, .checksum] bytes fault) : parse config bytes = .error fault := by
  refine headerLine_bind_of_stops 0 stops fun magic start rest stops => ?_
  refine headerLine_bind_of_stops start stops fun version start rest stops => ?_
  refine headerLine_bind_of_stops start stops fun checksum start rest stops => ?_
  cases stops

theorem parse_of_shows {magic version checksum : String} {body : List UInt8}
    (lines : Shows [magic, version, checksum] bytes body) :
    parse config bytes = judge config magic version checksum body := by
  rcases lines with _ | ⟨readsMagic, _ | ⟨readsVersion, _ | ⟨readsChecksum, _ | _⟩⟩⟩
  rw [parse_feeds config readsMagic.1 readsVersion.1 readsChecksum.1, lineText_eq_ok readsMagic,
    lineText_eq_ok readsVersion, lineText_eq_ok readsChecksum]
  rfl

theorem parse_of_answers (answers : Answers config bytes result) : parse config bytes = result := by
  cases answers with
  | stops stops => exact parse_of_stops stops
  | otherMagic lines other => exact (parse_of_shows lines).trans (if_pos other)
  | noNumber lines nameless =>
    have noWord := Option.eq_none_iff_forall_ne_some.mpr fun value isWord =>
      nameless value (Text.word?_eq_some_iff.mp isWord)
    rw [parse_of_shows lines, judge_magic, noWord]
  | otherFormat lines names other =>
    rw [parse_of_shows lines, judge_magic, Text.word?_eq_some_iff.mpr names]
    exact if_pos other
  | accepted lines names =>
    rw [parse_of_shows lines, judge_magic, Text.word?_eq_some_iff.mpr names]
    rfl

theorem answers_parse (config : Config) (bytes : List UInt8) :
    Answers config bytes (parse config bytes) := by
  rcases stops_or_shows [.magic, .version, .checksum] bytes with
    ⟨fault, stops⟩ | ⟨texts, body, count, shows⟩
  · rw [parse_of_stops stops]
    exact .stops stops
  · obtain ⟨magic, version, checksum, rfl⟩ := List.length_eq_three.mp count
    rw [parse_of_shows shows, judge]
    split
    · rename_i other
      exact .otherMagic shows other
    · rename_i same
      obtain rfl := not_not.mp same
      split
      · rename_i noWord
        exact .noNumber shows fun value names =>
          absurd (Text.word?_eq_some_iff.mpr names) (by simp [noWord])
      · rename_i value isWord
        have names := Text.word?_eq_some_iff.mp isWord
        split
        · rename_i other
          exact .otherFormat shows names other
        · rename_i zero
          obtain rfl := not_not.mp zero
          exact .accepted shows names

theorem judge_body (config : Config) (magic version checksum : String) (body other : List UInt8) :
    judge config magic version checksum other =
      (judge config magic version checksum body).map fun file => { file with rawBody := other } := by
  unfold judge
  split
  · rfl
  · split
    · rfl
    · split <;> rfl

/-- Behind the same three lines every body meets the same fault, or is kept as it is. -/
theorem parse_body (config : Config) {first second third : List UInt8} (noFirst : 10 ∉ first)
    (noSecond : 10 ∉ second) (noThird : 10 ∉ third) (body other : List UInt8) :
    parse config (first ++ 10 :: (second ++ 10 :: (third ++ 10 :: other))) =
      (parse config (first ++ 10 :: (second ++ 10 :: (third ++ 10 :: body)))).map
        fun file => { file with rawBody := other } := by
  rw [parse_feeds config noFirst noSecond noThird, parse_feeds config noFirst noSecond noThird]
  cases lineText .magic first with
  | error fault => rfl
  | ok magic =>
    cases lineText .version second with
    | error fault => rfl
    | ok version =>
      cases lineText .checksum third with
      | error fault => rfl
      | ok checksum => exact judge_body config magic version checksum body other

theorem fault_of_stops {fields : List HeaderField} {fault : FileError}
    (stops : Stops fields bytes fault) :
    ∃ field, fault = .missingLine field ∨ fault = .invalidText field := by
  induction stops with
  | missing => exact ⟨_, .inl rfl⟩
  | garbled => exact ⟨_, .inr rfl⟩
  | later _ _ inductionHypothesis => exact inductionHypothesis

/-- Neither the body nor its checksum is looked at, so they are never at fault. -/
theorem fault_of_answers {fault : FileError} (answers : Answers config bytes (.error fault)) :
    (∀ cause, fault ≠ .read cause) ∧
      ∀ expected actual, fault ≠ .checksumMismatch expected actual := by
  cases answers with
  | stops stops =>
    obtain ⟨field, rfl | rfl⟩ := fault_of_stops stops
    · simp
    · simp
  | otherMagic => simp
  | noNumber => simp
  | otherFormat => simp

/--
Every input is answered by its header alone. Behind the same three lines the answer is the same with
any body, which is kept as it is and is never at fault.
-/
theorem header_acceptance_is_exact (config : Config) (bytes : List UInt8) :
    (∀ result, parse config bytes = result ↔ Answers config bytes result) ∧
    (∀ first second third body other : List UInt8, 10 ∉ first → 10 ∉ second → 10 ∉ third →
      bytes = first ++ 10 :: (second ++ 10 :: (third ++ 10 :: body)) →
      parse config (first ++ 10 :: (second ++ 10 :: (third ++ 10 :: other))) =
        (parse config bytes).map fun file => { file with rawBody := other }) ∧
    (∀ cause, parse config bytes ≠ .error (.read cause)) ∧
    ∀ expected actual, parse config bytes ≠ .error (.checksumMismatch expected actual) := by
  have answers := answers_parse config bytes
  refine ⟨?_, ?_, ?_, ?_⟩
  · intro result
    constructor
    · rintro rfl
      exact answers
    · exact parse_of_answers
  · rintro first second third body other noFirst noSecond noThird rfl
    exact parse_body config noFirst noSecond noThird body other
  · intro cause failed
    rw [failed] at answers
    exact (fault_of_answers answers).1 cause rfl
  · intro expected actual failed
    rw [failed] at answers
    exact (fault_of_answers answers).2 expected actual rfl

/--
A header with blanks and a plus sign is accepted with two bodies, one of which goes on with a line
feed. Where both the magic and the version are wrong, the magic is the fault.
-/
theorem header_acceptance_is_exact_blanks :
    let first : List UInt8 := [32, 33, 82, 66, 73, 88, 13]
    let lines (body : List UInt8) := first ++ 10 :: ([43, 48] ++ 10 :: ([120] ++ 10 :: body))
    parse .default (lines [10, 255]) = .ok ⟨⟨"!RBIX", 0, "x"⟩, [10, 255], .default, none⟩ ∧
      parse .default (lines [116]) = .ok ⟨⟨"!RBIX", 0, "x"⟩, [116], .default, none⟩ ∧
      parse .default ([33, 88] ++ 10 :: ([122] ++ 10 :: ([120] ++ 10 :: [116]))) =
        .error (.unsupportedMagic "!X") := by
  intro first lines
  have readsMagic : Reads first "!RBIX" :=
    ⟨by decide, " !RBIX\r", by decide, Text.trim_eq_iff.mp (by decide)⟩
  have readsVersion : Reads [43, 48] "+0" :=
    ⟨by decide, "+0", by decide, Text.trim_eq_iff.mp (by decide)⟩
  have readsChecksum : Reads [120] "x" :=
    ⟨by decide, "x", by decide, Text.trim_eq_iff.mp (by decide)⟩
  have zero : Text.Names "+0".toList 0 := Text.word?_eq_some_iff.mp (by decide)
  have accepted : parse .default (lines [10, 255]) = .ok _ :=
    ((header_acceptance_is_exact .default (lines [10, 255])).1 _).mpr
      (.accepted (.line readsMagic (.line readsVersion (.line readsChecksum .body))) zero)
  have same := (header_acceptance_is_exact .default (lines [10, 255])).2.1 first [43, 48] [120]
    [10, 255] [116] (by decide) (by decide) (by decide) rfl
  rw [accepted] at same
  have readsOther : Reads [33, 88] "!X" :=
    ⟨by decide, "!X", by decide, Text.trim_eq_iff.mp (by decide)⟩
  have readsLetter : Reads [122] "z" :=
    ⟨by decide, "z", by decide, Text.trim_eq_iff.mp (by decide)⟩
  exact ⟨accepted, same, ((header_acceptance_is_exact .default _).1 _).mpr
    (.otherMagic (.line readsOther (.line readsLetter (.line readsChecksum .body))) (by decide))⟩

end Files

end CompiledCode.CompiledFile
