import CompiledCode.Archive.CompiledFile
import CompiledCode.Proofs.Bytes.Hexadecimal
import CompiledCode.Proofs.Bytes.Reading
import CompiledCode.Proofs.Float.LineRoundTrip

/-!
The header of a file is three lines, and all that follows them is the body, whatever bytes it has.
Each line is a text of its own, and what they say is judged when all three are there.
-/

namespace CompiledCode.CompiledFile

/-- What a line of the header says, and its fault when it is no text. -/
def lineText (field : HeaderField) (line : List UInt8) : Except FileError String :=
  match Text.Utf8.decode? line with
  | none => .error (.invalidText field)
  | some text => .ok (String.ofList (Text.trim text.toList))

/-- What three lines and a body make, once every line is known to be a text. -/
def judge (config : Config) (magic version checksum : String) (body : List UInt8) :
    Except FileError CompiledFile :=
  if magic ≠ magicLine then .error (.unsupportedMagic magic)
  else match Text.word? version.toList with
    | none => .error (.invalidVersion version)
    | some value =>
      if value ≠ formatVersion then .error (.unsupportedFormat value)
      else .ok ⟨⟨magic, value, checksum⟩, body, config, none⟩

/-- What a line says depends on nothing behind its line feed. -/
theorem headerLine_feed {field : HeaderField} {line : List UInt8} (noFeed : 10 ∉ line) (start : Nat)
    (rest : List UInt8) :
    headerLine field ⟨start, line ++ 10 :: rest⟩ =
      (lineText field line).map fun text => (text, ⟨start + (line ++ [10]).length, rest⟩) := by
  have taken := Read.line_accepts (fun letter member same => noFeed (same ▸ member)) start rest
  rw [List.append_assoc, List.singleton_append] at taken
  rw [headerLine, taken, lineText]
  dsimp only
  cases Text.Utf8.decode? line <;> rfl

/-- The lines are looked at in order, and only then what they say. -/
theorem parse_feeds (config : Config) {first second third : List UInt8} (noFirst : 10 ∉ first)
    (noSecond : 10 ∉ second) (noThird : 10 ∉ third) (body : List UInt8) :
    parse config (first ++ 10 :: (second ++ 10 :: (third ++ 10 :: body))) = (do
      let magic ← lineText .magic first
      let version ← lineText .version second
      let checksum ← lineText .checksum third
      judge config magic version checksum body) := by
  rw [parse, Cursor.ofBytes, headerLine_feed noFirst]
  cases lineText .magic first with
  | error fault => rfl
  | ok magic =>
    simp only [Except.map, bind, Except.bind]
    rw [headerLine_feed noSecond]
    cases lineText .version second with
    | error fault => rfl
    | ok version =>
      simp only [Except.map]
      rw [headerLine_feed noThird]
      cases lineText .checksum third with
      | error fault => rfl
      | ok checksum => rfl

/-- A text of visible ASCII characters, which a line of the header keeps as it is. -/
def IsVisible (text : String) : Prop := ∀ c ∈ text.toList, 32 < c.toNat ∧ c.toNat < 127

section Visible

variable {text : String}

theorem IsVisible.no_feed (visible : IsVisible text) : 10 ∉ Text.Utf8.encode text := by
  have plain : Binary64.IsPlain text.toList := by
    intro c member
    obtain ⟨low, high⟩ := visible c member
    refine ⟨by omega, ?_⟩
    rintro rfl
    exact absurd low (by decide)
  have noFeed := Binary64.encode_isPlain plain
  rw [String.ofList_toList] at noFeed
  exact fun member => noFeed 10 member rfl

theorem IsVisible.lineText (visible : IsVisible text) (field : HeaderField) :
    lineText field (Text.Utf8.encode text) = .ok text := by
  have noBlank : ∀ c ∈ text.toList, Text.isBlank c = false := by
    intro c member
    obtain ⟨low, high⟩ := visible c member
    exact Text.not_isBlank_of_toNat low high
  rw [CompiledFile.lineText, Text.Utf8.decode?_encode]
  dsimp only
  rw [Text.trim_of_not_isBlank noBlank, String.ofList_toList]

theorem checksumOf_isVisible (body : List UInt8) : IsVisible (checksumOf body) :=
  fun _ member => visible_of_mem_bytesHexadecimal member

end Visible

/-- The first three line feeds end the header, and the body may hold any others. -/
theorem parse_lines (config : Config) {checksum : String} (visible : IsVisible checksum)
    (body : List UInt8) :
    parse config (Text.Utf8.encode magicLine ++ 10 ::
        (Text.Utf8.encode (toString formatVersion) ++ 10 ::
          (Text.Utf8.encode checksum ++ 10 :: body))) =
      .ok ⟨⟨magicLine, formatVersion, checksum⟩, body, config, none⟩ := by
  have magicVisible : IsVisible magicLine := by simp [IsVisible, magicLine]
  have versionVisible : IsVisible (toString formatVersion) := by
    have zero : (toString formatVersion).toList = ['0'] := by decide
    simp [IsVisible, zero]
  have version : Text.word? (toString formatVersion).toList = some formatVersion := by decide
  rw [parse_feeds config magicVisible.no_feed versionVisible.no_feed visible.no_feed,
    magicVisible.lineText, versionVisible.lineText, visible.lineText]
  simp only [bind, Except.bind, judge, version, ne_eq, not_true_eq_false, if_false]

end CompiledCode.CompiledFile
