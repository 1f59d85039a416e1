import SignatureIndex.CommandLine
import SignatureIndex.Proofs.FileTree
import SignatureIndex.Proofs.TomlSteps
import SignatureIndex.Proofs.Utf8

/-! What becomes of a configuration file. Its settings are accepted, or the file is refused and the
program says so. Three contents are neither: bytes that are no text, a whole number with too many
digits, and tables and lists too deep in each other end the program with the failure itself. How
deep is too deep depends on the room that is left on the stack. -/
namespace SignatureIndex

open Text

namespace Config

/-- What the text of a configuration file can lead to, where there is so much room for tables and
lists in each other. -/
inductive TextOutcome (room : Nat) (path : String) (text : List Char) :
    Except Failure Config → Prop where
  /-- The settings pass the check. -/
  | accepted {fields : Entries Value} {config : Config} (hRead : Toml.read room text = .ok fields)
      (hCheck : ofValue (.record fields) = .ok config) : TextOutcome room path text (.ok config)
  /-- The text is not in the format, however many steps are taken to read it. -/
  | unreadable (hRead : ∀ bound, Toml.stepsFor text ≤ bound →
        Toml.readWithin bound room text = .error .malformed) :
      TextOutcome room path text (.error (.config path .unreadable))
  /-- The settings do not pass the check. -/
  | refused {fields : Entries Value} {fault : ConfigFault}
      (hRead : Toml.read room text = .ok fields)
      (hCheck : ofValue (.record fields) = .error fault) :
      TextOutcome room path text (.error (.config path fault))
  /-- The text holds a whole number with too many digits. -/
  | longNumber {digits : Nat} {run : List Char}
      (hRead : Toml.read room text = .error (.longNumber digits)) (hDigits : 4300 < digits)
      (hRun : Toml.IsRun Toml.isDigit digits run) (hText : run <:+: text) :
      TextOutcome room path text (.error (.longNumber digits))
  /-- The text opens too many lists and tables for the room. -/
  | nesting (hRead : Toml.read room text = .error .nesting)
      (hOpenings : room < 3 * Toml.openings text + 2) :
      TextOutcome room path text (.error .stackOverflow)

namespace TextOutcome

variable {room : Nat} {path : String} {text : List Char} {result : Except Failure Config}

/-- A number ends loading exactly where it ends the reader of the text. -/
theorem longNumber_iff (h : TextOutcome room path text result) (digits : Nat) :
    result = .error (.longNumber digits) ↔ Toml.read room text = .error (.longNumber digits) := by
  cases h with
  | accepted hRead _ => simp [hRead]
  | unreadable hRead =>
      have hMalformed : Toml.read room text = .error .malformed := hRead _ (Nat.le_refl _)
      simp [hMalformed]
  | refused hRead _ => simp [hRead]
  | longNumber hRead _ _ _ => simp [hRead]
  | nesting hRead _ => simp [hRead]

/-- Loading runs out of stack exactly where the reader of the text does. -/
theorem nesting_iff (h : TextOutcome room path text result) :
    result = .error .stackOverflow ↔ Toml.read room text = .error .nesting := by
  cases h with
  | accepted hRead _ => simp [hRead]
  | unreadable hRead =>
      have hMalformed : Toml.read room text = .error .malformed := hRead _ (Nat.le_refl _)
      simp [hMalformed]
  | refused hRead _ => simp [hRead]
  | longNumber hRead _ _ _ => simp [hRead]
  | nesting hRead _ => simp [hRead]

end TextOutcome

section Load

variable {env : Environment} {directory : Path}

/-- Without a file there is the default configuration. -/
theorem load_of_absent (h : env.isFile (directory.child fileName) = .ok false) :
    load env directory = .ok default := by
  simp only [load, h]

/-- A path that the system refuses to look up ends loading. -/
theorem load_of_isFile_error {failure : Failure}
    (h : env.isFile (directory.child fileName) = .error failure) :
    load env directory = .error failure ∧
      ∃ error, Environment.Withholds error ∧
        failure = .file error (directory.child fileName).toString := by
  refine ⟨?_, env.holds_failsOnly _ _ failure h⟩
  simp only [load, h]

/-- A file that cannot be opened is a refused configuration. -/
theorem load_of_readBytes_error {failure : Failure}
    (hFile : env.isFile (directory.child fileName) = .ok true)
    (hBytes : env.readBytes (directory.child fileName) = .error failure) :
    ∃ refusal, failure = .file (.refused refusal) (directory.child fileName).toString ∧
      load env directory = .error (.config (directory.child fileName).toString
        (.unopened (.refused refusal) (directory.child fileName).toString)) := by
  obtain ⟨refusal, rfl⟩ := env.readBytes_of_isFile hFile _ hBytes
  refine ⟨refusal, rfl, ?_⟩
  simp only [load, hFile, hBytes]

/-- Bytes that are no UTF-8 end loading. -/
theorem load_of_undecodable {bytes : List UInt8}
    (hFile : env.isFile (directory.child fileName) = .ok true)
    (hBytes : env.readBytes (directory.child fileName) = .ok bytes)
    (hText : ∀ text, bytes ≠ encodeUtf8 text) : load env directory = .error .undecodable := by
  have hDecode : decodeStrict? bytes = none :=
    Option.eq_none_iff_forall_ne_some.mpr fun text hText' =>
      hText text (decodeStrict?_eq_some_iff.mp hText')
  simp only [load, hFile, hBytes, hDecode]

/-- What loading comes to is decided by the text of the file. -/
theorem textOutcome_load {text : List Char}
    (hFile : env.isFile (directory.child fileName) = .ok true)
    (hBytes : env.readBytes (directory.child fileName) = .ok (encodeUtf8 text)) :
    TextOutcome env.stack.settings (directory.child fileName).toString text
      (load env directory) := by
  have hDecode : decodeStrict? (encodeUtf8 text) = some text := decodeStrict?_eq_some_iff.mpr rfl
  simp only [load, hFile, hBytes, hDecode]
  cases hRead : Toml.read env.stack.settings text with
  | ok fields =>
      cases hCheck : ofValue (.record fields) with
      | ok config => simpa [hCheck] using TextOutcome.accepted hRead hCheck
      | error fault => simpa [hCheck] using TextOutcome.refused hRead hCheck
  | error fault =>
      have hExplained := Toml.read_explained _ text fault hRead
      cases fault with
      | malformed =>
          exact .unreadable fun bound hBound => (Toml.readWithin_eq_read _ hBound).trans hRead
      | longNumber digits =>
          obtain ⟨hDigits, run, hText, hRun⟩ := hExplained
          exact .longNumber hRead hDigits hRun hText
      | nesting => exact .nesting hRead hExplained

/-- A text leads to a single outcome, so none is undecodable. -/
theorem load_undecodable_iff {bytes : List UInt8}
    (hFile : env.isFile (directory.child fileName) = .ok true)
    (hBytes : env.readBytes (directory.child fileName) = .ok bytes) :
    load env directory = .error .undecodable ↔ ∀ text, bytes ≠ encodeUtf8 text := by
  constructor
  · rintro hLoad text rfl
    have hOutcome := textOutcome_load hFile hBytes
    rw [hLoad] at hOutcome
    cases hOutcome
  · exact load_of_undecodable hFile hBytes

end Load

end Config

namespace CommandLine

open Config (load fileName TextOutcome)

section Run

variable {env : Environment} {arguments : Arguments} {root : String} {directory : Path}

theorem loadConfig_eq (hRoot : arguments.configRoot = .text root)
    (hDirectory : env.resolveHome (.ofString root) = .ok directory) :
    loadConfig env arguments.configRoot = load env directory := by
  rw [hRoot, loadConfig, hDirectory]

/-- A refused configuration is printed and ends the run in an error. -/
theorem run_of_refused {path : String} {fault : ConfigFault}
    (h : loadConfig env arguments.configRoot = .error (.config path fault)) :
    run env arguments = ⟨.ok exitError, [.refused path fault], env⟩ := by
  rw [run, h]

/-- Any other failure to load a configuration ends the run without a word. -/
theorem run_of_escaping {failure : Failure} (hOther : ∀ path fault, failure ≠ .config path fault)
    (h : loadConfig env arguments.configRoot = .error failure) :
    run env arguments = ⟨.error failure, [], env⟩ := by
  unfold run
  rw [h]
  split
  · next path fault hRefused => exact absurd (Except.error.inj hRefused) (hOther path fault)
  · next other _ hFailure => rw [Except.error.inj hFailure]
  · next hOk => cases hOk

end Run

/-- What becomes of the configuration of a directory, and of the program run with it. Without a
file the defaults apply. A path that is too long to be looked at, or may not be, is a failure of its
own; a file that cannot be opened is refused. The bytes of a file are undecodable exactly if they
are those of no text. A text is accepted or refused, unless it has a run of more than 4300 digits or
opens more lists and tables than there is room for on the stack. One digit more than 4300 is too
many, and any room is used up by tables deep enough in each other. The program goes on with what is
accepted, ends with the code two and one line for what is refused, and ends with the failure itself
for everything else. -/
theorem config_answered_unless_escaping (env : Environment) (directory : Path) :
    (env.isFile (directory.child fileName) = .ok false →
      load env directory = .ok .default ∧ Config.ofValue (.record []) = .ok .default) ∧
    (∀ failure, env.isFile (directory.child fileName) = .error failure →
      load env directory = .error failure ∧ ∃ error, Environment.Withholds error ∧
        failure = .file error (directory.child fileName).toString) ∧
    (env.isFile (directory.child fileName) = .ok true →
      (∀ failure, env.readBytes (directory.child fileName) = .error failure →
        ∃ refusal, failure = .file (.refused refusal) (directory.child fileName).toString ∧
          load env directory = .error (.config (directory.child fileName).toString
            (.unopened (.refused refusal) (directory.child fileName).toString))) ∧
      ∀ bytes, env.readBytes (directory.child fileName) = .ok bytes →
        (load env directory = .error .undecodable ↔ ∀ text, bytes ≠ encodeUtf8 text) ∧
        ∀ text, bytes = encodeUtf8 text →
          TextOutcome env.stack.settings (directory.child fileName).toString text
            (load env directory) ∧
          (∀ count, text = Toml.setting (List.replicate count '9') →
            (load env directory = .error (.longNumber count) ↔ 4300 < count)) ∧
          ∀ depth, text = Toml.setting (Toml.nestedTables depth) → env.stack.settings < depth →
            load env directory = .error .stackOverflow) ∧
    ∀ (arguments : Arguments) (root : String), arguments.configRoot = .text root →
      env.resolveHome (.ofString root) = .ok directory →
      (∀ config, load env directory = .ok config →
        run env arguments = runCommand env (.start config .empty) arguments.command) ∧
      (∀ path fault, load env directory = .error (.config path fault) →
        run env arguments = ⟨.ok 2, [.refused path fault], env⟩ ∧
          ∀ verbose, (Emission.refused path fault).errText verbose =
            "error: " ++ (Failure.config path fault).message ++ "\n") ∧
      ∀ failure, load env directory = .error failure →
        (∀ path fault, failure ≠ .config path fault) →
        run env arguments = ⟨.error failure, [], env⟩ := by
  refine ⟨fun hAbsent => ⟨Config.load_of_absent hAbsent, rfl⟩,
    fun failure hFailure => Config.load_of_isFile_error hFailure, fun hFile => ?_, ?_⟩
  · refine ⟨fun failure hBytes => Config.load_of_readBytes_error hFile hBytes,
      fun bytes hBytes => ⟨Config.load_undecodable_iff hFile hBytes, ?_⟩⟩
    rintro text rfl
    have hOutcome := Config.textOutcome_load hFile hBytes
    refine ⟨hOutcome, ?_, ?_⟩
    · rintro count rfl
      rw [hOutcome.longNumber_iff, Toml.read_nines_iff]
    · rintro depth rfl hDeep
      refine hOutcome.nesting_iff.mpr (Toml.read_nestedTables ?_ (by omega))
      simp only [Toml.tableRoom, Toml.spareRoom]
      omega
  · intro arguments root hRoot hDirectory
    rw [← loadConfig_eq hRoot hDirectory]
    refine ⟨fun config hLoad => ?_, fun path fault hLoad => ⟨run_of_refused hLoad, fun _ => rfl⟩,
      fun failure hLoad hOther => run_of_escaping hOther hLoad⟩
    rw [run, hLoad]

/-- A directory with nothing but a configuration file. -/
def holdingSettings (bytes : List UInt8) : Environment where
  tree := .ofEntries [([fileName], .file bytes)]
  working := []
  stands := rfl

/-- A line without a key is refused, with the code two. -/
theorem keyless_settings_refused :
    run (holdingSettings (encodeUtf8 ['='])) ⟨.text "/", false, .listFiles none⟩ =
      ⟨.ok 2, [.refused "/zscript.toml" .unreadable], holdingSettings (encodeUtf8 ['='])⟩ := by
  obtain ⟨hDirectory, hLoad⟩ :
      (holdingSettings (encodeUtf8 ['='])).resolveHome (.ofString "/") = .ok (.ofString "/") ∧
        load (holdingSettings (encodeUtf8 ['='])) (.ofString "/") =
          .error (.config "/zscript.toml" .unreadable) := by
    decide +kernel
  obtain ⟨-, -, -, hRun⟩ := config_answered_unless_escaping (holdingSettings (encodeUtf8 ['=']))
    (.ofString "/")
  exact ((hRun ⟨.text "/", false, .listFiles none⟩ "/" rfl hDirectory).2.1 _ _ hLoad).1

/-- A byte that no text has ends the program with a failure: no exit code, and no line. -/
theorem undecodable_settings_escape :
    load (holdingSettings [0xFF]) (.ofString "/") = .error .undecodable ∧
      (run (holdingSettings [0xFF]) ⟨.text "/", false, .listFiles none⟩).exit =
        .error .undecodable ∧
      (run (holdingSettings [0xFF]) ⟨.text "/", false, .listFiles none⟩).emissions = [] := by
  decide +kernel

end CommandLine

end SignatureIndex
