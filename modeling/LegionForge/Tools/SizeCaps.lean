import LegionForge.Lib.Utf8
import LegionForge.Tools.Charts

/-!
# The size caps of the tools

Four tools keep at most so much of what they have read. `file_read` cuts the bytes and
decodes what is left, `http_get` and `http_post` cut the characters of the response, and
`code_execute` measures the bytes of its output and cuts the characters.

`capped_iff` says for which contents each cap is a cap in bytes and the reply says so.
-/

namespace LegionForge.Tools

open LegionForge.Security Utf8

/-- What the tools read of `settings.tools`. -/
structure CapSettings where
  maxFileReadBytes : Nat
  maxResponseBytes : Nat
  sandboxMaxOutputBytes : Nat
  sandboxMaxChartBytes : Int
  sandboxTimeoutSeconds : Nat

/-- What a tool keeps before sanitisation, and whether its reply says that there was more. -/
structure Kept where
  text : String
  truncated : Bool
  deriving DecidableEq

/-- `text[:limit]` -/
def slice (limit : Nat) (text : String) : String := String.ofList (text.toList.take limit)

section
variable (u : Unicode) (cfg : CapSettings)

/-! ## `file_read` -/

/-- The bytes of the file, cut and decoded; `none` if that raises. -/
def fileReadKept (rawBytes : ByteArray) : Option Kept :=
  (String.fromUTF8? (rawBytes.extract 0 cfg.maxFileReadBytes)).map fun rawText =>
    ⟨rawText, cfg.maxFileReadBytes < rawBytes.size⟩

/-- The reply of `file_read` for a file whose bytes are read. -/
def fileReadReply (rawBytes : ByteArray) : String :=
  match fileReadKept cfg rawBytes with
  | none => "[file_read] File is not valid UTF-8 text."
  | some kept =>
    let suffix := if kept.truncated then
        s!"\n[file_read] Output truncated at {cfg.maxFileReadBytes} bytes."
      else ""
    (sanitizeOutput u kept.text).1 ++ suffix

/-! ## `http_get` and `http_post` -/

/-- `resp.text[:max_bytes]` -/
def responseKept (text : String) : Kept := ⟨slice cfg.maxResponseBytes text, false⟩

def httpGetKept (text : String) : Kept := responseKept cfg text

def httpPostKept (text : String) : Kept := responseKept cfg text

/-- The reply for a response that came. -/
def responseReply (text : String) : String := (sanitizeOutput u (responseKept cfg text).text).1

/-! ## `code_execute` -/

/-- The decoded output of the sandbox. -/
def combinedOutput (stdout stderr : ByteArray) : String :=
  decodeReplace (stdout ++ ⟨#[10]⟩ ++ stderr)

/-- The output with a summary in place of each chart: the charts do not count for the cap. -/
def codeText (stdout stderr : ByteArray) : String :=
  (extractCharts u cfg.sandboxMaxChartBytes (combinedOutput stdout stderr)).1

def codeKept (stdout stderr : ByteArray) : Kept :=
  let combined := codeText u cfg stdout stderr
  if cfg.sandboxMaxOutputBytes < combined.utf8ByteSize then
    ⟨slice cfg.sandboxMaxOutputBytes combined, true⟩
  else ⟨combined, false⟩

/-- How the sandbox comes back. -/
inductive SandboxEnd where
  | dockerUnavailable
  | timedOut
  | binaryNotFound
  | osError (name : String)
  | exited (stdout stderr : ByteArray) (exitCode : Option Int)

/-- The reply of `code_execute`. -/
def codeExecuteReply : SandboxEnd → String
  | .dockerUnavailable => "[code_execute] Docker is not available on this host."
  | .timedOut => s!"[code_execute] Timed out after {cfg.sandboxTimeoutSeconds}s."
  | .binaryNotFound => "[code_execute] Docker binary not found."
  | .osError name => s!"[code_execute] Failed to start container: {name}"
  | .exited stdout stderr exitCode =>
    let kept := codeKept u cfg stdout stderr
    let notice := if kept.truncated then
        s!"\n[code_execute] Output truncated at {cfg.sandboxMaxOutputBytes} bytes."
      else ""
    let cleanOut := (sanitizeOutput u (kept.text ++ notice)).1
    match exitCode with
    | none => cleanOut
    | some code => if code = 0 then cleanOut else s!"[code_execute] Exit code {code}:\n{cleanOut}"

/-! ## What a cap is to be -/

/-- A tool with what it reads. -/
inductive CapRun where
  | fileRead (file : String)
  | httpGet (text : String)
  | httpPost (text : String)
  | codeExecute (stdout stderr : ByteArray)

/-- The text that the cap is for. -/
def CapRun.content : CapRun → String
  | .fileRead file => file
  | .httpGet text | .httpPost text => text
  | .codeExecute stdout stderr => codeText u cfg stdout stderr

def CapRun.limit : CapRun → Nat
  | .fileRead _ => cfg.maxFileReadBytes
  | .httpGet _ | .httpPost _ => cfg.maxResponseBytes
  | .codeExecute _ _ => cfg.sandboxMaxOutputBytes

/-- What the tool keeps, `none` where it reports that this is no text. -/
def CapRun.kept : CapRun → Option Kept
  | .fileRead file => fileReadKept cfg file.toByteArray
  | .httpGet text => some (httpGetKept cfg text)
  | .httpPost text => some (httpPostKept cfg text)
  | .codeExecute stdout stderr => some (codeKept u cfg stdout stderr)

/-- The tool announces what it leaves out. -/
def CapRun.announces : CapRun → Bool
  | .fileRead _ | .codeExecute _ _ => true
  | .httpGet _ | .httpPost _ => false

/-- A beginning of the content within the limit in bytes is kept, and what is left out is
announced by the tools that do. -/
def Capped (run : CapRun) : Prop :=
  ∃ kept, run.kept u cfg = some kept ∧
    kept.text.toList <+: (run.content u cfg).toList ∧
    kept.text.utf8ByteSize ≤ run.limit cfg ∧
    (run.announces = true →
      (kept.truncated = true ↔ run.limit cfg < (run.content u cfg).utf8ByteSize))

/-- Where more than the content fits the limit in bytes: for a file, between two of its
characters; else, where all that is kept is of one byte each. -/
def CutFits (run : CapRun) : Prop :=
  match run with
  | .fileRead file => ∃ t : String, t.toList <+: file.toList ∧ t.utf8ByteSize = run.limit cfg
  | _ => ∀ c ∈ (run.content u cfg).toList.take (run.limit cfg), c.utf8Size = 1

end

section
variable {u : Unicode} {cfg : CapSettings}

/-! ## Cut by bytes -/

theorem fileRead_capped_iff (file : String) :
    Capped u cfg (.fileRead file) ↔
      file.utf8ByteSize ≤ cfg.maxFileReadBytes ∨ CutFits u cfg (.fileRead file) := by
  show _ ↔ _ ∨ ∃ t : String, t.toList <+: file.toList ∧ t.utf8ByteSize = cfg.maxFileReadBytes
  rw [← fromUTF8_extract_isSome_iff]
  constructor
  · rintro ⟨kept, read, -⟩
    exact Option.isSome_map ▸ Option.isSome_of_eq_some read
  · intro read
    obtain ⟨t, read⟩ := Option.isSome_iff_exists.mp read
    have cut := bytes_of_fromUTF8 read
    refine ⟨⟨t, cfg.maxFileReadBytes < file.toByteArray.size⟩, ?_, prefix_of_extract cut, ?_, ?_⟩
    · simp only [CapRun.kept, fileReadKept, read, Option.map_some]
    · have size := congrArg ByteArray.size cut
      rw [ByteArray.size_extract, String.size_toByteArray, String.size_toByteArray] at size
      show t.utf8ByteSize ≤ cfg.maxFileReadBytes
      omega
    · intro _
      simp [CapRun.limit, CapRun.content]

/-! ## Cut by characters -/

theorem slice_prefix (limit : Nat) (text : String) : (slice limit text).toList <+: text.toList := by
  rw [slice, String.toList_ofList]
  exact List.take_prefix limit text.toList

theorem slice_fits_iff (limit : Nat) (text : String) :
    (slice limit text).utf8ByteSize ≤ limit ↔
      text.utf8ByteSize ≤ limit ∨ ∀ c ∈ text.toList.take limit, c.utf8Size = 1 := by
  rw [slice, utf8ByteSize_ofList, utf8ByteSize_eq]
  exact size_take_le_iff text.toList limit

theorem response_capped_iff (run : CapRun) {text : String}
    (kept : run.kept u cfg = some (responseKept cfg text)) (content : run.content u cfg = text)
    (limit : run.limit cfg = cfg.maxResponseBytes) (quiet : run.announces = false) :
    Capped u cfg run ↔ (slice cfg.maxResponseBytes text).utf8ByteSize ≤ cfg.maxResponseBytes := by
  unfold Capped
  rw [kept, content, limit, quiet]
  constructor
  · rintro ⟨_, same, -, fits, -⟩
    cases same
    exact fits
  · intro fits
    exact ⟨_, rfl, slice_prefix _ _, fits, fun off => by cases off⟩

theorem code_capped_iff (stdout stderr : ByteArray) :
    Capped u cfg (.codeExecute stdout stderr) ↔
      (codeText u cfg stdout stderr).utf8ByteSize ≤ cfg.sandboxMaxOutputBytes ∨
        CutFits u cfg (.codeExecute stdout stderr) := by
  have sliced := slice_fits_iff cfg.sandboxMaxOutputBytes (codeText u cfg stdout stderr)
  by_cases fits : (codeText u cfg stdout stderr).utf8ByteSize ≤ cfg.sandboxMaxOutputBytes
  · refine iff_of_true ⟨⟨codeText u cfg stdout stderr, false⟩, ?_, List.prefix_rfl, fits, ?_⟩
      (.inl fits)
    · simp only [CapRun.kept, codeKept, if_neg (Nat.not_lt.mpr fits)]
    · intro _
      exact iff_of_false Bool.false_ne_true (Nat.not_lt.mpr fits)
  · have cut : codeKept u cfg stdout stderr =
        ⟨slice cfg.sandboxMaxOutputBytes (codeText u cfg stdout stderr), true⟩ := by
      simp only [codeKept, if_pos (Nat.lt_of_not_le fits)]
    constructor
    · rintro ⟨kept, same, -, within, -⟩
      rw [CapRun.kept, cut] at same
      cases same
      exact sliced.mp within
    · intro single
      refine ⟨_, congrArg some cut, slice_prefix _ _, sliced.mpr single, fun _ => ?_⟩
      exact iff_of_true rfl (Nat.lt_of_not_le fits)

/-! ## Every tool -/

/-- The cap is one in bytes, and announced, exactly where the content is within it or the
cut happens to fit. -/
theorem capped_iff (u : Unicode) (cfg : CapSettings) (run : CapRun) :
    Capped u cfg run ↔
      (run.content u cfg).utf8ByteSize ≤ run.limit cfg ∨ CutFits u cfg run := by
  cases run with
  | fileRead file => exact fileRead_capped_iff file
  | httpGet text =>
    exact (response_capped_iff (.httpGet text) rfl rfl rfl rfl).trans (slice_fits_iff _ text)
  | httpPost text =>
    exact (response_capped_iff (.httpPost text) rfl rfl rfl rfl).trans (slice_fits_iff _ text)
  | codeExecute stdout stderr => exact code_capped_iff stdout stderr

/-! ## Replies -/

/-- The reply of a tool, for `code_execute` that of code that runs to its end. -/
def CapRun.reply (u : Unicode) (cfg : CapSettings) : CapRun → String
  | .fileRead file => fileReadReply u cfg file.toByteArray
  | .httpGet text | .httpPost text => responseReply u cfg text
  | .codeExecute stdout stderr => codeExecuteReply u cfg (.exited stdout stderr (some 0))

theorem slice_of_fits {limit : Nat} {text : String} (fits : text.utf8ByteSize ≤ limit) :
    slice limit text = text := by
  have short : text.toList.length ≤ limit :=
    Nat.le_trans (by rw [utf8ByteSize_eq]; exact length_le_size _) fits
  rw [slice, List.take_of_length_le short, String.ofList_toList]

theorem fileReadReply_of_fits {file : String} (fits : file.utf8ByteSize ≤ cfg.maxFileReadBytes) :
    fileReadReply u cfg file.toByteArray = (sanitizeOutput u file).1 := by
  have kept : fileReadKept cfg file.toByteArray = some ⟨file, false⟩ := by
    rw [fileReadKept, extract_whole fits, fromUTF8_toByteArray, String.size_toByteArray,
      Option.map_some, decide_eq_false (Nat.not_lt.mpr fits)]
  rw [fileReadReply, kept]
  exact String.append_empty

theorem codeExecuteReply_of_fits {stdout stderr : ByteArray}
    (fits : (codeText u cfg stdout stderr).utf8ByteSize ≤ cfg.sandboxMaxOutputBytes) :
    codeExecuteReply u cfg (.exited stdout stderr (some 0)) =
      (sanitizeOutput u (codeText u cfg stdout stderr)).1 := by
  have kept : codeKept u cfg stdout stderr = ⟨codeText u cfg stdout stderr, false⟩ := by
    simp only [codeKept, if_neg (Nat.not_lt.mpr fits)]
  unfold codeExecuteReply
  dsimp only
  rw [kept, if_pos rfl, if_neg Bool.false_ne_true, String.append_empty]

/-- A content within the limit is replied with all of it, sanitised, and with no notice. -/
theorem reply_of_fits (run : CapRun) (fits : (run.content u cfg).utf8ByteSize ≤ run.limit cfg) :
    run.reply u cfg = (sanitizeOutput u (run.content u cfg)).1 := by
  cases run with
  | fileRead file => exact fileReadReply_of_fits fits
  | httpGet text | httpPost text =>
    have whole : slice cfg.maxResponseBytes text = text := slice_of_fits fits
    simp only [CapRun.reply, responseReply, responseKept, CapRun.content, whole]
  | codeExecute stdout stderr =>
    rw [CapRun.content, CapRun.limit] at fits
    rw [CapRun.reply, CapRun.content]
    exact codeExecuteReply_of_fits fits

/-- Code that does not come to a regular end is replied to under the tool's name. -/
theorem codeExecuteReply_marked (e : SandboxEnd) :
    (∃ stdout stderr exitCode, e = .exited stdout stderr exitCode ∧ exitCode.getD 0 = 0) ∨
      "[code_execute] ".toList <+: (codeExecuteReply u cfg e).toList := by
  cases e with
  | dockerUnavailable =>
    exact .inr (front_of_append "[code_execute] " "Docker is not available on this host."
      List.prefix_rfl)
  | binaryNotFound =>
    exact .inr (front_of_append "[code_execute] " "Docker binary not found." List.prefix_rfl)
  | timedOut =>
    refine .inr (front_of_append _ _ ?_)
    exact front_of_append "[code_execute] Timed out after " _ (by decide)
  | osError name =>
    exact .inr (front_of_append "[code_execute] Failed to start container: " name (by decide))
  | exited stdout stderr exitCode =>
    cases exitCode with
    | none => exact .inl ⟨stdout, stderr, none, rfl, rfl⟩
    | some code =>
      by_cases regular : code = 0
      · exact .inl ⟨stdout, stderr, some code, rfl, regular⟩
      · right
        unfold codeExecuteReply
        dsimp only
        rw [if_neg regular]
        iterate 2 refine front_of_append _ _ ?_
        exact front_of_append "[code_execute] Exit code " _ (by decide)

end

/-- Two letters of two bytes each, of which three bytes are kept. -/
def threeBytes : CapSettings where
  maxFileReadBytes := 3
  maxResponseBytes := 3
  sandboxMaxOutputBytes := 3
  sandboxMaxChartBytes := 1024
  sandboxTimeoutSeconds := 30

/-- `file_read` says that the file is no text, and `http_get` keeps four bytes. -/
theorem letter_split :
    ¬ Capped .ascii threeBytes (.fileRead "éé") ∧ ¬ Capped .ascii threeBytes (.httpGet "éé") := by
  constructor
  · rw [fileRead_capped_iff]
    rintro (whole | ⟨t, start, size⟩)
    · exact absurd whole (by decide)
    · have start : t.toList <+: ['é', 'é'] := start
      rw [utf8ByteSize_eq] at size
      simp only [List.prefix_cons_iff, List.prefix_nil] at start
      rcases start with same | ⟨_, same, same' | ⟨_, same', rfl⟩⟩
      · rw [same] at size
        exact absurd size (by decide)
      · rw [same, same'] at size
        exact absurd size (by decide)
      · rw [same, same'] at size
        exact absurd size (by decide)
  · rw [response_capped_iff (.httpGet "éé") rfl rfl rfl rfl, slice_fits_iff]
    rintro (whole | single)
    · exact absurd whole (by decide)
    · exact absurd (single 'é' (by decide)) (by decide)

end LegionForge.Tools
