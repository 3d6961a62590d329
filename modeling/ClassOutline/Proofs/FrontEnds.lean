import ClassOutline.Cli.Session
import ClassOutline.Http.Service
import ClassOutline.Proofs.Files.Paths
import ClassOutline.Proofs.Json.RoundTrip
import ClassOutline.Proofs.Text.Casing
import Mathlib

/-!
# Three ways to an analysis

A file can be analysed by the service, by the program and as part of a scan. The three take the hint,
the blank text and the file name each in their own place: the service normalises the hint before it
asks for the analysis, the program leaves that to the analysis, a scan does it once for all files; the
service is told a file name, the program takes the last part of a path, a scan hands on a whole path.
They agree nevertheless (`frontEnds_agree`), because normalising twice is normalising once and only
the last part of a path counts.

What they agree on is one envelope, `Envelope.ofCode`.
-/

namespace ClassOutline

open ClassOutline.Path

/-! ## The envelope of a text -/

/-- The envelope for a text under a hint and a file name. -/
def Envelope.ofCode (code hint filename : Bytes) : Envelope :=
  if code.isBlank then .noCode hint filename
  else
    let a := Registry.builtIn.analyze code hint filename
    .ofOutline (some a.outline) a.language filename

theorem Envelope.ofCode_blank {code : Bytes} (h : code.isBlank = true) (hint filename : Bytes) :
    Envelope.ofCode code hint filename = .noCode hint filename :=
  if_pos h

theorem Envelope.ofCode_of_not {code : Bytes} (h : code.isBlank = false) (hint filename : Bytes) :
    Envelope.ofCode code hint filename =
      .ofOutline (some (Registry.builtIn.analyze code hint filename).outline)
        (Registry.builtIn.analyze code hint filename).language filename :=
  if_neg (by simp [h])

theorem Envelope.noCode_normalizeHint (hint filename : Bytes) :
    Envelope.noCode (Language.normalizeHint hint) filename = .noCode hint filename := by
  rw [noCode, noCode, Language.normalizeHint_normalizeHint]

/-! ## The service -/

namespace Http

namespace Service

/-- A service that lets every request through, as it is without a rate limit. -/
structure IsOpen (s : Service) : Prop where
  registry : s.registry = .builtIn
  tokens : s.tokens = none

variable {s : Service} {settings : Settings}

theorem isOpen_of_start (h : start settings = .ok s)
    (hrate : settings.rateLimit.isPositive = false) : s.IsOpen ∧ s.settings = settings := by
  unfold start at h
  split at h
  · obtain rfl := Except.ok.inj h
    exact ⟨⟨rfl, by simp [hrate]⟩, rfl⟩
  · cases h

theorem IsOpen.respond (h : s.IsOpen) {r : Request} (hr : r.method ≠ Bytes.ofString "OPTIONS") :
    s.respond s.hasToken r = s.answer r := by
  have hadmitted : s.hasToken = true := by simp [hasToken, h.tokens]
  unfold Service.respond
  rw [if_neg (by simpa using hr), hadmitted]
  simp

theorem IsOpen.handle (h : s.IsOpen) (r : Request) :
    (s.handle r).2.IsOpen ∧ (s.handle r).2.settings = s.settings := by
  have htokens : s.tokensAfter r = none := by simp [tokensAfter, h.tokens]
  exact ⟨⟨h.registry, htokens⟩, rfl⟩

/-- No request closes the service. -/
theorem IsOpen.serve (h : s.IsOpen) (rs : List Request) :
    (s.serve rs).2.IsOpen ∧ (s.serve rs).2.settings = s.settings := by
  induction rs generalizing s with
  | nil => exact ⟨h, rfl⟩
  | cons r rs ih =>
    obtain ⟨hopen, hsettings⟩ := h.handle r
    obtain ⟨hrest, hkept⟩ := ih hopen
    exact ⟨hrest, hkept.trans hsettings⟩

end Service

/-- The JSON object of a submission. -/
def Submission.toJson (s : Submission) : Json :=
  .record [("code", .str s.code), ("language", .str s.language), ("filename", .str s.filename)]

/-- A request that submits something as JSON, within a limit. However its body is written, it is one
that is read as the submission. -/
structure Request.Submits (r : Request) (limit : Nat) (s : Submission) : Prop where
  method : r.method = Bytes.ofString "POST"
  path : r.path = Bytes.ofString "/" ∨ r.path = Bytes.ofString "/api/v1/analyze"
  type : ∃ text type, r.header? "Content-Type" = some text ∧ MediaType.parse? text = some type ∧
    type.name = Bytes.ofString "application/json"
  body : ∃ value rest, Json.read r.body = .ok (value, rest) ∧ Submission.ofJson? value = some s
  size : r.body.length ≤ limit

namespace Submission

/-- Whether a member name, as it is given, is taken for another. -/
theorem isNamed_iff : ∀ given ∈ ["code", "language", "filename"],
    ∀ wanted ∈ ["code", "language", "filename"],
      ((Bytes.ofString given).map Bytes.lowerByte == Bytes.ofString wanted) =
        decide (given = wanted) := by
  decide +kernel

theorem ofJson?_toJson (s : Submission) : ofJson? s.toJson = some s := by
  simp [toJson, Json.record, ofJson?, withMember, withMember.text?, isNamed_iff]

theorem read_document {s : Submission} (hcode : s.code.isUtf8 = true)
    (hlanguage : s.language.isUtf8 = true) (hfilename : s.filename.isUtf8 = true) :
    Json.read s.toJson.document = .ok (s.toJson, [10]) := by
  have hreadable : Json.Readable (9999 + 1) s.toJson := by
    apply Json.Readable.obj
    · simp only [List.map_cons, List.map_nil, List.forall_mem_cons]
      exact ⟨by decide +kernel, by decide +kernel, by decide +kernel, by simp⟩
    · simp only [List.map_cons, List.map_nil, List.forall_mem_cons]
      exact ⟨.str hcode, .str hlanguage, .str hfilename, by simp⟩
  exact Json.read_document hreadable

/-- The request that sends a submission as JSON to a path. -/
def request (s : Submission) (path : Bytes) : Request where
  method := Bytes.ofString "POST"
  target := path
  headers := [(Bytes.ofString "Content-Type", Bytes.ofString "application/json")]
  body := s.toJson.document

theorem request_submits {s : Submission} {path : Bytes} {limit : Nat}
    (hpath : path = Bytes.ofString "/" ∨ path = Bytes.ofString "/api/v1/analyze")
    (hcode : s.code.isUtf8 = true) (hlanguage : s.language.isUtf8 = true)
    (hfilename : s.filename.isUtf8 = true) (hsize : s.toJson.document.length ≤ limit) :
    (s.request path).Submits limit s where
  method := rfl
  path := by
    have hplace : (s.request path).path = path := by
      rcases hpath with rfl | rfl <;> simp only [Request.path, Request.place, request] <;>
        decide +kernel
    rwa [hplace]
  type := by
    have hjson : MediaType.parse? (Bytes.ofString "application/json") =
        some ⟨Bytes.ofString "application/json", []⟩ := by decide +kernel
    refine ⟨Bytes.ofString "application/json", _, ?_, hjson, rfl⟩
    simp [Request.header?, request]
  body := ⟨s.toJson, [10], read_document hcode hlanguage hfilename, ofJson?_toJson s⟩
  size := hsize

end Submission

variable {r : Request} {limit : Nat} {sub : Submission}

theorem Request.Submits.ofRequest (h : r.Submits limit sub) :
    Submission.ofRequest limit r = .ok sub := by
  obtain ⟨text, type, hheader, htype, hname⟩ := h.type
  obtain ⟨value, rest, hread, hvalue⟩ := h.body
  -- a request without a content type would be an empty submission
  have htext : text ≠ [] := by
    rintro rfl
    have hnone : MediaType.parse? [] = none := by decide +kernel
    rw [hnone] at htype
    cases htype
  -- nothing of the body is cut off
  have hbody : LimitedBody.ofBytes limit r.body = ⟨r.body, false⟩ := by
    simp [LimitedBody.ofBytes, List.take_of_length_le h.size, h.size]
  unfold Submission.ofRequest
  rw [hheader, Option.getD_some]
  split
  · exact absurd rfl htext
  · rw [htype]
    simp only [Submission.ofBody, hname, beq_self_eq_true, if_true, Submission.ofJsonBody, hbody,
      hread, Bool.false_and, Bool.false_eq_true, if_false, hvalue]

theorem Answer.ofSubmission_builtIn (sub : Submission) :
    (Answer.ofSubmission .builtIn sub).response =
      .ofEnvelope (if sub.code.isBlank then 400 else 200)
        (.ofCode sub.code sub.language sub.filename) := by
  -- the hint is normalised here, and again behind either branch
  unfold Answer.ofSubmission
  split
  · rename_i hblank
    simp only [Envelope.noCode_normalizeHint, Envelope.ofCode_blank hblank]
  · rename_i hblank
    simp only [Registry.analyze_normalizeHint,
      Envelope.ofCode_of_not (Bool.eq_false_iff.mpr hblank)]

/-- What the service answers to a submission. -/
theorem Service.IsOpen.handle_submits {s : Service} (h : s.IsOpen)
    (hr : r.Submits s.settings.maxUploadBytes.toNat sub) :
    (s.handle r).1.response.status = (if sub.code.isBlank then 400 else 200) ∧
      (s.handle r).1.response.body =
        (Envelope.ofCode sub.code sub.language sub.filename).toJson.document := by
  have hmethod : r.method ≠ Bytes.ofString "OPTIONS" := by
    rw [hr.method]
    decide +kernel
  have hendpoint : Endpoint.ofRequest r = .analysis := by
    have hknown : Endpoint.knownMethod? (Bytes.ofString "POST") = some "POST" := by decide +kernel
    rw [Endpoint.ofRequest, hr.method, hknown]
    rcases hr.path with hpath | hpath <;> rw [hpath] <;> decide +kernel
  have hanswer : (s.answer r).response = { Response.ofEnvelope (if sub.code.isBlank then 400 else 200)
      (.ofCode sub.code sub.language sub.filename) with identified := true } := by
    simp only [Service.answer, hendpoint, Answer.ofAnalysisRequest, hr.ofRequest, h.registry,
      Answer.ofSubmission_builtIn]
  unfold Service.handle Service.conclude
  rw [h.respond hmethod]
  simp only [Service.withOrigin, hanswer]
  exact ⟨rfl, rfl⟩

end Http

/-! ## The program -/

namespace Cli

/-- A flag with two dashes takes the next argument, whatever that is. -/
theorem readFlagsFrom_text {flags : List Flag} {flag : Flag} {name : Bytes}
    (hflag : named? flags name = some flag) (hkind : flag.kind = .text)
    (hname : name ≠ [] ∧ name.head? ≠ some 0x2D ∧ (0x3D : UInt8) ∉ name)
    (values : FlagValues) (value : Bytes) (args : List Bytes) :
    readFlagsFrom flags false values ((0x2D :: 0x2D :: name) :: value :: args) =
      readFlagsFrom flags false ((flag.name, .text value) :: values) args := by
  obtain ⟨hne, hdash, hequals⟩ := hname
  have hword : name.takeWhile (· != 0x3D) = name := by
    rw [List.takeWhile_eq_self_iff]
    intro b hb
    simpa using fun h : b = 0x3D => hequals (h ▸ hb)
  have hlong : readLong flags (0x2D :: 0x2D :: name) (some value) values =
      .ok ((flag.name, .text value) :: values, true) := by
    simp [readLong, hword, hne, hdash, hflag, hkind, Flag.set, Except.map]
  obtain ⟨b, rest, rfl⟩ := List.exists_cons_of_ne_nil hne
  simp only [readFlagsFrom, beq_self_eq_true, if_true, List.head?_cons, hlong]

/-- A call that begins with the word of a command is a call of that command. -/
theorem Call.ofArgs_word {word : Bytes} {c : Command} (hword : Command.ofWord? word = some c)
    (hplain : word ≠ [] ∧ word.head? ≠ some 0x2D) (args : List Bytes) :
    Call.ofArgs (word :: args) = c.call args := by
  obtain ⟨hne, hdash⟩ := hplain
  have hdashes : word ≠ [0x2D, 0x2D] := by
    rintro rfl
    exact hdash rfl
  have htakes : Command.takesNext word = false := by simp [Command.takesNext, hdash]
  simp [Call.ofArgs, Command.firstWord?, Command.withoutWord, hdashes, htakes, hne, hdash, hword]

/-- The arguments that ask for the analysis of a file under a hint. -/
def parseArgs (path hint : Bytes) : List Bytes :=
  [Bytes.ofString "parse", Bytes.ofString "--file", path, Bytes.ofString "--language", hint]

/-- The arguments that ask for JSON: none, or the format by name. -/
def jsonArgs : List (List Bytes) := [[], [Bytes.ofString "--format", Bytes.ofString "json"]]

/-- The flags of `parseArgs`. -/
theorem readFlags_parseArgs (path hint : Bytes) {more : List Bytes} (hmore : more ∈ jsonArgs) :
    ∃ format ∈ [[], [("format", FlagValue.text (Bytes.ofString "json"))]],
      readFlags Command.parse.flags ((parseArgs path hint).tail ++ more) =
        .ok (format ++ [("language", .text hint), ("file", .text path)]) := by
  have hfile : named? Command.parse.flags (Bytes.ofString "file") =
      some { name := "file", letter := some 0x66 } := by decide +kernel
  have hlanguage : named? Command.parse.flags (Bytes.ofString "language") =
      some { name := "language", letter := some 0x6C } := by decide +kernel
  have hformat : named? Command.parse.flags (Bytes.ofString "format") =
      some { name := "format" } := by decide +kernel
  have hread : readFlags Command.parse.flags ((parseArgs path hint).tail ++ more) =
      readFlagsFrom Command.parse.flags false [("language", .text hint), ("file", .text path)]
        more :=
    (readFlagsFrom_text hfile rfl (by decide +kernel) [] path
      (Bytes.ofString "--language" :: hint :: more)).trans
    (readFlagsFrom_text hlanguage rfl (by decide +kernel) [("file", .text path)] hint more)
  simp only [jsonArgs, List.mem_cons, List.not_mem_nil, or_false] at hmore
  rw [hread]
  rcases hmore with rfl | rfl
  · exact ⟨[], by simp, rfl⟩
  · exact ⟨_, List.mem_cons_of_mem _ List.mem_cons_self,
      readFlagsFrom_text hformat rfl (by decide +kernel) _ (Bytes.ofString "json") []⟩

/-- The call of `parseArgs`. -/
theorem ofArgs_parseArgs (path hint : Bytes) {more : List Bytes} (hmore : more ∈ jsonArgs) :
    ∃ values, Call.ofArgs (parseArgs path hint ++ more) = .ok (.run .parse values) ∧
      values.text "file" [] = path ∧ values.text "language" [] = hint ∧
      formatOf values = Bytes.ofString "json" := by
  have hword : Command.ofWord? (Bytes.ofString "parse") = some .parse := by decide +kernel
  have hcall : Call.ofArgs (parseArgs path hint ++ more) =
      Command.parse.call ((parseArgs path hint).tail ++ more) :=
    Call.ofArgs_word hword (by decide +kernel) _
  have hlevel : isLogLevel (Bytes.ofString "info") = true := by decide +kernel
  obtain ⟨format, hformat, hread⟩ := readFlags_parseArgs path hint hmore
  refine ⟨format ++ [("language", .text hint), ("file", .text path)], ?_⟩
  rw [hcall, Command.call, hread]
  simp only [List.mem_cons, List.not_mem_nil, or_false] at hformat
  -- neither help nor a log level is asked for, and the file that is required is there
  rcases hformat with rfl | rfl <;>
    simp [FlagValues.isOn, FlagValues.has, FlagValues.text, FlagValues.get?, formatOf,
      Command.required, hlevel]

/-! ### One file -/

variable {h : Host}

theorem lookup_of_read {root : Entry} {path code : Bytes} (hread : root.read path = .ok code) :
    root.lookup true path = .ok (.file code) := by
  unfold Entry.read at hread
  split at hread
  · rename_i heq
    rw [heq, Except.ok.inj hread]
  all_goals cases hread

/-- A path with a slash in it names a file, and the file name is the last part. -/
theorem source_of_read {dir f code : Bytes} (hf : IsName f)
    (hread : h.workspace.tree.read (seenFrom h.cwd (dir ++ slash :: f)) = .ok code)
    (input : Input) : source h input (dir ++ slash :: f) = .ok (code, f) := by
  -- a dash alone would stand for the standard input
  have hdash : dir ++ slash :: f ≠ [0x2D] := by
    intro heq
    have hmem : slash ∈ ([0x2D] : Bytes) := heq ▸ by simp
    exact absurd hmem (by decide)
  have hstat : h.workspace.tree.stat (seenFrom h.cwd (dir ++ slash :: f)) = .ok (.file code) := by
    rw [Entry.stat, lookup_of_read hread]
    rfl
  have hpath : filePath h (dir ++ slash :: f) = .ok (seenFrom h.cwd (dir ++ slash :: f)) := by
    simp [filePath, hstat, Entry.isDir]
  simp only [source, beq_iff_eq, hdash, if_false, hpath, hread, base_seenFrom h.cwd dir hf]

/-- What the program makes of a file. Where there is no code it prints the envelope that says so, and
fails. -/
theorem run_parseArgs {dir f code : Bytes} (hf : IsName f)
    (hread : h.workspace.tree.read (seenFrom h.cwd (dir ++ slash :: f)) = .ok code)
    (hint : Bytes) {more : List Bytes} (hmore : more ∈ jsonArgs) (input : Input) :
    run h (parseArgs (dir ++ slash :: f) hint ++ more) input =
      ({ output := (Envelope.ofCode code hint f).toJson.document
         error := if code.isBlank then some .noCode else none }, h) := by
  obtain ⟨values, hargs, hfile, hlanguage, hformat⟩ :=
    ofArgs_parseArgs (dir ++ slash :: f) hint hmore
  have hjson : ∀ j : Json, formatted (formatOf values) j = .ok j.document := by
    intro j
    rw [hformat, formatted]
    simp
  simp only [run, hargs, runParse, hfile, hlanguage, source_of_read hf hread, hjson]
  cases hblank : code.isBlank with
  | true => rw [Envelope.ofCode_blank hblank]; rfl
  | false => rw [Envelope.ofCode_of_not hblank]; rfl

end Cli

/-! ## A scan -/

namespace Scan

/-- In a scan, a file with code has the outline and the language of its envelope. -/
theorem analyzeFile_of_code {path f code : Bytes} (hpath : path = f ∨ ∃ dir, path = dir ++ slash :: f)
    (hblank : code.isBlank = false) (hint : Bytes) :
    let r := analyzeFile .builtIn (Language.normalizeHint hint) ⟨path, .ok code⟩
    r.path = path ∧ r.error = [] ∧ r.result = (Envelope.ofCode code hint f).result ∧
      Envelope.nonEmpty? r.language = (Envelope.ofCode code hint f).language := by
  intro r
  -- the analysis normalises the hint once more and is given the whole path
  have hsame : Registry.builtIn.analyze code (Language.normalizeHint hint) path =
      Registry.builtIn.analyze code hint f := by
    rw [Registry.analyze_normalizeHint]
    rcases hpath with rfl | ⟨dir, rfl⟩
    · rfl
    · exact Registry.analyze_append_slash _ code hint dir f
  have hr : r = ⟨path, (Registry.builtIn.analyze code hint f).language,
      (Registry.builtIn.analyze code hint f).merged,
      some (Registry.builtIn.analyze code hint f).outline, []⟩ := by
    simp [r, analyzeFile, hblank, hsame]
  rw [hr, Envelope.ofCode_of_not hblank]
  exact ⟨rfl, rfl, rfl, rfl⟩

theorem run_of_list {registry : Registry} {ws : Workspace} {o : ScanOptions}
    {files : List ScannedFile} {revision : Option Revision}
    (hlist : list ws o = .ok (files, revision)) :
    ∃ report, run registry ws o false = .ok report ∧
      report.files = files.map (analyzeFile registry (Language.normalizeHint o.language)) := by
  rw [run, hlist]
  exact ⟨_, rfl, rfl⟩

end Scan

/-! ## Agreement -/

/-- What follows the last slash of a path is all that tells a language. -/
theorem Language.detect_afterSlash (code path : Bytes) :
    detect code path = detect code (afterSlash path) := by
  by_cases hslash : slash ∈ path
  · obtain ⟨dir, f, rfl, hf⟩ := exists_last_slash hslash
    rw [detect_append_slash, afterSlash_append hf]
  · rw [afterSlash_of_not_mem hslash]

/-- The service, the program and a scan agree on a text under a hint and a file name. -/
structure FrontEndsAgree (code hint f : Bytes) : Prop where
  /-- The three texts can be sent to the service, as an object with a member for each. -/
  request : ∀ {limit : Nat} {path : Bytes},
    path = Bytes.ofString "/" ∨ path = Bytes.ofString "/api/v1/analyze" →
    (Http.Submission.mk code hint f).toJson.document.length ≤ limit →
    ((Http.Submission.mk code hint f).request path).Submits limit ⟨code, hint, f⟩
  /-- A service without a rate limit answers such a request, whatever it was asked before, with the
  very text that the program prints about a file of that name in any directory. -/
  answer : ∀ {settings : Settings} {s : Http.Service} (earlier : List Http.Request)
      {r : Http.Request} {h : Cli.Host} {dir : Bytes} {more : List Bytes} (input : Cli.Input),
    Http.Service.start settings = .ok s → settings.rateLimit.isPositive = false →
    r.Submits settings.maxUploadBytes.toNat ⟨code, hint, f⟩ →
    h.workspace.tree.read (seenFrom h.cwd (dir ++ slash :: f)) = .ok code → more ∈ Cli.jsonArgs →
    let response := ((s.serve earlier).2.handle r).1.response
    let outcome := (Cli.run h (Cli.parseArgs (dir ++ slash :: f) hint ++ more) input).1
    response.body = outcome.output ∧
      response.body = (Envelope.ofCode code hint f).toJson.document ∧
      (outcome.exitCode = 0 ↔ response.status = 200) ∧
      (code.isBlank = false → response.status = 200) ∧
      (code.isBlank = true → response.status = 400 ∧ outcome.exitCode = 1 ∧
        response.body = (Envelope.noCode hint f).toJson.document)
  /-- A scan reports on a file with the code, at the top or in any directory, with the outline and
  the language of the envelope. -/
  scanned : ∀ {ws : Workspace} {o : ScanOptions} {files : List ScannedFile}
      {revision : Option Revision} {i : Nat} {path : Bytes},
    o.language = hint → Scan.list ws o = .ok (files, revision) →
    files[i]? = some ⟨path, .ok code⟩ → (path = f ∨ ∃ dir, path = dir ++ slash :: f) →
    code.isBlank = false →
    ∃ report r, Scan.run .builtIn ws o false = .ok report ∧ report.files[i]? = some r ∧
      r.path = path ∧ r.error = [] ∧ r.result = (Envelope.ofCode code hint f).result ∧
      Envelope.nonEmpty? r.language = (Envelope.ofCode code hint f).language
  /-- It does not matter how often the hint is normalised. -/
  normalized : Language.normalizeHint (Language.normalizeHint hint) = Language.normalizeHint hint ∧
    ∀ (registry : Registry) (filename : Bytes),
      registry.analyze code (Language.normalizeHint hint) filename =
          registry.analyze code hint filename ∧
        registry.analyze code (Language.normalizeHint (Language.normalizeHint hint)) filename =
          registry.analyze code hint filename
  /-- Of a path, only the last part is looked at. -/
  detected : ∀ path : Bytes, Language.detect code path = Language.detect code (afterSlash path)

theorem frontEnds_agree {code hint f : Bytes} (hcode : code.isUtf8 = true)
    (hhint : hint.isUtf8 = true) (hutf8 : f.isUtf8 = true) (hf : IsName f) :
    FrontEndsAgree code hint f where
  request := by
    intro limit path hpath hsize
    exact Http.Submission.request_submits hpath hcode hhint hutf8 hsize
  answer := by
    intro settings s earlier r h dir more input hstart hrate hr hread hmore
    obtain ⟨hopen, hsettings⟩ := Http.Service.isOpen_of_start hstart hrate
    -- no earlier request makes a difference to this one
    obtain ⟨hstill, hkept⟩ := hopen.serve earlier
    rw [← hsettings, ← hkept] at hr
    obtain ⟨hstatus, hbody⟩ := hstill.handle_submits hr
    intro response outcome
    have houtcome : outcome =
        { output := (Envelope.ofCode code hint f).toJson.document
          error := if code.isBlank then some .noCode else none } :=
      congrArg Prod.fst (Cli.run_parseArgs hf hread hint hmore input)
    rw [houtcome, show response.status = _ from hstatus, show response.body = _ from hbody]
    cases hblank : code.isBlank with
    | true => simp [Cli.Outcome.exitCode, Envelope.ofCode_blank hblank]
    | false => simp [Cli.Outcome.exitCode]
  scanned := by
    intro ws o files revision i path hlanguage hlist hfile hpath hblank
    obtain ⟨report, hrun, hfiles⟩ := Scan.run_of_list hlist
    have hresult : report.files[i]? =
        some (Scan.analyzeFile .builtIn (Language.normalizeHint hint) ⟨path, .ok code⟩) := by
      rw [hfiles, List.getElem?_map, hfile, hlanguage]
      rfl
    exact ⟨report, _, hrun, hresult, Scan.analyzeFile_of_code hpath hblank hint⟩
  normalized := by
    refine ⟨Language.normalizeHint_normalizeHint hint, fun registry filename => ?_⟩
    simp only [Registry.analyze_normalizeHint, and_self]
  detected := Language.detect_afterSlash code

/-- A hint in capitals, and a file whose name tells nothing, in a directory. -/
theorem frontEnds_agree_hinted :
    let code := Bytes.ofString "class A:\n    pass\n"
    let hint := Bytes.ofString " PYTHON "
    let f := Bytes.ofString "a.txt"
    let ws : Workspace := ⟨.dir [(Bytes.ofString "src", .dir [(f, .file code)])], []⟩
    let h : Cli.Host := ⟨ws, Bytes.ofString "/", [], []⟩
    let o : ScanOptions := ⟨Bytes.ofString "/", [Bytes.ofString "*.txt"], [], false, 4, 0, hint⟩
    let s : Http.Service := ⟨{}, .builtIn, none, []⟩
    let r := (Http.Submission.mk code hint f).request (Bytes.ofString "/")
    code.isUtf8 = true ∧ hint.isUtf8 = true ∧ f.isUtf8 = true ∧ IsName f ∧
      Http.Service.start {} = .ok s ∧
      h.workspace.tree.read (seenFrom h.cwd (Bytes.ofString "src" ++ slash :: f)) = .ok code ∧
      Scan.list ws o = .ok ([⟨Bytes.ofString "src" ++ slash :: f, .ok code⟩], none) ∧
      (s.handle r).1.response.body =
        (Cli.run h (Cli.parseArgs (Bytes.ofString "src" ++ slash :: f) hint) (.ok [])).1.output ∧
      (s.handle r).1.response.status = 200 ∧
      ∃ report r, Scan.run .builtIn ws o false = .ok report ∧ report.files[0]? = some r ∧
        r.result = (Envelope.ofCode code hint f).result := by
  intro code hint f ws h o s r
  have hcode : code.isUtf8 = true := by decide +kernel
  have hhint : hint.isUtf8 = true := by decide +kernel
  have hutf8 : f.isUtf8 = true := by decide +kernel
  have hf : IsName f := by decide +kernel
  have hagree := frontEnds_agree hcode hhint hutf8 hf
  have hblank : code.isBlank = false := by decide +kernel
  have hrate : ({} : Settings).rateLimit.isPositive = false := by decide +kernel
  have hstart : Http.Service.start {} = .ok s := by
    have hrules : ({} : Settings).violations.isEmpty = true := by decide +kernel
    rw [Http.Service.start, if_pos hrules, hrate]
    rfl
  have hread :
      h.workspace.tree.read (seenFrom h.cwd (Bytes.ofString "src" ++ slash :: f)) = .ok code := by
    simp only [h, ws, f, code]
    cbv
  have hlist : Scan.list ws o = .ok ([⟨Bytes.ofString "src" ++ slash :: f, .ok code⟩], none) := by
    simp only [o, hint, ws, f, code]
    cbv
  have hsubmits : r.Submits ({} : Settings).maxUploadBytes.toNat ⟨code, hint, f⟩ :=
    hagree.request (.inl rfl) (by decide +kernel)
  obtain ⟨hbody, -, -, hstatus, -⟩ :=
    hagree.answer [] (.ok []) hstart hrate hsubmits hread List.mem_cons_self
  obtain ⟨report, result, hrun, hresult, -, -, hmodel, -⟩ :=
    hagree.scanned (i := 0) rfl hlist rfl (.inr ⟨_, rfl⟩) hblank
  rw [List.append_nil] at hbody
  exact ⟨hcode, hhint, hutf8, hf, hstart, hread, hlist, hbody, hstatus hblank, report, result, hrun,
    hresult, hmodel⟩

end ClassOutline
