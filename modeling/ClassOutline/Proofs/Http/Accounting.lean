import ClassOutline.Proofs.Http.RateLimit
import ClassOutline.Proofs.Json.Documents
import Mathlib

/-!
# Status, envelope and counters agree

A request for an analysis has one outcome, which shows in three places: in the status of the response,
in the envelope that its body holds, and in the counters. Here the response is looked at as a client
sees it, through the text of its body, and the counters through their values before and after a run.

What one exchange comes to is said once (`Service.conclude_concludes`): nothing that is counted, a
refusal or an analysis. Each of these moves certain counters by certain numbers (`Outcome.movements`),
and the counters after a run are those before it with all the movements of its exchanges
(`Service.serveUnder_counters`). The books balance because every exchange balances
(`Service.serveUnder_accounts`), whatever the rate limit has decided about the requests.
-/

namespace ClassOutline.Http

/-! ## What a client reads -/

/-- The name under which an outline lists the elements of a kind. -/
def ElementKind.listName : ElementKind → String
  | .classes => "classes"
  | .functions => "functions"
  | .relationships => "relationships"

/-- How many elements of a kind an outline has. -/
def ElementKind.countIn (o : Outline) : ElementKind → Nat
  | .classes => o.classes.length
  | .functions => o.functions.length
  | .relationships => o.edges.length

namespace Response

/-- A member of the object in the body. -/
def member? (r : Response) (name : String) : Option Json :=
  match Json.read r.body with
  | .ok (value, _) => value.get? name
  | .error _ => none

/-- The elements of a kind that the result in the body lists. -/
def list? (r : Response) (kind : ElementKind) : Option (List Json) :=
  match (r.member? "result").bind (Json.get? kind.listName) with
  | some (.arr items) => some items
  | _ => none

/-- A response whose status and envelope agree. -/
structure IsConsistent (r : Response) : Prop where
  status : r.status ∈ [200, 400, 413, 429]
  success : r.member? "success" = some (.bool (r.status = 200))
  result : ∃ value, r.member? "result" = some value ∧ (r.status = 200 ↔ value ≠ .null)
  /-- A result has all three lists. -/
  lists : r.status = 200 → ∀ kind, (r.list? kind).isSome = true
  message : ∃ text, r.member? "message" = some (.str text) ∧
    (text = Envelope.nothingFound ↔
      r.status = 200 ∧ r.list? .classes = some [] ∧ r.list? .functions = some [])

variable {r : Response} {e : Envelope}

theorem member?_of_body (h : r.body = e.toJson.document) (name : String) :
    r.member? name = e.toJson.toUtf8.get? name := by
  rw [member?, h, e.read_document]

theorem success_of_body (h : r.body = e.toJson.document) :
    r.member? "success" = some (.bool e.success) := by
  rw [member?_of_body h, Envelope.toJson, Json.toUtf8_record, Json.get?_record]
  rfl

theorem message_of_body (h : r.body = e.toJson.document) :
    r.member? "message" = some (.str e.message.toUtf8) := by
  rw [member?_of_body h, Envelope.toJson, Json.toUtf8_record, Json.get?_record]
  rfl

theorem result_of_body (h : r.body = e.toJson.document) :
    r.member? "result" = some ((e.result.map Outline.toJson).getD .null).toUtf8 := by
  rw [member?_of_body h, Envelope.toJson, Json.toUtf8_record, Json.get?_record]
  rfl

/-- The lists of the body are as long as those of the outline. -/
theorem list?_of_body (h : r.body = e.toJson.document) {o : Outline} (ho : e.result = some o)
    (kind : ElementKind) :
    ∃ items, r.list? kind = some items ∧ items.length = kind.countIn o := by
  have hresult := result_of_body h
  rw [ho, Option.map_some, Option.getD_some, Outline.toJson, Json.toUtf8_record] at hresult
  simp only [list?, hresult, Option.bind_some, Json.get?_record, List.map_cons, List.map_nil,
    Json.toUtf8_arr]
  cases kind with
  | classes => exact ⟨_, rfl, List.length_map _⟩
  | functions => exact ⟨_, rfl, List.length_map _⟩
  | relationships => exact ⟨_, rfl, List.length_map _⟩

theorem IsConsistent.of_failure {message language filename : Bytes}
    (hstatus : r.status ∈ [400, 413, 429])
    (hbody : r.body = (Envelope.failure message language filename).toJson.document)
    (hmessage : message.toUtf8 ≠ Envelope.nothingFound) : r.IsConsistent := by
  have hfailed : r.status ≠ 200 := fun h => absurd (h ▸ hstatus) (by decide)
  refine ⟨List.mem_cons_of_mem _ hstatus, ?_, ?_, fun h => absurd h hfailed, ?_⟩
  · rw [success_of_body hbody]
    simp [Envelope.failure, hfailed]
  · exact ⟨_, result_of_body hbody, fun h => absurd h hfailed, fun h => absurd rfl h⟩
  · exact ⟨_, message_of_body hbody, fun h => absurd h hmessage, fun h => absurd h.1 hfailed⟩

theorem IsConsistent.of_outline {o : Outline} {language : Language} {filename : Bytes}
    (hstatus : r.status = 200)
    (hbody : r.body = (Envelope.ofOutline (some o) language filename).toJson.document) :
    r.IsConsistent := by
  have hlist := list?_of_body hbody rfl
  -- a list is empty exactly when the outline has nothing of the kind
  have hempty : ∀ kind : ElementKind, r.list? kind = some [] ↔ kind.countIn o = 0 := by
    intro kind
    obtain ⟨items, hitems, hlength⟩ := hlist kind
    rw [hitems, ← hlength, Option.some.injEq, List.length_eq_zero_iff]
  have hfound : Envelope.found.toUtf8 = Envelope.found :=
    Bytes.toUtf8_eq_self (Bytes.isUtf8_ofString _)
  have hnothing : Envelope.nothingFound.toUtf8 = Envelope.nothingFound :=
    Bytes.toUtf8_eq_self (Bytes.isUtf8_ofString _)
  refine ⟨by simp [hstatus], ?_, ?_, fun _ kind => ?_, ?_⟩
  · rw [success_of_body hbody]
    simp [Envelope.ofOutline, hstatus]
  · refine ⟨_, result_of_body hbody, fun _ hnull => ?_, fun _ => hstatus⟩
    rw [Envelope.ofOutline, Option.map_some, Option.getD_some, Outline.toJson,
      Json.toUtf8_record] at hnull
    cases hnull
  · obtain ⟨items, hitems, -⟩ := hlist kind
    rw [hitems]
    rfl
  · refine ⟨_, message_of_body hbody, ?_⟩
    rw [hempty, hempty, and_iff_right hstatus]
    simp only [Envelope.ofOutline, Option.all_some, ElementKind.countIn, List.length_eq_zero_iff]
    split
    · rename_i ho
      rw [hnothing]
      simpa [Outline.isEmpty] using ho
    · rename_i ho
      have hne : Envelope.found ≠ Envelope.nothingFound := by decide +kernel
      rw [hfound]
      simpa [Outline.isEmpty, hne] using ho

end Response

/-! ## Movements -/

/-- The counters that an outcome moves, and by how much. -/
def Outcome.movements : Outcome → List (Sample × Nat)
  | .rejected reason => [(.rejections reason, 1)]
  | .analyzed a =>
    (Counters.analysisSample a, 1) ::
      [ElementKind.classes, .functions, .relationships].map
        (fun kind => (Sample.elements kind, kind.countIn a.outline)) ++ [(.timings, 1)]

/-- What an answer is counted as. -/
def Answer.movements (a : Answer) : List (Sample × Nat) := (a.outcome.map Outcome.movements).getD []

/-- Whether a sample counts analyses. -/
def Sample.isAnalyses : Sample → Bool
  | .analyses .. => true
  | _ => false

/-- The labels of the counters of analyses: a language that one extractor was run for, or none where
all of them were. -/
def analysisLabels : List (Bytes × Bytes) :=
  [("java", "single"), ("php", "single"), ("python", "single"), ("unknown", "merged")].map
    fun l => (Bytes.ofString l.1, Bytes.ofString l.2)

namespace Counters

/-- The values of some of the counters together. -/
def sum (p : Sample → Bool) (c : Counters) : Nat := ((c.filter fun e => p e.1).map Prod.snd).sum

variable {p : Sample → Bool} {c : Counters} {s t : Sample} {n : Nat}

@[simp] theorem sum_nil : sum p [] = 0 := rfl

theorem sum_cons (e : Sample × Nat) : sum p (e :: c) = (if p e.1 then e.2 else 0) + sum p c := by
  unfold sum
  rw [List.filter_cons]
  split <;> simp

theorem sum_append (c d : Counters) : sum p (c ++ d) = sum p c + sum p d := by
  simp [sum]

theorem sum_flatMap {α : Type} (f : α → Counters) (xs : List α) :
    sum p (xs.flatMap f) = (xs.map fun x => sum p (f x)).sum := by
  induction xs with
  | nil => rfl
  | cons x xs ih => rw [List.flatMap_cons, sum_append, ih, List.map_cons, List.sum_cons]

theorem sum_add (c : Counters) : sum p (c.add s n) = sum p c + if p s then n else 0 := by
  induction c with
  | nil => simp [add, sum_cons]
  | cons e c ih =>
    obtain ⟨u, m⟩ := e
    rw [add]
    split
    · rename_i hu
      subst hu
      rw [sum_cons, sum_cons]
      split <;> omega
    · rw [sum_cons, sum_cons, ih, Nat.add_assoc]

theorem value_cons (e : Sample × Nat) : value (e :: c) t = if e.1 = t then e.2 else value c t := by
  unfold value
  rw [List.find?_cons]
  by_cases h : e.1 = t <;> simp [h]

theorem value_add (c : Counters) : (c.add s n).value t = c.value t + if s = t then n else 0 := by
  induction c with
  | nil => rw [add, value_cons]; simp [value]
  | cons e c ih =>
    obtain ⟨u, m⟩ := e
    rw [add]
    split
    · rename_i hu
      subst hu
      rw [value_cons, value_cons]
      split <;> simp
    · rename_i hu
      rw [value_cons, value_cons, ih]
      by_cases hut : u = t
      · have hst : s ≠ t := fun h => hu (hut.trans h.symm)
        simp [hut, hst]
      · simp [hut]

theorem mem_add {e : Sample × Nat} (h : e ∈ c.add s n) : e.1 = s ∨ ∃ e' ∈ c, e'.1 = e.1 := by
  induction c with
  | nil => exact .inl (by rw [List.mem_singleton.mp h])
  | cons d c ih =>
    obtain ⟨u, m⟩ := d
    rw [add] at h
    split at h
    · rcases List.mem_cons.mp h with rfl | h
      · exact .inr ⟨_, List.mem_cons_self, rfl⟩
      · exact .inr ⟨e, List.mem_cons_of_mem _ h, rfl⟩
    · rcases List.mem_cons.mp h with rfl | h
      · exact .inr ⟨_, List.mem_cons_self, rfl⟩
      · exact (ih h).imp_right fun ⟨e', he', heq⟩ => ⟨e', List.mem_cons_of_mem _ he', heq⟩

/-- The counters after some movements. -/
def move (c : Counters) (ms : List (Sample × Nat)) : Counters :=
  ms.foldl (fun c m => c.add m.1 m.2) c

theorem sum_move (c : Counters) (ms : List (Sample × Nat)) :
    sum p (c.move ms) = sum p c + sum p ms := by
  induction ms generalizing c with
  | nil => rfl
  | cons m ms ih =>
    rw [sum_cons, ← Nat.add_assoc, ← sum_add]
    exact ih (c.add m.1 m.2)

theorem value_move (c : Counters) (ms : List (Sample × Nat)) :
    (c.move ms).value t = c.value t + sum (· = t) ms := by
  induction ms generalizing c with
  | nil => rfl
  | cons m ms ih =>
    have hstep : (c.move (m :: ms)).value t = (c.add m.1 m.2).value t + sum (· = t) ms :=
      ih (c.add m.1 m.2)
    rw [hstep, value_add, sum_cons, Nat.add_assoc]
    simp

theorem mem_move {ms : List (Sample × Nat)} {e : Sample × Nat} (h : e ∈ c.move ms) :
    (∃ m ∈ ms, m.1 = e.1) ∨ ∃ e' ∈ c, e'.1 = e.1 := by
  induction ms generalizing c with
  | nil => exact .inr ⟨e, h, rfl⟩
  | cons m ms ih =>
    rcases ih h with ⟨m', hm', heq⟩ | ⟨e', he', heq⟩
    · exact .inl ⟨m', List.mem_cons_of_mem _ hm', heq⟩
    · rcases mem_add he' with hnew | ⟨e'', he'', heq'⟩
      · exact .inl ⟨m, List.mem_cons_self, hnew.symm.trans heq⟩
      · exact .inr ⟨e'', he'', heq'.trans heq⟩

theorem record_eq_move (c : Counters) (o : Outcome) : c.record o = c.move o.movements := by
  cases o <;> rfl

/-- Counters of analyses that all have a label from the list. -/
def HasLabels (c : Counters) : Prop :=
  ∀ language mode n, (.analyses language mode, n) ∈ c → (language, mode) ∈ analysisLabels

/-- The language of an analysis is told only where one of the built-in extractors ran. -/
theorem analysisSample_labels (code hint filename : Bytes) :
    ∃ l ∈ analysisLabels,
      analysisSample (Registry.builtIn.analyze code hint filename) = .analyses l.1 l.2 := by
  have hsingle : ∀ e ∈ Registry.builtIn.extractors, e.language.isEmpty = false ∧
      (e.language, Bytes.ofString "single") ∈ analysisLabels := by
    simp only [Registry.builtIn, List.forall_mem_cons]
    exact ⟨by decide +kernel, by decide +kernel, by decide +kernel, by simp⟩
  cases hfind : Registry.builtIn.find? (Registry.resolve code hint filename) with
  | none =>
    refine ⟨(Bytes.ofString "unknown", Bytes.ofString "merged"), by decide +kernel, ?_⟩
    simp [Registry.analyze, hfind, analysisSample]
  | some e =>
    obtain ⟨hempty, hlabel⟩ := hsingle e (List.mem_of_find?_eq_some hfind)
    have hlanguage : e.language = Registry.resolve code hint filename := by
      simpa using List.find?_some hfind
    rw [hlanguage] at hempty hlabel
    refine ⟨_, hlabel, ?_⟩
    simp only [Registry.analyze, hfind, analysisSample, hempty, Bool.false_eq_true, if_false]

end Counters

/-! ## One exchange -/

/-- A request to one of the two endpoints that analyse. -/
def Request.AsksAnalysis (r : Request) : Prop :=
  r.method = Bytes.ofString "POST" ∧
    (r.path = Bytes.ofString "/" ∨ r.path = Bytes.ofString "/api/v1/analyze")

instance (r : Request) : Decidable r.AsksAnalysis := inferInstanceAs (Decidable (_ ∧ _))

theorem Endpoint.ofRequest_eq_analysis_iff {r : Request} :
    ofRequest r = .analysis ↔ r.AsksAnalysis := by
  have hpost : ∀ m ∈ methods, Bytes.ofString m = Bytes.ofString "POST" ↔ m = "POST" :=
    fun m _ => Bytes.ofString_inj
  have hpaths : ∀ path ∈ ["/", "/api/v1/analyze"], ∀ other ∈ ["/health", "/ready", "/metrics"],
      Bytes.ofString path ≠ Bytes.ofString other := by
    decide +kernel
  constructor
  · intro h
    unfold ofRequest at h
    split at h
    · rename_i m hm
      obtain ⟨hmem, hmethod⟩ := knownMethod?_eq_some_iff.mp hm
      simp only [ofPath, only, Bool.or_eq_true, beq_iff_eq] at h
      split_ifs at h with _ _ _ _ _ hpath hpost'
      exact ⟨by rw [← hmethod, hpost'], hpath⟩
    · cases h
  · rintro ⟨hmethod, hpath⟩
    have hknown : knownMethod? r.method = some "POST" :=
      knownMethod?_eq_some_iff.mpr ⟨by decide, hmethod.symm⟩
    have hothers : ∀ other ∈ ["/health", "/ready", "/metrics"], r.path ≠ Bytes.ofString other := by
      intro other hother
      rcases hpath with h | h <;> rw [h]
      · exact hpaths _ List.mem_cons_self other hother
      · exact hpaths _ (List.mem_cons_of_mem _ List.mem_cons_self) other hother
    simp only [List.forall_mem_cons] at hothers
    simp [ofRequest, hknown, ofPath, only, hothers.1, hothers.2.1, hothers.2.2.1, hpath]

/-- What an exchange comes to. -/
inductive Concludes (r : Request) (a : Answer) : Prop where
  /-- Nothing was to be analysed, and nothing is counted. -/
  | elsewhere (request : ¬ r.AsksAnalysis) (outcome : a.outcome = none)
      (status : a.response.status ∉ [400, 413, 429])
  | refused (reason : Rejection) (language filename : Bytes)
      (sends : a.Sends (Answer.refusal reason).1
        (.failure (Answer.refusal reason).2 language filename) (.rejected reason))
  | analysed (request : r.AsksAnalysis) (code hint filename : Bytes)
      (sends : a.Sends 200
        (.ofOutline (some (Registry.builtIn.analyze code hint filename).outline)
          (Registry.builtIn.analyze code hint filename).language filename)
        (.analyzed (Registry.builtIn.analyze code hint filename)))

namespace Service

variable {s : Service} {r : Request} {settings : Settings}

theorem answer_concludes (hs : s.registry = .builtIn) (r : Request) : Concludes r (s.answer r) := by
  have helsewhere : Endpoint.ofRequest r ≠ .analysis → ¬ r.AsksAnalysis :=
    fun h hasks => h (Endpoint.ofRequest_eq_analysis_iff.mpr hasks)
  unfold answer
  cases he : Endpoint.ofRequest r with
  | health => exact .elsewhere (helsewhere (by simp [he])) rfl (by decide : 200 ∉ [400, 413, 429])
  | ready => exact .elsewhere (helsewhere (by simp [he])) rfl (by decide : 200 ∉ [400, 413, 429])
  | counters => exact .elsewhere (helsewhere (by simp [he])) rfl (by decide : 200 ∉ [400, 413, 429])
  | unknownPath =>
    exact .elsewhere (helsewhere (by simp [he])) rfl (by decide : 404 ∉ [400, 413, 429])
  | wrongMethod =>
    exact .elsewhere (helsewhere (by simp [he])) rfl (by decide : 405 ∉ [400, 413, 429])
  | analysis =>
    have hasks := Endpoint.ofRequest_eq_analysis_iff.mp he
    simp only [hs]
    rcases Answer.ofAnalysisRequest_cases .builtIn s.settings.maxUploadBytes.toNat r with
      ⟨reason, -, hsends⟩ | ⟨hint, filename, hsends⟩ | ⟨code, hint, filename, hsends⟩
    · exact .refused reason _ _ hsends
    · exact .refused .noCode _ _ hsends
    · exact .analysed hasks code hint filename hsends

/-- The header fields for other origins change nothing of this. -/
theorem concludes_sent {a : Answer} (h : Concludes r a) (s : Service) : Concludes r (s.sent a) := by
  cases h with
  | elsewhere request outcome status => exact .elsewhere request outcome status
  | refused reason language filename sends =>
    exact .refused reason language filename ⟨sends.status, sends.body, sends.outcome⟩
  | analysed request code hint filename sends =>
    exact .analysed request code hint filename ⟨sends.status, sends.body, sends.outcome⟩

theorem conclude_concludes (hs : s.registry = .builtIn) (admitted : Bool) (r : Request) :
    Concludes r (s.conclude admitted r).1 := by
  rcases conclude_cases s admitted r with ⟨hr, h⟩ | ⟨-, -, h⟩ | ⟨-, -, h⟩ <;> rw [h] <;>
    apply concludes_sent
  · have hasks : ¬ r.AsksAnalysis := by
      intro hasks
      have hne : Bytes.ofString "POST" ≠ Bytes.ofString "OPTIONS" := by decide +kernel
      exact hne (hasks.1.symm.trans hr)
    exact .elsewhere hasks rfl (by decide : 204 ∉ [400, 413, 429])
  · exact .refused .rateLimited _ _ (Answer.sends_rejected .rateLimited)
  · exact answer_concludes hs r

theorem handle_concludes (hs : s.registry = .builtIn) (r : Request) :
    Concludes r (s.handle r).1 :=
  conclude_concludes hs s.hasToken r

end Service

variable {r : Request} {a : Answer}

theorem refusal_status (reason : Rejection) : (Answer.refusal reason).1 ∈ [400, 413, 429] := by
  cases reason <;> decide

theorem Concludes.isConsistent (h : Concludes r a)
    (hr : r.AsksAnalysis ∨ a.response.status = 429) : a.response.IsConsistent := by
  have hmessage : ∀ reason, (Answer.refusal reason).2.toUtf8 ≠ Envelope.nothingFound := by
    intro reason
    cases reason <;> decide +kernel
  cases h with
  | elsewhere request outcome status =>
    rcases hr with hr | hr
    · exact absurd hr request
    · rw [hr] at status
      exact absurd (by decide) status
  | refused reason language filename sends =>
    exact .of_failure (sends.status ▸ refusal_status reason) sends.body (hmessage reason)
  | analysed request code hint filename sends => exact .of_outline sends.status sends.body

/-- An exchange that ends with an analysis. -/
def IsAnalysed (e : Request × Answer) : Prop := e.1.AsksAnalysis ∧ e.2.response.status = 200

instance (e : Request × Answer) : Decidable (IsAnalysed e) := inferInstanceAs (Decidable (_ ∧ _))

/-- How many elements of a kind the body of an analysis lists. -/
def listedIn (kind : ElementKind) (e : Request × Answer) : Nat :=
  if IsAnalysed e then ((e.2.response.list? kind).map List.length).getD 0 else 0

open Counters (sum)

/-- The movements of an exchange are told by its response. -/
structure Balances (r : Request) (a : Answer) : Prop where
  rateLimited : sum (· = .rejections .rateLimited) a.movements =
    if a.response.status = 429 then 1 else 0
  tooLarge : sum (· = .rejections .tooLarge) a.movements = if a.response.status = 413 then 1 else 0
  badRequest : sum (· = .rejections .badRequest) a.movements +
    sum (· = .rejections .noCode) a.movements = if a.response.status = 400 then 1 else 0
  analyses : sum Sample.isAnalyses a.movements = if IsAnalysed (r, a) then 1 else 0
  timings : sum (· = .timings) a.movements = if IsAnalysed (r, a) then 1 else 0
  elements : ∀ kind, sum (· = .elements kind) a.movements = listedIn kind (r, a)
  labels : ∀ m ∈ a.movements, ∀ language mode, m.1 = .analyses language mode →
    (language, mode) ∈ analysisLabels

theorem Concludes.balances (h : Concludes r a) : Balances r a := by
  cases h with
  | elsewhere request outcome status =>
    have hnone : a.movements = [] := by rw [Answer.movements, outcome]; rfl
    have hnot : ¬ IsAnalysed (r, a) := fun h => request h.1
    simp only [List.mem_cons, List.not_mem_nil, or_false, not_or] at status
    constructor <;> simp [hnone, hnot, status, listedIn]
  | refused reason language filename sends =>
    have hmoves : a.movements = [(.rejections reason, 1)] := by
      rw [Answer.movements, sends.outcome]
      rfl
    have hnot : ¬ IsAnalysed (r, a) := by
      intro h
      have hstatus := refusal_status reason
      rw [← sends.status, h.2] at hstatus
      exact absurd hstatus (by decide)
    have hstatus := sends.status
    constructor <;> cases reason <;>
      simp_all [Counters.sum_cons, Answer.refusal, Sample.isAnalyses, listedIn]
  | analysed request code hint filename sends =>
    obtain ⟨l, hl, hsample⟩ := Counters.analysisSample_labels code hint filename
    have hmoves : a.movements = (.analyses l.1 l.2, 1) ::
        ([ElementKind.classes, .functions, .relationships].map (fun kind => (Sample.elements kind,
          kind.countIn (Registry.builtIn.analyze code hint filename).outline)) ++ [(.timings, 1)]) := by
      rw [Answer.movements, sends.outcome, ← hsample]
      rfl
    have hdone : IsAnalysed (r, a) := ⟨request, sends.status⟩
    have hlisted : ∀ kind, listedIn kind (r, a) =
        kind.countIn (Registry.builtIn.analyze code hint filename).outline := by
      intro kind
      obtain ⟨items, hitems, hlength⟩ := Response.list?_of_body sends.body rfl kind
      rw [listedIn, if_pos hdone, hitems, ← hlength]
      rfl
    constructor
    · simp [hmoves, Counters.sum_cons, sends.status]
    · simp [hmoves, Counters.sum_cons, sends.status]
    · simp [hmoves, Counters.sum_cons, sends.status]
    · simp [hmoves, Counters.sum_cons, Sample.isAnalyses, hdone]
    · simp [hmoves, Counters.sum_cons, hdone]
    · intro kind
      rw [hlisted]
      cases kind <;> simp [hmoves, Counters.sum_cons]
    · intro m hm language mode heq
      rw [hmoves] at hm
      simp only [List.map_cons, List.map_nil, List.cons_append, List.nil_append, List.mem_cons,
        List.not_mem_nil, or_false] at hm
      rcases hm with rfl | rfl | rfl | rfl | rfl <;> cases heq
      exact hl

/-! ## Runs -/

namespace Service

variable {s : Service} {settings : Settings}

theorem conclude_counters (s : Service) (admitted : Bool) (r : Request) :
    (s.conclude admitted r).2.counters = s.counters.move (s.conclude admitted r).1.movements := by
  unfold conclude Answer.movements
  cases houtcome : (s.respond admitted r).outcome with
  | none => simp [houtcome, Counters.move]
  | some o => simp [houtcome, Counters.record_eq_move]

theorem handle_counters (s : Service) (r : Request) :
    (s.handle r).2.counters = s.counters.move (s.handle r).1.movements :=
  s.conclude_counters s.hasToken r

/-- The counters after a run are those before it with the movements of every exchange. -/
theorem serveUnder_counters (s : Service) (ds : List (Request × Bool)) :
    (s.serveUnder ds).2.counters =
      s.counters.move ((s.exchanges ds).flatMap fun e => e.2.movements) := by
  induction ds generalizing s with
  | nil => rfl
  | cons d ds ih =>
    have hrest := ih (s.conclude d.2 d.1).2
    rw [conclude_counters] at hrest
    rw [exchanges_cons, List.flatMap_cons, Counters.move, List.foldl_append]
    exact hrest

theorem exchanges_concludes (hs : s.registry = .builtIn) (ds : List (Request × Bool)) :
    ∀ e ∈ s.exchanges ds, Concludes e.1 e.2 := by
  induction ds generalizing s with
  | nil => intro e he; cases he
  | cons d ds ih =>
    have hkept := (s.conclude_kept d.2 d.1).2
    rw [exchanges_cons]
    intro e he
    rcases List.mem_cons.mp he with rfl | he
    · exact conclude_concludes hs d.2 d.1
    · exact ih (hkept.trans hs) e he

/-- The counters before and after some exchanges differ by what the exchanges show. -/
structure Accounts (before after : Counters) (es : List (Request × Answer)) : Prop where
  rateLimited : after.value (.rejections .rateLimited) =
    before.value (.rejections .rateLimited) + es.countP fun e => e.2.response.status = 429
  tooLarge : after.value (.rejections .tooLarge) =
    before.value (.rejections .tooLarge) + es.countP fun e => e.2.response.status = 413
  badRequest : after.value (.rejections .badRequest) + after.value (.rejections .noCode) =
    before.value (.rejections .badRequest) + before.value (.rejections .noCode) +
      es.countP fun e => e.2.response.status = 400
  /-- All counters of analyses together, whatever their labels. -/
  analyses : after.sum Sample.isAnalyses =
    before.sum Sample.isAnalyses + es.countP fun e => IsAnalysed e
  timings : after.value .timings = before.value .timings + es.countP fun e => IsAnalysed e
  elements : ∀ kind, after.value (.elements kind) =
    before.value (.elements kind) + (es.map (listedIn kind)).sum

theorem sum_map_ite {α : Type} (p : α → Prop) [DecidablePred p] (xs : List α) :
    (xs.map fun x => if p x then 1 else 0).sum = xs.countP fun x => p x := by
  induction xs with
  | nil => rfl
  | cons x xs ih => rw [List.map_cons, List.sum_cons, ih, List.countP_cons]; simp [Nat.add_comm]

/-- **The books balance** over any run. -/
theorem serveUnder_accounts (hs : s.registry = .builtIn) (ds : List (Request × Bool)) :
    Accounts s.counters (s.serveUnder ds).2.counters (s.exchanges ds) := by
  have hbalances : ∀ e ∈ s.exchanges ds, Balances e.1 e.2 :=
    fun e he => (exchanges_concludes hs ds e he).balances
  -- a sum of movements is a sum over the exchanges, each of which is told by its response
  have hsum : ∀ (p : Sample → Bool) (f : Request × Answer → Nat),
      (∀ e ∈ s.exchanges ds, sum p e.2.movements = f e) →
      sum p ((s.exchanges ds).flatMap fun e => e.2.movements) = ((s.exchanges ds).map f).sum := by
    intro p f hf
    rw [Counters.sum_flatMap]
    exact congrArg List.sum (List.map_congr_left hf)
  rw [serveUnder_counters]
  constructor
  · rw [Counters.value_move, hsum _ _ fun e he => (hbalances e he).rateLimited, sum_map_ite]
  · rw [Counters.value_move, hsum _ _ fun e he => (hbalances e he).tooLarge, sum_map_ite]
  · have hboth : sum (· = .rejections .badRequest)
        ((s.exchanges ds).flatMap fun e => e.2.movements) + sum (· = .rejections .noCode)
        ((s.exchanges ds).flatMap fun e => e.2.movements) =
          (s.exchanges ds).countP fun e => e.2.response.status = 400 := by
      rw [Counters.sum_flatMap, Counters.sum_flatMap, ← List.sum_map_add, ← sum_map_ite]
      exact congrArg List.sum (List.map_congr_left fun e he => (hbalances e he).badRequest)
    rw [Counters.value_move, Counters.value_move, ← hboth]
    omega
  · rw [Counters.sum_move, hsum _ _ fun e he => (hbalances e he).analyses, sum_map_ite]
  · rw [Counters.value_move, hsum _ _ fun e he => (hbalances e he).timings, sum_map_ite]
  · intro kind
    rw [Counters.value_move, hsum _ _ fun e he => (hbalances e he).elements kind]

theorem serveUnder_hasLabels (hs : s.registry = .builtIn) (hlabels : s.counters.HasLabels)
    (ds : List (Request × Bool)) : (s.serveUnder ds).2.counters.HasLabels := by
  intro language mode n hmem
  rw [serveUnder_counters] at hmem
  rcases Counters.mem_move hmem with ⟨m, hm, heq⟩ | ⟨e, he, heq⟩
  · obtain ⟨x, hx, hm⟩ := List.mem_flatMap.mp hm
    exact (exchanges_concludes hs ds x hx).balances.labels m hm language mode heq
  · obtain ⟨t, k⟩ := e
    obtain rfl : t = .analyses language mode := heq
    exact hlabels language mode k he

/-- **Status, envelope and counters agree** over every run of a service that was started, whatever it
was asked before and whatever a rate limit decides about each request, so also where its tokens come
back during the run. The service's own runs, in which no token comes back, are among these. -/
theorem outcomes_agree (hstart : start settings = .ok s) (earlier ds : List (Request × Bool)) :
    let t := (s.serveUnder earlier).2
    (∀ (i : Nat) (r : Request) (admitted : Bool), ds[i]? = some (r, admitted) →
      ∃ a, (t.serveUnder ds).1[i]? = some a ∧
        (a.response.status = 429 ↔ Refused (r, admitted)) ∧
        (r.AsksAnalysis ∨ Refused (r, admitted) → a.response.IsConsistent)) ∧
    Accounts t.counters (t.serveUnder ds).2.counters (t.exchanges ds) ∧
    (t.serveUnder ds).2.counters.HasLabels ∧
    ∀ rs : List Request, (s.serve rs).1 = (s.serveUnder (s.decided rs)).1 ∧
      (s.serve rs).2.counters = (s.serveUnder (s.decided rs)).2.counters := by
  intro t
  obtain ⟨-, hs⟩ := start_eq_ok hstart
  have hregistry : s.registry = .builtIn := by rw [hs]
  have hempty : s.counters.HasLabels := by
    rw [hs]
    intro _ _ _ h
    cases h
  have ht : t.registry = .builtIn := (s.serveUnder_kept earlier).2.trans hregistry
  refine ⟨fun i r admitted hr => ?_, serveUnder_accounts ht ds,
    serveUnder_hasLabels ht (serveUnder_hasLabels hregistry hempty earlier) ds, fun rs => ?_⟩
  · -- the request is answered in the state that the requests before it lead to
    have hthen : (t.serveUnder (ds.take i)).2.registry = .builtIn := (t.serveUnder_kept _).2.trans ht
    refine ⟨_, t.serveUnder_getElem? hr, conclude_refused_iff, fun hasks => ?_⟩
    apply (conclude_concludes hthen admitted r).isConsistent
    exact hasks.imp_right conclude_refused_iff.mpr
  · rw [serve_eq_serveUnder]
    exact ⟨rfl, rfl⟩

/-- Two requests at once are allowed. Of four, the first is an analysis that finds a class, the second
holds no code, and the third is refused. By the fourth a token has come back, and it finds the class
again. -/
theorem outcomes_agree_refilled :
    let settings : Settings := { rateLimit := .finite false 1 0, rateBurst := 2 }
    let s : Service := { settings, tokens := some 2 }
    let code : Request := ⟨Bytes.ofString "POST", Bytes.ofString "/",
      [(Bytes.ofString "Content-Type", Bytes.ofString "application/json")],
      Bytes.ofString "\x7b\"code\":\"class A:\\n\",\"language\":\"Python\"\x7d"⟩
    let empty : Request := ⟨Bytes.ofString "POST", Bytes.ofString "/", [], []⟩
    let ds := [(code, true), (empty, true), (code, false), (code, true)]
    let after := (s.serveUnder ds).2.counters
    start settings = .ok s ∧ after.value (.rejections .rateLimited) = 1 ∧
      after.value (.rejections .badRequest) + after.value (.rejections .noCode) = 1 ∧
      after.sum Sample.isAnalyses = 2 ∧ after.value (.elements .classes) = 2 := by
  intro settings s code empty ds after
  have hstart : start settings = .ok s := by
    have hvalid : settings.violations.isEmpty = true := by decide +kernel
    have hrate : settings.rateLimit.isPositive = true := by decide
    rw [start, if_pos hvalid, if_pos hrate]
    rfl
  obtain ⟨-, haccounts, -, -⟩ := outcomes_agree hstart [] ds
  have hbefore : (s.serveUnder []).2 = s := rfl
  rw [hbefore] at haccounts
  refine ⟨hstart, haccounts.rateLimited.trans ?_, haccounts.badRequest.trans ?_,
    haccounts.analyses.trans ?_, (haccounts.elements .classes).trans ?_⟩
  · decide +kernel
  · decide +kernel
  · decide +kernel
  · decide +kernel

end Service

end ClassOutline.Http
