import ClassOutline.Proofs.Http.Accounting
import ClassOutline.Proofs.Http.Formats

/-!
# Bodies over the limit

A body is read up to the limit of the service only. What is read of a body may be all that matters of
it: a JSON object ends with its brace and a form in parts with its last boundary, and neither reader
looks at what follows. A body over the limit is therefore not always refused. If what stands within the
limit closes there (`Request.ClosesWithin`), the request is treated as if its body ended at the limit
(`Submission.ofRequest_cut`); otherwise no submission with code is read from it
(`Submission.isBlank_of_open`). That a body is too large is said only of one that is
(`Submission.lt_length_of_tooLarge`).

## Main definitions

* `Request.cut`: a request whose body ends at the limit.
* `Request.ClosesWithin`: a request whose body is read to its end within the limit.
-/

namespace ClassOutline.Http

/-! ## Forms that close before the end -/

namespace Multipart

variable {newline boundary s : Bytes}

/-- A line that ends is a line of a whole body, too. -/
theorem boundaryLine_whole {line : Option (Bytes × Bytes)}
    (h : boundaryLine false newline boundary s = .ok line) :
    boundaryLine true newline boundary s = .ok line := by
  unfold boundaryLine at h ⊢
  dsimp only at h ⊢
  split at h
  · cases h
  · rename_i hshort
    rw [if_neg hshort]
    split at h
    · cases h
    · rename_i hdrop
      simpa only [hdrop] using h

theorem afterPreamble_whole {fuel : Nat} {found : Option (Bytes × Bytes)}
    (h : afterPreamble false boundary fuel s = .ok found) :
    afterPreamble true boundary fuel s = .ok found := by
  induction fuel generalizing s with
  | zero => cases h
  | succ fuel ih =>
    rw [afterPreamble] at h ⊢
    cases hline : boundaryLine false crlf boundary s with
    | error e =>
      rw [hline] at h
      cases h
    | ok line =>
      rw [hline] at h
      rw [boundaryLine_whole hline]
      cases line with
      | none => exact h
      | some line =>
        dsimp only at h ⊢
        -- only a line that is no boundary line is passed over
        split_ifs at h ⊢
        · exact h
        · exact h
        · exact h
        · exact ih h

theorem afterPart_whole {found : Option Bytes}
    (h : afterPart false newline boundary s = .ok found) :
    afterPart true newline boundary s = .ok found := by
  unfold afterPart at h ⊢
  cases hline : boundaryLine false newline boundary s with
  | error e =>
    rw [hline] at h
    cases h
  | ok line =>
    rw [hline] at h
    rw [boundaryLine_whole hline]
    cases line with
    | none => exact h
    | some line =>
      dsimp only at h ⊢
      split_ifs at h ⊢
      · exact h
      · exact h
      · -- the line was empty, and the boundary stands on the next
        cases hnext : boundaryLine false newline boundary line.2 with
        | error e =>
          rw [hnext] at h
          cases h
        | ok next =>
          rw [hnext] at h
          rw [boundaryLine_whole hnext]
          exact h

theorem partsFrom_whole {room : Nat} {ps : List Part}
    (h : partsFrom false newline boundary room s = .ok ps) :
    partsFrom true newline boundary room s = .ok ps := by
  induction room generalizing s ps with
  | zero => cases h
  | succ room ih =>
    rw [partsFrom] at h ⊢
    split at h
    · cases h
    · rename_i hgap
      rw [if_neg hgap]
      split at h
      · cases h
      · cases h
      · split at h
        · cases h
        · rename_i content behind _
          split at h
          · cases h
          · rename_i part _
            cases hbehind : afterPart false newline boundary behind with
            | error e =>
              rw [hbehind] at h
              cases h
            | ok next =>
              rw [hbehind] at h
              rw [afterPart_whole hbehind]
              cases next with
              | none => exact h
              | some next =>
                -- the parts that follow are read alike
                cases hmore : partsFrom false newline boundary room next with
                | error e => simp [hmore, Except.map] at h
                | ok more =>
                  simp only [hmore] at h
                  simp only [ih hmore]
                  exact h

/-- The parts of a body that was cut are those of a body that ends there. -/
theorem parts_whole {ps : List Part} (h : parts false boundary s = .ok ps) :
    parts true boundary s = .ok ps := by
  unfold parts at h ⊢
  split at h
  · cases h
  · rename_i hboundary
    rw [if_neg hboundary]
    cases hpreamble : afterPreamble false boundary (s.length + 1) s with
    | error e =>
      rw [hpreamble] at h
      cases h
    | ok found =>
      rw [hpreamble] at h
      rw [afterPreamble_whole hpreamble]
      cases found with
      | none => exact h
      | some found => exact partsFrom_whole h

end Multipart

/-! ## Requests over the limit -/

namespace Request

/-- A request whose body ends at the limit. -/
def cut (r : Request) (limit : Nat) : Request := { r with body := r.body.take limit }

/-- The type of a request's body, where one is given that can be read. -/
def type? (r : Request) : Option MediaType :=
  match (r.header? "Content-Type").getD [] with
  | [] => none
  | text => MediaType.parse? text

/-- A request whose body is read to its end within the limit: a JSON object that ends there, or a form
in parts whose last boundary line does. -/
inductive ClosesWithin (limit : Nat) (r : Request) : Prop where
  | object (type : MediaType) (members : List (Bytes × Json)) (rest : Bytes)
      (given : r.type? = some type) (name : type.name = Bytes.ofString "application/json")
      (read : Json.read (r.body.take limit) = .ok (.obj members, rest))
  | form (type : MediaType) (boundary : Bytes) (parts : List Multipart.Part)
      (given : r.type? = some type) (name : type.name = Bytes.ofString "multipart/form-data")
      (param : type.param (Bytes.ofString "boundary") = some boundary)
      (read : Multipart.parts false boundary (r.body.take limit) = .ok parts)

end Request

namespace Submission

variable {limit : Nat} {r : Request} {body : LimitedBody} {query : Bytes} {type : MediaType}
  {sub : Submission}

theorem ofRequest_of_type? (h : r.type? = some type) :
    ofRequest limit r = ofBody type r.query (.ofBytes limit r.body) := by
  unfold Request.type? at h
  unfold ofRequest
  cases htext : (r.header? "Content-Type").getD [] with
  | nil =>
    rw [htext] at h
    cases h
  | cons b text =>
    rw [htext] at h
    simp only [show MediaType.parse? (b :: text) = some type from h]

theorem ofRequest_of_type?_eq_none (h : r.type? = none) :
    ofRequest limit r = checkQuery r.query {} ∨ ofRequest limit r = .error .badRequest := by
  unfold Request.type? at h
  unfold ofRequest
  cases htext : (r.header? "Content-Type").getD [] with
  | nil => exact .inl rfl
  | cons b text =>
    rw [htext] at h
    simp only [show MediaType.parse? (b :: text) = none from h, or_true]

theorem ofBytes_of_lt (h : limit < r.body.length) :
    LimitedBody.ofBytes limit r.body = ⟨r.body.take limit, true⟩ := by
  simp [LimitedBody.ofBytes, h]

theorem ofBytes_cut :
    LimitedBody.ofBytes limit (r.cut limit).body = ⟨r.body.take limit, false⟩ := by
  simp [LimitedBody.ofBytes, Request.cut, List.take_take]

/-- What closes within the limit is read as if it ended there. -/
theorem ofRequest_cut (hlong : limit < r.body.length) (h : r.ClosesWithin limit) :
    ofRequest limit r = ofRequest limit (r.cut limit) := by
  -- both readers have what they need before the cut, so it is all the same to them
  cases h with
  | object type members rest given name read =>
    have hcut : (r.cut limit).type? = some type := given
    rw [ofRequest_of_type? given, ofRequest_of_type? hcut, ofBytes_of_lt hlong, ofBytes_cut]
    simp [ofBody, name, ofJsonBody, read, endsOpen]
  | form type boundary parts given name param read =>
    have hcut : (r.cut limit).type? = some type := given
    rw [ofRequest_of_type? given, ofRequest_of_type? hcut, ofBytes_of_lt hlong, ofBytes_cut]
    have hother : (Bytes.ofString "multipart/form-data" == Bytes.ofString "application/json") =
        false := by decide +kernel
    simp only [ofBody, name, hother, ofMultipartBody, param, read, Multipart.parts_whole read,
      Bool.not_true, Bool.not_false]
    rfl

theorem checkQuery_cases (query : Bytes) (s : Submission) :
    checkQuery query s = .ok s ∨ checkQuery query s = .error .badRequest := by
  unfold checkQuery
  split
  · exact .inl rfl
  · exact .inr rfl

theorem eq_of_checkQuery {s : Submission} (h : checkQuery query s = .ok sub) : sub = s := by
  rcases checkQuery_cases query s with hok | herror
  · exact Except.ok.inj (h.symm.trans hok)
  · rw [herror] at h
    cases h

theorem checkQuery_ne_tooLarge (query : Bytes) (s : Submission) :
    checkQuery query s ≠ .error .tooLarge := by
  rcases checkQuery_cases query s with h | h <;> simp [h]

/-- An object is the only value that a submission with code comes from. -/
theorem isBlank_of_json {text : Bytes} (h : ofJsonBody ⟨text, true⟩ = .ok sub)
    (hopen : ∀ members rest, Json.read text ≠ .ok (.obj members, rest)) :
    sub.code.isBlank = true := by
  unfold ofJsonBody at h
  dsimp only at h
  split at h
  · cases h
  · cases h
  · rename_i value rest hread
    split at h
    · cases h
    · cases value with
      | obj members => exact absurd hread (hopen members rest)
      | null =>
        obtain rfl : ({} : Submission) = sub := Except.ok.inj h
        rfl
      | bool _ | num _ | str _ | arr _ => cases h

/-- What does not close within the limit gives no code. -/
theorem isBlank_of_open (hlong : limit < r.body.length) (hopen : ¬ r.ClosesWithin limit)
    (h : ofRequest limit r = .ok sub) : sub.code.isBlank = true := by
  cases htype : r.type? with
  | none =>
    rcases ofRequest_of_type?_eq_none htype with hread | hread <;> rw [hread] at h
    · rw [eq_of_checkQuery h]
      rfl
    · cases h
  | some type =>
    rw [ofRequest_of_type? htype, ofBytes_of_lt hlong, ofBody] at h
    -- a JSON body, a form in parts, a form in one line, and any other type
    split at h
    · rename_i hname
      refine isBlank_of_json h fun members rest hread => hopen ?_
      exact .object type members rest htype (beq_iff_eq.mp hname) hread
    split at h
    · rename_i hname
      unfold ofMultipartBody at h
      split at h
      · cases h
      · rename_i boundary hparam
        split at h
        · cases h
        · cases h
        · rename_i parts hread
          exact absurd (.form type boundary parts htype (beq_iff_eq.mp hname) hparam hread) hopen
    split at h
    · cases h
    · rw [eq_of_checkQuery h]
      rfl

theorem truncated_of_ended (h : body.ended = .tooLarge) : body.truncated = true := by
  unfold LimitedBody.ended at h
  split at h
  · assumption
  · cases h

theorem truncated_of_bind {form : Except Rejection Submission}
    (hform : form = .error .tooLarge → body.truncated = true)
    (h : form.bind (checkQuery query) = .error .tooLarge) : body.truncated = true := by
  cases form with
  | error e => exact hform h
  | ok s => exact absurd h (checkQuery_ne_tooLarge query s)

theorem truncated_of_json (h : ofJsonBody body = .error .tooLarge) : body.truncated = true := by
  unfold ofJsonBody at h
  split at h
  · exact truncated_of_ended (Except.error.inj h)
  · cases h
  · split at h
    · rename_i hcut
      simp only [Bool.and_eq_true] at hcut
      exact hcut.1.1
    · split at h <;> cases h

theorem truncated_of_multipart (h : ofMultipartBody type body = .error .tooLarge) :
    body.truncated = true := by
  unfold ofMultipartBody at h
  split at h
  · cases h
  · split at h
    · exact truncated_of_ended (Except.error.inj h)
    · cases h
    · cases h

theorem truncated_of_query (h : ofQueryBody body = .error .tooLarge) : body.truncated = true := by
  unfold ofQueryBody at h
  split at h
  · assumption
  · split at h <;> cases h

/-- Only a body over the limit is said to be too large. -/
theorem lt_length_of_tooLarge (h : ofRequest limit r = .error .tooLarge) :
    limit < r.body.length := by
  cases htype : r.type? with
  | none =>
    rcases ofRequest_of_type?_eq_none htype with hread | hread <;> rw [hread] at h
    · exact absurd h (checkQuery_ne_tooLarge _ _)
    · cases h
  | some type =>
    rw [ofRequest_of_type? htype, ofBody] at h
    suffices htruncated : (LimitedBody.ofBytes limit r.body).truncated = true from
      of_decide_eq_true htruncated
    split at h
    · exact truncated_of_json h
    split at h
    · exact truncated_of_bind truncated_of_multipart h
    split at h
    · exact truncated_of_bind truncated_of_query h
    · exact absurd h (checkQuery_ne_tooLarge _ _)

end Submission

/-! ## Answers -/

namespace Answer

variable {registry : Registry} {limit : Nat} {r : Request}

theorem ofRequest_of_status_413 (h : (ofAnalysisRequest registry limit r).response.status = 413) :
    Submission.ofRequest limit r = .error .tooLarge := by
  unfold ofAnalysisRequest at h
  cases hread : Submission.ofRequest limit r with
  | error reason =>
    rw [hread] at h
    cases reason with
    | tooLarge => rfl
    | rateLimited | badRequest | noCode => cases h
  | ok sub =>
    rw [hread] at h
    dsimp only [ofSubmission] at h
    split at h <;> cases h

theorem exists_code_of_status_200 (h : (ofAnalysisRequest registry limit r).response.status = 200) :
    ∃ sub, Submission.ofRequest limit r = .ok sub ∧ sub.code.isBlank = false := by
  unfold ofAnalysisRequest at h
  cases hread : Submission.ofRequest limit r with
  | error reason =>
    rw [hread] at h
    cases reason <;> cases h
  | ok sub =>
    rw [hread] at h
    refine ⟨sub, rfl, ?_⟩
    dsimp only [ofSubmission] at h
    split at h
    · cases h
    · rename_i hcode
      simpa using hcode

end Answer

/-- Whether a sample counts refusals. All the others count something about analyses. -/
def Sample.isRejections : Sample → Bool
  | .rejections _ => true
  | _ => false

namespace Service

variable {s t : Service} {r : Request} {settings : Settings}

theorem le_maxUploadBytes (h : settings.violations = []) : 1024 ≤ settings.maxUploadBytes := by
  simp only [Settings.violations, List.append_eq_nil_iff] at h
  obtain ⟨⟨⟨⟨⟨-, hupload⟩, -⟩, -⟩, -⟩, -⟩ := h
  by_contra hlow
  simp [Settings.broken, hlow] at hupload

theorem answer_of_asks (h : r.AsksAnalysis) :
    t.answer r = .ofAnalysisRequest t.registry t.settings.maxUploadBytes.toNat r := by
  rw [answer, Endpoint.ofRequest_eq_analysis_iff.mpr h]

theorem lt_length_of_answer_413 (h : (t.answer r).response.status = 413) :
    t.settings.maxUploadBytes.toNat < r.body.length := by
  by_cases hasks : r.AsksAnalysis
  · rw [answer_of_asks hasks] at h
    exact Submission.lt_length_of_tooLarge (Answer.ofRequest_of_status_413 h)
  · -- no other endpoint has this status
    rw [answer] at h
    cases hend : Endpoint.ofRequest r with
    | analysis => exact absurd (Endpoint.ofRequest_eq_analysis_iff.mp hend) hasks
    | health | ready | counters | unknownPath | wrongMethod =>
      rw [hend] at h
      cases h

theorem lt_length_of_handle_413 (h : (t.handle r).1.response.status = 413) :
    t.settings.maxUploadBytes.toNat < r.body.length := by
  rcases handle_cases t r with ⟨-, hhandle⟩ | ⟨-, -, hhandle⟩ | ⟨-, -, hhandle⟩ <;>
    rw [hhandle] at h
  · cases h
  · cases h
  · exact lt_length_of_answer_413 h

/-- A request for an analysis that is not analysed is refused, and only refusals are counted. -/
theorem handle_of_status_ne_200 (ht : t.registry = .builtIn) (hasks : r.AsksAnalysis)
    (h : (t.handle r).1.response.status ≠ 200) :
    (t.handle r).1.response.status ∈ [400, 413, 429] ∧
      ∀ sample : Sample, sample.isRejections = false →
        (t.handle r).2.counters.value sample = t.counters.value sample := by
  cases handle_concludes ht r with
  | elsewhere request outcome status => exact absurd hasks request
  | analysed request code hint filename sends => exact absurd sends.status h
  | refused reason language filename sends =>
    refine ⟨sends.status ▸ refusal_status reason, fun sample hsample => ?_⟩
    have hmoves : (t.handle r).1.movements = [(.rejections reason, 1)] := by
      rw [Answer.movements, sends.outcome]
      rfl
    have hother : Sample.rejections reason ≠ sample := by
      rintro rfl
      cases hsample
    rw [handle_counters, hmoves, Counters.value_move]
    simp [Counters.sum_cons, hother]

theorem status_ne_200_of_open (hasks : r.AsksAnalysis)
    (hlong : t.settings.maxUploadBytes.toNat < r.body.length)
    (hopen : ¬ r.ClosesWithin t.settings.maxUploadBytes.toNat) :
    (t.handle r).1.response.status ≠ 200 := by
  rcases handle_cases t r with ⟨-, hhandle⟩ | ⟨-, -, hhandle⟩ | ⟨-, -, hhandle⟩ <;> rw [hhandle]
  · exact (by decide : 204 ≠ 200)
  · exact (by decide : 429 ≠ 200)
  · intro h
    have hanswer : (t.answer r).response.status = 200 := h
    rw [answer_of_asks hasks] at hanswer
    obtain ⟨sub, hread, hcode⟩ := Answer.exists_code_of_status_200 hanswer
    rw [Submission.isBlank_of_open hlong hopen hread] at hcode
    cases hcode

/-- **The limit bounds what is read.** That a body is too large is said only of one over the limit.
A body over the limit that closes within it is treated as if it ended there, and may be analysed; any
other one is refused, and nothing about an analysis is counted. -/
theorem body_limit (hstart : start settings = .ok s) (earlier : List Request) (r : Request) :
    let limit := settings.maxUploadBytes.toNat
    let t := (s.serve earlier).2
    (limit : Int) = settings.maxUploadBytes ∧
    ((t.handle r).1.response.status = 413 → limit < r.body.length) ∧
    (r.AsksAnalysis → limit < r.body.length →
      (r.ClosesWithin limit → t.handle r = t.handle (r.cut limit)) ∧
      (¬ r.ClosesWithin limit → (t.handle r).1.response.status ∈ [400, 413, 429] ∧
        ∀ sample : Sample, sample.isRejections = false →
          (t.handle r).2.counters.value sample = t.counters.value sample)) := by
  intro limit t
  obtain ⟨hvalid, hs⟩ := start_eq_ok hstart
  obtain ⟨hkept, hregistry⟩ := s.serve_kept earlier
  have hlimit : t.settings.maxUploadBytes.toNat = limit := by
    rw [hkept, hs]
  have ht : t.registry = .builtIn := by rw [hregistry, hs]
  have hlow := le_maxUploadBytes hvalid
  refine ⟨Int.toNat_of_nonneg (by omega), fun h => hlimit ▸ lt_length_of_handle_413 h, ?_⟩
  intro hasks hlong
  refine ⟨fun hcloses => t.handle_congr rfl rfl ?_, fun hopen => ?_⟩
  · rw [hlimit]
    exact Submission.ofRequest_cut hlong hcloses
  · rw [← hlimit] at hlong hopen
    exact handle_of_status_ne_200 ht hasks (status_ne_200_of_open hasks hlong hopen)

/-- Two bodies of 1100 bytes under a limit of 1024: the object of one is followed by spaces, and the
text in the other goes on to the end. -/
theorem body_limit_spaces :
    let settings : Settings := { maxUploadBytes := 1024 }
    let s : Service := { settings, tokens := none }
    let post (body : Bytes) : Request := ⟨Bytes.ofString "POST", Bytes.ofString "/",
      [(Bytes.ofString "Content-Type", Bytes.ofString "application/json")], body⟩
    let code := Bytes.ofString "\x7b\"code\":\"class A \x7b\x7d\",\"language\":\"java\"\x7d"
    let spaced := post (code ++ List.replicate (1100 - code.length) 0x20)
    let opening := Bytes.ofString "\x7b\"code\":\""
    let long := post (opening ++ List.replicate (1100 - opening.length) 0x61)
    start settings = .ok s ∧ spaced.body.length = 1100 ∧ long.body.length = 1100 ∧
      s.handle spaced = s.handle (spaced.cut 1024) ∧
      (s.handle long).1.response.status ∈ [400, 413, 429] ∧
      (s.handle long).2.counters.value .timings = 0 := by
  intro settings s post code spaced opening long
  have hstart : start settings = .ok s := by
    have hvalid : settings.violations.isEmpty = true := by decide +kernel
    rw [start, if_pos hvalid]
    rfl
  have hspaced : spaced.body.length = 1100 := by decide +kernel
  have hlong : long.body.length = 1100 := by decide +kernel
  have hjson : ∀ r ∈ [spaced, long], r.type? = some ⟨Bytes.ofString "application/json", []⟩ := by
    decide +kernel
  have hcloses : spaced.ClosesWithin 1024 := by
    have hquotes : ∀ text ∈ ["code", "class A \x7b\x7d", "language", "java"],
        Json.Quotes (Bytes.ofString text) (0x22 :: (Bytes.ofString text ++ [0x22])) := by
      have hplain : ∀ text ∈ ["code", "class A \x7b\x7d", "language", "java"],
          ∀ b ∈ Bytes.ofString text, Json.isPlain b = true := by decide +kernel
      exact fun text htext => (Json.Spells.of_plain (hplain text htext)).quotes
    have hgap : Json.IsGap (List.replicate (1024 - code.length) 0x20) := by
      intro b hb
      rw [List.eq_of_mem_replicate hb]
      rfl
    have hmembers := Json.MembersText.more (hquotes "code" (by simp))
      (hquotes "class A \x7b\x7d" (by simp))
      (.last (hquotes "language" (by simp)) (hquotes "java" (by simp)))
    have htext : Json.ObjectText _ (spaced.body.take 1024) :=
      ⟨[], _, _, List.forall_mem_nil _, hgap, hmembers, by decide +kernel⟩
    obtain ⟨rest, hread⟩ := htext.read (by decide +kernel)
    exact .object _ _ rest (hjson spaced List.mem_cons_self) rfl hread
  have hopen : ¬ long.ClosesWithin 1024 := by
    have hgiven := hjson long (List.mem_cons_of_mem _ List.mem_cons_self)
    have hbreaks : (Json.read (long.body.take 1024)).isOk = false := by decide +kernel
    intro h
    cases h with
    | object type members rest given name read =>
      rw [read] at hbreaks
      cases hbreaks
    | form type boundary parts given name param read =>
      obtain rfl := Option.some.inj (hgiven.symm.trans given)
      exact absurd name (by decide +kernel)
  have hlimit : settings.maxUploadBytes.toNat = 1024 := rfl
  obtain ⟨-, -, hover⟩ := body_limit hstart [] spaced
  obtain ⟨-, -, hover'⟩ := body_limit hstart [] long
  rw [hlimit] at hover hover'
  have hrefused := (hover' (by decide +kernel) (by rw [hlong]; omega)).2 hopen
  refine ⟨hstart, hspaced, hlong, ?_, hrefused.1, (hrefused.2 .timings rfl).trans rfl⟩
  exact (hover (by decide +kernel) (by rw [hspaced]; omega)).1 hcloses

/-- A body of 1100 bytes under a limit of 1024 is analysed, and counted as an analysis. -/
theorem body_limit_exceeded :
    let settings : Settings := { maxUploadBytes := 1024 }
    let s : Service := { settings, tokens := none }
    let code := Bytes.ofString "\x7b\"code\":\"class A \x7b\x7d\",\"language\":\"java\"\x7d"
    let r : Request := ⟨Bytes.ofString "POST", Bytes.ofString "/",
      [(Bytes.ofString "Content-Type", Bytes.ofString "application/json")],
      code ++ List.replicate (1100 - code.length) 0x20⟩
    start settings = .ok s ∧ r.AsksAnalysis ∧ settings.maxUploadBytes < r.body.length ∧
      (s.handle r).1.response.status = 200 ∧ (s.handle r).2.counters.value .timings = 1 := by
  intro settings s code r
  have hstart : start settings = .ok s := by
    have hvalid : settings.violations.isEmpty = true := by decide +kernel
    rw [start, if_pos hvalid]
    rfl
  refine ⟨hstart, ?_, ?_, ?_, ?_⟩
  · decide +kernel
  · decide +kernel
  · decide +kernel
  · decide +kernel

end Service

end ClassOutline.Http
