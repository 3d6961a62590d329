import ClassOutline.Http.Service
import ClassOutline.Proofs.Text.Encoding
import ClassOutline.Proofs.Text.OneLine

/-!
# Settings from the environment

A variable of the environment can go wrong in two ways. Where its text cannot be read, the default
stays as if the variable were unset (`Settings.ofEnvironment_unset`). Where a value is read that is
out of range, the service refuses to start. Nothing else makes it refuse: every default keeps the
rules of its field, so a field breaks its rules exactly if its own variable is out of range
(`Settings.keeps_ofEnvironment`).

The fields are a family. Each has a variable (`Field.variable`), texts that can be read for it
(`Field.reads`) and texts that are out of range (`Field.isOutOfRange`); what differs from field to
field is said there and nowhere else.
-/

namespace ClassOutline.Settings

open Number

variable {env : Environment} {c : Settings}

/-! ## Fields and variables -/

/-- The variable that a field is read from. -/
def Field.variable : Field → String
  | .port => "PORT"
  | .env => "ENV"
  | .logLevel => "LOG_LEVEL"
  | .maxUploadBytes => "MAX_UPLOAD_BYTES"
  | .requestTimeout => "REQUEST_TIMEOUT"
  | .rateLimit => "RATE_LIMIT_RPS"
  | .rateBurst => "RATE_LIMIT_BURST"
  | .corsOrigin => "CORS_ALLOW_ORIGIN"

/-- The fields in their order. -/
def Field.all : List Field :=
  [.port, .env, .logLevel, .maxUploadBytes, .requestTimeout, .rateLimit, .rateBurst, .corsOrigin]

theorem Field.mem_all (f : Field) : f ∈ all := by cases f <;> decide

/-- Different fields have different variables. -/
theorem Field.variable_injective {f g : Field} (h : f.variable = g.variable) : f = g := by
  cases f <;> cases g <;> first | rfl | exact absurd h (by decide)

/-- Whether a value for a field can be read from a text. Any text will do for a field that is one. -/
def Field.reads : Field → Bytes → Bool
  | .port, v | .maxUploadBytes, v | .rateBurst, v => (int64? v).isSome
  | .requestTimeout, v => (Duration.parse? v).isSome
  | .rateLimit, v => (Binary64.parse? v).isSome
  | .env, _ | .logLevel, _ | .corsOrigin, _ => true

/-- Whether a value for a field can be read from a text, and is out of the field's range. -/
def Field.isOutOfRange : Field → Bytes → Bool
  | .port, v => (int64? v).any fun n => n < 1 || 65535 < n
  | .env, v => !isAmong ["development", "staging", "production", "test"] v
  | .logLevel, v => !isAmong ["trace", "debug", "info", "warn", "error"] v.lower
  | .maxUploadBytes, v => (int64? v).any (· < 1024)
  | .requestTimeout, v => (Duration.parse? v).any (· < 1000000000)
  | .rateLimit, v => (Binary64.parse? v).any fun x => !x.isNonNegative
  | .rateBurst, v => (int64? v).any (· < 1)
  | .corsOrigin, _ => false

/-- Whether the variable of a field is set to a text that is out of range. -/
def Field.offends (env : Environment) (f : Field) : Bool :=
  (lookup? env f.variable).any f.isOutOfRange

/-! ## A variable that cannot be read -/

theorem ne_nil_of_lookup? {name : String} {v : Bytes} (h : lookup? env name = some v) : v ≠ [] := by
  rw [lookup?, Option.filter_eq_some_iff] at h
  simpa using h.2

/-- The environment without a variable. -/
def unset (name : String) (env : Environment) : Environment :=
  env.filter fun v => v.1 != Bytes.ofString name

theorem lookup?_unset_self (name : String) (env : Environment) : lookup? (unset name env) name = none := by
  have hnone : (unset name env).find? (fun v => v.1 == Bytes.ofString name) = none := by
    rw [List.find?_eq_none]
    intro v hv
    simpa [unset] using (List.mem_filter.mp hv).2
  rw [lookup?, hnone]
  rfl

theorem lookup?_unset_of_ne {name other : String} (h : other ≠ name) (env : Environment) :
    lookup? (unset name env) other = lookup? env other := by
  have hkept : (fun v : Bytes × Bytes => decide ((v.1 != Bytes.ofString name) = true ∧
      (v.1 == Bytes.ofString other) = true)) = fun v => v.1 == Bytes.ofString other := by
    funext v
    by_cases hv : v.1 = Bytes.ofString other
    · simp [hv, Bytes.ofString_inj, h]
    · simp [hv]
  rw [lookup?, lookup?, unset, List.find?_filter, hkept]

/-- What is read of a variable does not change with one that cannot be read. -/
theorem bind_lookup?_unset {f g : Field} {v : Bytes} (hset : lookup? env f.variable = some v)
    {α : Type} (read : Bytes → Option α) (hread : g = f → read v = none) :
    (lookup? (unset f.variable env) g.variable).bind read = (lookup? env g.variable).bind read := by
  by_cases hg : g = f
  · rw [hg, lookup?_unset_self, hset, Option.bind_some, hread hg, Option.bind_none]
  · rw [lookup?_unset_of_ne fun heq => hg (Field.variable_injective heq)]

/-- A variable that cannot be read counts like one that is not set. -/
theorem ofEnvironment_unset {f : Field} {v : Bytes} (hset : lookup? env f.variable = some v)
    (hreads : f.reads v = false) : ofEnvironment (unset f.variable env) = ofEnvironment env := by
  -- a number or duration is read of its own text, and of no other
  have hvalue {g : Field} {α : Type} {read : Bytes → Option α}
      (hg : g.reads v = (read v).isSome) :=
    bind_lookup?_unset (g := g) hset read fun heq => by
      rw [← heq, hg, Option.isSome_eq_false_iff] at hreads
      exact Option.isNone_iff_eq_none.mp hreads
  have htext {g : Field} (hg : g.reads v = true) :
      lookup? (unset f.variable env) g.variable = lookup? env g.variable := by
    refine lookup?_unset_of_ne (fun heq => ?_) env
    rw [← Field.variable_injective heq, hg] at hreads
    cases hreads
  unfold ofEnvironment
  dsimp only
  congr 1
  · exact congrArg (Option.getD · _) (hvalue (g := .port) rfl)
  · exact congrArg (Option.getD · _) (htext (g := .env) rfl)
  · exact congrArg (fun o => Bytes.lower (Option.getD o _)) (htext (g := .logLevel) rfl)
  · exact congrArg (Option.getD · _) (hvalue (g := .maxUploadBytes) rfl)
  · exact congrArg (Option.getD · _) (hvalue (g := .requestTimeout) rfl)
  · exact congrArg (Option.getD · _) (hvalue (g := .rateLimit) rfl)
  · exact congrArg (Option.getD · _) (hvalue (g := .rateBurst) rfl)
  · exact congrArg (Option.getD · _) (htext (g := .corsOrigin) rfl)

/-! ## Rules -/

/-- The rules of a field, each with whether the settings keep it. -/
def rules (c : Settings) : Field → List (Rule × Bool)
  | .port => [(.atLeast, decide (1 ≤ c.port)), (.atMost, decide (c.port ≤ 65535))]
  | .env => [(.oneOf, isAmong ["development", "staging", "production", "test"] c.env)]
  | .logLevel => [(.oneOf, isAmong ["trace", "debug", "info", "warn", "error"] c.logLevel)]
  | .maxUploadBytes => [(.atLeast, decide (1024 ≤ c.maxUploadBytes))]
  | .requestTimeout => [(.atLeast, decide (1000000000 ≤ c.requestTimeout))]
  | .rateLimit => [(.atLeast, c.rateLimit.isNonNegative)]
  | .rateBurst => [(.atLeast, decide (1 ≤ c.rateBurst))]
  | .corsOrigin => [(.present, !c.corsOrigin.isEmpty)]

/-- Whether the settings keep every rule of a field. -/
def keeps (c : Settings) (f : Field) : Bool := (c.rules f).all Prod.snd

theorem violations_eq_flatMap (c : Settings) :
    c.violations = Field.all.flatMap fun f => broken f (c.rules f) := by
  simp only [violations, Field.all, rules, List.flatMap_cons, List.flatMap_nil, List.append_nil,
    List.append_assoc]

/-- A field is reported once if it breaks a rule, however many it breaks. -/
theorem map_field_broken (f : Field) (rs : List (Rule × Bool)) :
    (broken f rs).map Violation.field = if rs.all Prod.snd then [] else [f] := by
  unfold broken
  cases hfind : rs.find? fun r => !r.2 with
  | none =>
    have hall : rs.all Prod.snd = true := by
      rw [List.all_eq_true]
      intro r hr
      simpa using List.find?_eq_none.mp hfind r hr
    rw [hall]
    rfl
  | some r =>
    have hbroken := List.find?_some hfind
    have hall : rs.all Prod.snd = false := by
      rw [List.all_eq_false]
      exact ⟨r, List.mem_of_find?_eq_some hfind, by simpa using hbroken⟩
    rw [hall]
    rfl

theorem map_field_violations (c : Settings) :
    c.violations.map Violation.field = Field.all.filter fun f => !c.keeps f := by
  rw [violations_eq_flatMap, List.map_flatMap]
  simp only [map_field_broken]
  induction Field.all with
  | nil => rfl
  | cons f fields ih =>
    rw [List.flatMap_cons, ih, List.filter_cons, keeps]
    cases (c.rules f).all Prod.snd <;> rfl

/-! ## Fields and their variables -/

section

variable {o : Option Bytes} {bad : Bytes → Bool}

/-- A value that is read of a variable, or else the default, is fine unless the variable is set to
one that is not: the default is. -/
theorem fine_value {α : Type} {read : Bytes → Option α} {default : α} {wrong : α → Bool}
    (fine : α → Bool) (hbad : ∀ v, bad v = (read v).any wrong) (hdefault : fine default = true)
    (hwrong : ∀ a, wrong a = !fine a) : fine ((o.bind read).getD default) = !o.any bad := by
  cases o with
  | none => exact hdefault
  | some v =>
    rw [Option.bind_some, Option.any_some, hbad]
    cases read v with
    | none => exact hdefault
    | some a => rw [Option.getD_some, Option.any_some, hwrong, Bool.not_not]

theorem fine_text {default : Bytes} (fine : Bytes → Bool) (hbad : ∀ v, bad v = !fine v)
    (hdefault : fine default = true) : fine (o.getD default) = !o.any bad := by
  cases o with
  | none => exact hdefault
  | some v => rw [Option.getD_some, Option.any_some, hbad, Bool.not_not]

end

/-- The settings keep the rules of a field unless its own variable is out of range. -/
theorem keeps_ofEnvironment (env : Environment) (f : Field) :
    (ofEnvironment env).keeps f = !f.offends env := by
  have hnumber (least n : Int) : (decide (n < least)) = !(decide (least ≤ n) && true) := by
    rw [Bool.and_true, ← decide_not]
    exact decide_eq_decide.mpr Int.not_le.symm
  -- the fields differ in how they are read, in their default and in their rules
  cases f with
  | port =>
    refine fine_value (fun n => decide (1 ≤ n) && (decide (n ≤ 65535) && true))
      (fun _ => rfl) rfl fun n => ?_
    rw [hnumber 1, Bool.and_true, Bool.and_true, Bool.not_and, ← decide_not (p := n ≤ 65535)]
    exact congrArg _ (decide_eq_decide.mpr Int.not_le.symm)
  | env =>
    exact fine_text (fun v => isAmong _ v && true) (fun v => by rw [Bool.and_true]; rfl)
      (by decide)
  | logLevel =>
    exact fine_text (fun v => isAmong _ v.lower && true)
      (fun v => by rw [Bool.and_true]; rfl) (by decide)
  | maxUploadBytes =>
    exact fine_value (fun n => decide (1024 ≤ n) && true) (fun _ => rfl) rfl (hnumber 1024)
  | requestTimeout =>
    exact fine_value (fun n => decide (1000000000 ≤ n) && true) (fun _ => rfl) rfl
      (hnumber 1000000000)
  | rateLimit =>
    exact fine_value (fun x : Binary64 => x.isNonNegative && true) (fun _ => rfl) rfl
      (fun x => by rw [Bool.and_true])
  | rateBurst =>
    exact fine_value (fun n => decide (1 ≤ n) && true) (fun _ => rfl) rfl (hnumber 1)
  | corsOrigin =>
    -- a variable that is set is not empty, and that is all the field asks for
    show (!((lookup? env "CORS_ALLOW_ORIGIN").getD (Bytes.ofString "*")).isEmpty && true) =
      !(lookup? env "CORS_ALLOW_ORIGIN").any fun _ => false
    cases horigin : lookup? env "CORS_ALLOW_ORIGIN" with
    | none => rfl
    | some v =>
      have hne : v.isEmpty = false := by simpa using ne_nil_of_lookup? horigin
      rw [Option.getD_some, hne]
      rfl

/-! ## Messages -/

theorem violation_field_ne {v : Violation} (h : v ∈ (ofEnvironment env).violations) :
    v.field ≠ .corsOrigin := by
  have hmem : v.field ∈ (ofEnvironment env).violations.map Violation.field :=
    List.mem_map_of_mem h
  rw [map_field_violations, List.mem_filter, keeps_ofEnvironment, Bool.not_not] at hmem
  -- a field is reported for its own variable only, and no text is out of range for the origin
  intro horigin
  rw [horigin] at hmem
  have hnone : Field.corsOrigin.offends env = false := by
    unfold Field.offends Field.isOutOfRange
    cases lookup? env Field.corsOrigin.variable <;> rfl
  rw [hnone] at hmem
  cases hmem.2

/-- The texts that the messages about some fields are made of. -/
def vocabulary (fields : List Field) : List String :=
  ["Key: 'Config.", "' Error:Field validation for '", "' failed on the '", "' tag"] ++
    fields.map Field.label ++ [Rule.atLeast, .atMost, .oneOf, .present].map Rule.label

theorem exists_of_mem_message {v : Violation} {fields : List Field} (hv : v.field ∈ fields)
    {b : UInt8} (h : b ∈ v.message) : ∃ w ∈ vocabulary fields, b ∈ Bytes.ofString w := by
  have hfield : v.field.label ∈ vocabulary fields := by
    simp [vocabulary, List.mem_map_of_mem hv]
  have hrule : v.rule.label ∈ vocabulary fields := by
    cases v.rule <;> simp [vocabulary]
  have hwords : ∀ w ∈ ["Key: 'Config.", "' Error:Field validation for '", "' failed on the '",
      "' tag"], w ∈ vocabulary fields := by
    intro w hw
    exact List.mem_append_left _ (List.mem_append_left _ hw)
  simp only [Violation.message, Bytes.ofString_append, List.mem_append] at h
  obtain (((((h | h) | h) | h) | h) | h) | h := h
  · exact ⟨_, hwords _ (by simp), h⟩
  · exact ⟨_, hfield, h⟩
  · exact ⟨_, hwords _ (by simp), h⟩
  · exact ⟨_, hfield, h⟩
  · exact ⟨_, hwords _ (by simp), h⟩
  · exact ⟨_, hrule, h⟩
  · exact ⟨_, hwords _ (by simp), h⟩

theorem newline_not_mem_message (v : Violation) : (10 : UInt8) ∉ v.message := by
  have hwords : ∀ w ∈ vocabulary Field.all, (10 : UInt8) ∉ Bytes.ofString w := by decide +kernel
  intro h
  obtain ⟨w, hw, hmem⟩ := exists_of_mem_message (Field.mem_all _) h
  exact hwords w hw hmem

/-- Only the name of the origin has this letter. -/
theorem letter_not_mem_message {v : Violation} (hv : v.field ≠ .corsOrigin) :
    (0x4F : UInt8) ∉ v.message := by
  have hwords : ∀ w ∈ vocabulary (Field.all.erase .corsOrigin), (0x4F : UInt8) ∉ Bytes.ofString w := by
    decide +kernel
  intro h
  obtain ⟨w, hw, hmem⟩ := exists_of_mem_message ((List.mem_erase_of_ne hv).mpr (Field.mem_all _)) h
  exact hwords w hw hmem

theorem split_invalidMessage {vs : List Violation} (hvs : vs ≠ []) :
    ∃ text, invalidMessage vs = Bytes.ofString "invalid configuration: " ++ text ∧
      Bytes.split 10 text = vs.map Violation.message := by
  refine ⟨_, rfl, Bytes.split_join (by simpa using hvs) ?_⟩
  intro line hline
  obtain ⟨v, -, rfl⟩ := List.mem_map.mp hline
  exact newline_not_mem_message v

theorem origin_not_infix {vs : List Violation} (hvs : ∀ v ∈ vs, v.field ≠ .corsOrigin) :
    ¬ Bytes.ofString Field.corsOrigin.label <:+: invalidMessage vs := by
  intro hinfix
  have hletter : (0x4F : UInt8) ∈ invalidMessage vs := hinfix.subset (by decide)
  obtain hfront | hlines := List.mem_append.mp hletter
  · exact absurd hfront (by decide)
  · obtain hsep | ⟨line, hline, hmem⟩ := Bytes.of_mem_join hlines
    · exact absurd hsep (by decide)
    · obtain ⟨v, hv, rfl⟩ := List.mem_map.mp hline
      exact letter_not_mem_message (hvs v hv) hmem

/-! ## Starting -/

theorem violations_eq_nil_iff (env : Environment) :
    (ofEnvironment env).violations = [] ↔ ∀ f : Field, f.offends env = false := by
  rw [← List.map_eq_nil_iff, map_field_violations, List.filter_eq_nil_iff]
  simp [keeps_ofEnvironment, Field.mem_all]

theorem start_eq_error_iff {vs : List Violation} :
    Http.Service.start c = .error vs ↔ vs ≠ [] ∧ vs = c.violations := by
  unfold Http.Service.start
  split
  · rename_i hnone
    rw [List.isEmpty_iff.mp hnone]
    exact ⟨nofun, fun h => absurd h.2 h.1⟩
  · rename_i hsome
    rw [List.isEmpty_iff] at hsome
    constructor
    · rintro ⟨⟩
      exact ⟨hsome, rfl⟩
    · rintro ⟨-, rfl⟩
      rfl

/-- **Only values out of range keep the service from starting.** A variable that cannot be read counts
like one that is not set. The settings of an environment break a rule, and the service refuses to
start with them, exactly if some variable is set to a value that is out of the range of its field. It
then reports these fields in their order, each on one line of the message, and never the origin. -/
theorem environment_checked (env : Environment) :
    (∀ (f : Field) (v : Bytes), lookup? env f.variable = some v → f.reads v = false →
      ofEnvironment (unset f.variable env) = ofEnvironment env) ∧
    ((ofEnvironment env).violations ≠ [] ↔
      ∃ (f : Field) (v : Bytes), lookup? env f.variable = some v ∧ f.isOutOfRange v = true) ∧
    ((∃ vs, Http.Service.start (ofEnvironment env) = .error vs) ↔
      ∃ (f : Field) (v : Bytes), lookup? env f.variable = some v ∧ f.isOutOfRange v = true) ∧
    ∀ vs, Http.Service.start (ofEnvironment env) = .error vs →
      vs.map Violation.field = Field.all.filter (Field.offends env) ∧
      (∃ text, invalidMessage vs = Bytes.ofString "invalid configuration: " ++ text ∧
        Bytes.split 10 text = vs.map Violation.message) ∧
      ¬ Bytes.ofString Field.corsOrigin.label <:+: invalidMessage vs := by
  have hrefused : (ofEnvironment env).violations ≠ [] ↔
      ∃ (f : Field) (v : Bytes), lookup? env f.variable = some v ∧ f.isOutOfRange v = true := by
    simp only [ne_eq, violations_eq_nil_iff, not_forall, Bool.not_eq_false, Field.offends,
      Option.any_eq_true]
  refine ⟨fun _ _ => ofEnvironment_unset, hrefused, ?started, ?report⟩
  case started =>
    rw [← hrefused]
    simp only [start_eq_error_iff]
    exact ⟨fun ⟨_, hne, heq⟩ => heq ▸ hne, fun hne => ⟨_, hne, rfl⟩⟩
  case report =>
    intro vs herror
    obtain ⟨hne, rfl⟩ := start_eq_error_iff.mp herror
    refine ⟨?_, split_invalidMessage hne, origin_not_infix fun v => violation_field_ne⟩
    rw [map_field_violations]
    simp only [keeps_ofEnvironment, Bool.not_not]

/-- Three variables out of range, one that cannot be read, and a level in capitals. -/
theorem environment_checked_mixed :
    let env : Environment :=
      [("RATE_LIMIT_RPS", "nan"), ("PORT", "70000"), ("MAX_UPLOAD_BYTES", "2MB"),
        ("LOG_LEVEL", "WARN"), ("REQUEST_TIMEOUT", "1ms"), ("CORS_ALLOW_ORIGIN", "-")].map
          fun v => (Bytes.ofString v.1, Bytes.ofString v.2)
    let vs : List Violation :=
      [⟨.port, .atMost⟩, ⟨.requestTimeout, .atLeast⟩, ⟨.rateLimit, .atLeast⟩]
    ofEnvironment (unset "MAX_UPLOAD_BYTES" env) = ofEnvironment env ∧
      Http.Service.start (ofEnvironment env) = .error vs ∧
      vs.map Violation.field = Field.all.filter (Field.offends env) ∧
      ¬ Bytes.ofString "CORSAllowOrigin" <:+: invalidMessage vs := by
  intro env vs
  obtain ⟨hunset, -, -, hreport⟩ := environment_checked env
  have herror : Http.Service.start (ofEnvironment env) = .error vs :=
    start_eq_error_iff.mpr ⟨by decide, by decide +kernel⟩
  have hset : lookup? env "MAX_UPLOAD_BYTES" = some (Bytes.ofString "2MB") := by decide +kernel
  obtain ⟨hfields, -, horigin⟩ := hreport vs herror
  exact ⟨hunset .maxUploadBytes _ hset (by decide), herror, hfields, horigin⟩

end ClassOutline.Settings
