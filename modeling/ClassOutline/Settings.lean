import ClassOutline.Number.Duration
import ClassOutline.Text.LowerCase

/-!
# Settings of the service

The service reads eight variables of its environment. A variable that is unset, empty, or not
readable as a number or duration where one is wanted leaves the default in place. The settings are
then held against a range for each field; a service starts only with settings that break no rule.
-/

namespace ClassOutline

open Number

/-- The settings of the service. -/
structure Settings where
  port : Int := 8080
  env : Bytes := Bytes.ofString "development"
  logLevel : Bytes := Bytes.ofString "info"
  /-- The greatest number of bytes in the body of a request. -/
  maxUploadBytes : Int := 2097152
  /-- The time allowed for a request, in nanoseconds. -/
  requestTimeout : Int := 30000000000
  /-- Requests per second that may be analysed; zero switches the limit off. -/
  rateLimit : Binary64 := .zero
  /-- How many requests may come at once. -/
  rateBurst : Int := 20
  /-- The origin that web pages may call from. -/
  corsOrigin : Bytes := Bytes.ofString "*"
deriving DecidableEq, Repr

namespace Settings

/-! ## From the environment -/

/-- The values of the environment's variables; an unset variable is not listed. -/
abbrev Environment := List (Bytes × Bytes)

/-- The value of a variable, unless it is unset or empty. -/
def lookup? (env : Environment) (name : String) : Option Bytes :=
  ((env.find? fun v => v.1 == Bytes.ofString name).map Prod.snd).filter fun v => !v.isEmpty

/-- The settings that an environment asks for. -/
def ofEnvironment (env : Environment) : Settings :=
  let defaults : Settings := {}
  { port := ((lookup? env "PORT").bind int64?).getD defaults.port
    env := (lookup? env "ENV").getD defaults.env
    logLevel := Bytes.lower ((lookup? env "LOG_LEVEL").getD defaults.logLevel)
    maxUploadBytes := ((lookup? env "MAX_UPLOAD_BYTES").bind int64?).getD defaults.maxUploadBytes
    requestTimeout :=
      ((lookup? env "REQUEST_TIMEOUT").bind Duration.parse?).getD defaults.requestTimeout
    rateLimit := ((lookup? env "RATE_LIMIT_RPS").bind Binary64.parse?).getD defaults.rateLimit
    rateBurst := ((lookup? env "RATE_LIMIT_BURST").bind int64?).getD defaults.rateBurst
    corsOrigin := (lookup? env "CORS_ALLOW_ORIGIN").getD defaults.corsOrigin }

/-- Whether the service runs in production. -/
def isProduction (c : Settings) : Bool := c.env == Bytes.ofString "production"

/-! ## Rules -/

/-- The fields of the settings, in their order. -/
inductive Field where
  | port
  | env
  | logLevel
  | maxUploadBytes
  | requestTimeout
  | rateLimit
  | rateBurst
  | corsOrigin
deriving DecidableEq, Repr

/-- The rules that a field can break. -/
inductive Rule where
  | atLeast
  | atMost
  | oneOf
  | present
deriving DecidableEq, Repr

/-- A field and the rule it breaks. -/
structure Violation where
  field : Field
  rule : Rule
deriving DecidableEq, Repr

/-- Whether a text is one of some words. -/
def isAmong (words : List String) (s : Bytes) : Bool := words.any fun w => Bytes.ofString w == s

/-- The first rule that a field breaks, given each rule and whether it holds. -/
def broken (field : Field) (rules : List (Rule × Bool)) : List Violation :=
  ((rules.find? fun r => !r.2).map fun r => Violation.mk field r.1).toList

/-- The fields out of range, in their order, each with the first rule that it breaks. -/
def violations (c : Settings) : List Violation :=
  broken .port [(.atLeast, decide (1 ≤ c.port)), (.atMost, decide (c.port ≤ 65535))] ++
    broken .env [(.oneOf, isAmong ["development", "staging", "production", "test"] c.env)] ++
    broken .logLevel [(.oneOf, isAmong ["trace", "debug", "info", "warn", "error"] c.logLevel)] ++
    broken .maxUploadBytes [(.atLeast, decide (1024 ≤ c.maxUploadBytes))] ++
    broken .requestTimeout [(.atLeast, decide (1000000000 ≤ c.requestTimeout))] ++
    broken .rateLimit [(.atLeast, c.rateLimit.isNonNegative)] ++
    broken .rateBurst [(.atLeast, decide (1 ≤ c.rateBurst))] ++
    broken .corsOrigin [(.present, !c.corsOrigin.isEmpty)]

/-- The name of a field in messages. -/
def Field.label : Field → String
  | .port => "Port"
  | .env => "Env"
  | .logLevel => "LogLevel"
  | .maxUploadBytes => "MaxUploadBytes"
  | .requestTimeout => "RequestTimeout"
  | .rateLimit => "RateLimitRPS"
  | .rateBurst => "RateLimitBurst"
  | .corsOrigin => "CORSAllowOrigin"

/-- The name of a rule in messages. -/
def Rule.label : Rule → String
  | .atLeast => "min"
  | .atMost => "max"
  | .oneOf => "oneof"
  | .present => "required"

/-- The line for a violation. -/
def Violation.message (v : Violation) : Bytes :=
  Bytes.ofString ("Key: 'Config." ++ v.field.label ++ "' Error:Field validation for '" ++
    v.field.label ++ "' failed on the '" ++ v.rule.label ++ "' tag")

/-- The message for settings that break rules: one line for each field. -/
def invalidMessage (vs : List Violation) : Bytes :=
  Bytes.ofString "invalid configuration: " ++ Bytes.join [10] (vs.map Violation.message)

end Settings

end ClassOutline
