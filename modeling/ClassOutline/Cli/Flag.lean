import ClassOutline.Number.Literal
import ClassOutline.Text.Quoted

/-!
# Flags

A command has named flags, some with a letter for short. A flag takes a text or a number, or is a
switch, which needs no value. `readFlags` reads the flags among the arguments of a command; what is
no flag is passed by, and two dashes end the flags.
-/

namespace ClassOutline.Cli

/-- What a flag takes. -/
inductive FlagKind where
  | text
  | number
  | switch
deriving DecidableEq, Repr

/-- A flag of a command. -/
structure Flag where
  name : String
  letter : Option UInt8 := none
  kind : FlagKind := .text
deriving DecidableEq, Repr

/-- The value of a flag. -/
inductive FlagValue where
  | text (s : Bytes)
  | number (n : Int)
  | switch (b : Bool)
deriving DecidableEq, Repr

/-- The values of flags that were given, the latest first. -/
abbrev FlagValues := List (String × FlagValue)

/-! ## Errors -/

/-- Why the flags cannot be read. -/
inductive FlagError where
  | badForm (arg : Bytes)
  | unknown (name : Bytes)
  | unknownLetter (letter : UInt8) (cluster : Bytes)
  | noValue (arg : Bytes)
  | noLetterValue (letter : UInt8) (cluster : Bytes)
  | badNumber (flag : Flag) (value : Bytes) (fault : Number.LiteralFault)
  | badSwitch (flag : Flag) (value : Bytes)
deriving DecidableEq, Repr

/-- A flag as messages name it. -/
def Flag.shown (f : Flag) : Bytes :=
  match f.letter with
  | some letter => [0x2D, letter] ++ Bytes.ofString (", --" ++ f.name)
  | none => Bytes.ofString ("--" ++ f.name)

/-- A byte as a character between single quotes. Outside ASCII it is the first byte of the UTF-8 form
that is shown. -/
def shownLetter (letter : UInt8) : Bytes :=
  let code := ((Bytes.ofCodePoint letter.toNat).headD letter).toNat
  let inner :=
    if letter == 0x27 then [0x5C, 0x27]
    else if letter == 0x22 then [0x22]
    else Bytes.quotedRune ⟨code, Bytes.ofCodePoint code⟩
  0x27 :: inner ++ [0x27]

/-- The message for a value that a flag does not take. -/
def badValue (flag : Flag) (value reason : Bytes) : Bytes :=
  Bytes.ofString "invalid argument " ++ value.quoted ++ Bytes.ofString " for " ++ flag.shown.quoted ++
    Bytes.ofString " flag: " ++ reason

/-- The error in words. -/
def FlagError.message : FlagError → Bytes
  | .badForm arg => Bytes.ofString "bad flag syntax: " ++ arg
  | .unknown name => Bytes.ofString "unknown flag: --" ++ name
  | .unknownLetter letter cluster =>
    Bytes.ofString "unknown shorthand flag: " ++ shownLetter letter ++ Bytes.ofString " in -" ++ cluster
  | .noValue arg => Bytes.ofString "flag needs an argument: " ++ arg
  | .noLetterValue letter cluster =>
    Bytes.ofString "flag needs an argument: " ++ shownLetter letter ++ Bytes.ofString " in -" ++ cluster
  | .badNumber flag value fault =>
    badValue flag value <|
      Bytes.ofString "strconv.ParseInt: parsing " ++ value.quoted ++
        Bytes.ofString (": " ++ fault.text)
  | .badSwitch flag value =>
    badValue flag value <|
      Bytes.ofString "strconv.ParseBool: parsing " ++ value.quoted ++ Bytes.ofString ": invalid syntax"

/-! ## Reading -/

/-- The position of a switch. -/
def switch? (s : Bytes) : Option Bool :=
  if (["1", "t", "T", "TRUE", "true", "True"].map Bytes.ofString).contains s then some true
  else if (["0", "f", "F", "FALSE", "false", "False"].map Bytes.ofString).contains s then some false
  else none

/-- The values with one more. -/
def Flag.set (f : Flag) (value : Bytes) (values : FlagValues) : Except FlagError FlagValues :=
  match f.kind with
  | .text => .ok ((f.name, .text value) :: values)
  | .number =>
    match Number.literal value with
    | .ok n => .ok ((f.name, .number n) :: values)
    | .error fault => .error (.badNumber f value fault)
  | .switch =>
    match switch? value with
    | some b => .ok ((f.name, .switch b) :: values)
    | none => .error (.badSwitch f value)

/-- The flag of a name. -/
def named? (flags : List Flag) (name : Bytes) : Option Flag :=
  flags.find? fun f => Bytes.ofString f.name == name

/-- The flag of a letter. -/
def lettered? (flags : List Flag) (letter : UInt8) : Option Flag :=
  flags.find? fun f => f.letter == some letter

/-- One argument with two dashes: the values, and whether the next argument was taken. -/
def readLong (flags : List Flag) (arg : Bytes) (next : Option Bytes) (values : FlagValues) :
    Except FlagError (FlagValues × Bool) :=
  let text := arg.drop 2
  let name := text.takeWhile (· != 0x3D)
  if name.isEmpty || name.head? == some 0x2D then .error (.badForm arg)
  else
    match named? flags name with
    | none => .error (.unknown name)
    | some f =>
      if name.length < text.length then
        (f.set (text.drop (name.length + 1)) values).map fun vs => (vs, false)
      else if f.kind = .switch then .ok ((f.name, .switch true) :: values, false)
      else
        match next with
        | some value => (f.set value values).map fun vs => (vs, true)
        | none => .error (.noValue arg)

/-- The letters after one dash: the values, and whether the next argument was taken. What follows a
letter that takes a value is its value. Letters that begin with `test.` belong to whoever tries the
program out and are passed by. -/
def readCluster (flags : List Flag) (next : Option Bytes) :
    (cluster : Bytes) → FlagValues → Except FlagError (FlagValues × Bool)
  | [], values => .ok (values, false)
  | letter :: rest, values =>
    if (Bytes.ofString "test.").isPrefixOf (letter :: rest) then .ok (values, false)
    else
      match lettered? flags letter with
      | none => .error (.unknownLetter letter (letter :: rest))
      | some f =>
        if rest.head? == some 0x3D && 1 < rest.length then
          (f.set (rest.drop 1) values).map fun vs => (vs, false)
        else if f.kind = .switch then
          readCluster flags next rest ((f.name, .switch true) :: values)
        else if !rest.isEmpty then (f.set rest values).map fun vs => (vs, false)
        else
          match next with
          | some value => (f.set value values).map fun vs => (vs, true)
          | none => .error (.noLetterValue letter (letter :: rest))

/-- The flags from an argument on. `taken` says that the argument is the value of the one before. -/
def readFlagsFrom (flags : List Flag) :
    (taken : Bool) → FlagValues → List Bytes → Except FlagError FlagValues
  | _, values, [] => .ok values
  | true, values, _ :: args => readFlagsFrom flags false values args
  | false, values, arg :: args =>
    match arg with
    | [0x2D, 0x2D] => .ok values
    | 0x2D :: b :: rest =>
      let step :=
        if b == 0x2D then readLong flags arg args.head? values
        else readCluster flags args.head? (b :: rest) values
      match step with
      | .ok (values, taken) => readFlagsFrom flags taken values args
      | .error e => .error e
    | _ => readFlagsFrom flags false values args

/-- The values of the flags among some arguments. -/
def readFlags (flags : List Flag) (args : List Bytes) : Except FlagError FlagValues :=
  readFlagsFrom flags false [] args

/-! ## Values -/

namespace FlagValues

/-- The value that counts for a flag: the latest. -/
def get? (values : FlagValues) (name : String) : Option FlagValue :=
  (values.find? fun v => v.1 == name).map Prod.snd

/-- Whether a flag was given. -/
def has (values : FlagValues) (name : String) : Bool := (values.get? name).isSome

/-- The text of a flag. -/
def text (values : FlagValues) (name : String) (absent : Bytes) : Bytes :=
  match values.get? name with
  | some (.text s) => s
  | _ => absent

/-- The number of a flag, zero where it was not given. -/
def number (values : FlagValues) (name : String) : Int :=
  match values.get? name with
  | some (.number n) => n
  | _ => 0

/-- Whether a switch is on. -/
def isOn (values : FlagValues) (name : String) : Bool := values.get? name = some (.switch true)

end FlagValues

end ClassOutline.Cli
