import ClassOutline.Cli.Flag
import ClassOutline.Text.EditDistance
import ClassOutline.Text.LowerCase

/-!
# Commands

The commands of the program with their flags, and the call that a list of arguments makes: which
command is meant, and the values of its flags. The command is the first argument that is neither a
flag nor the value of one; it may stand behind flags.
-/

namespace ClassOutline.Cli

/-- The commands. Without any, the program itself is called. -/
inductive Command where
  | program
  | parse
  | detect
  | scan
  | init
  | help
  | completion
deriving DecidableEq, Repr

namespace Command

/-- The name of the program. -/
def programName : String := "umlparse"

/-- The version of the program. -/
def version : String := "dev"

/-- The commands with the words that call them. -/
def words : List (String × Command) :=
  [("parse", .parse), ("detect", .detect), ("scan", .scan), ("init", .init),
    ("completion", .completion), ("help", .help)]

/-- The command of a word. -/
def ofWord? (word : Bytes) : Option Command :=
  (words.find? fun w => Bytes.ofString w.1 == word).map Prod.snd

/-! ## Flags -/

/-- The flag that every command has. -/
def logLevelFlag : Flag := { name := "log-level" }

/-- The flag that asks for help. -/
def helpFlag : Flag := { name := "help", letter := some 0x68, kind := .switch }

/-- The flags of a command of its own. -/
def ownFlags : Command → List Flag
  | .program => [{ name := "version", letter := some 0x76, kind := .switch }]
  | .parse =>
    [{ name := "file", letter := some 0x66 }, { name := "language", letter := some 0x6C },
      { name := "format" }]
  | .detect => [{ name := "file", letter := some 0x66 }]
  | .scan =>
    [{ name := "path", letter := some 0x70 }, { name := "repo" }, { name := "branch" },
      { name := "git", kind := .switch }, { name := "format" },
      { name := "concurrency", letter := some 0x63, kind := .number },
      { name := "language", letter := some 0x6C }, { name := "max-bytes", kind := .number }]
  | .init => [{ name := "path", letter := some 0x70 }, { name := "force", kind := .switch }]
  | .help | .completion => []

/-- The flags of a command. -/
def flags (c : Command) : List Flag := c.ownFlags ++ [logLevelFlag, helpFlag]

/-- The flags that a command cannot do without. -/
def required : Command → List String
  | .parse | .detect => ["file"]
  | _ => []

/-! ## Finding the command -/

/-- Whether an argument in front of the command takes the next one as its value. -/
def takesNext (arg : Bytes) : Bool :=
  arg.head? == some 0x2D && !List.elem 0x3D arg &&
    (arg.length == 2 || (arg.drop 1).head? == some 0x2D)

/-- The first argument that is neither a flag nor the value of one. `taken` says that the argument is
the value of the one before. -/
def firstWord? : (taken : Bool) → List Bytes → Option Bytes
  | _, [] => none
  | true, _ :: args => firstWord? false args
  | false, arg :: args =>
    if arg == [0x2D, 0x2D] then none
    else if takesNext arg then firstWord? true args
    else if arg.isEmpty || arg.head? == some 0x2D then firstWord? false args
    else some arg

/-- The arguments without the word that names the command. -/
def withoutWord (word : Bytes) : (taken : Bool) → List Bytes → List Bytes
  | _, [] => []
  | true, arg :: args => arg :: withoutWord word false args
  | false, arg :: args =>
    if arg == [0x2D, 0x2D] then arg :: args
    else if takesNext arg then arg :: withoutWord word true args
    else if arg == word then args
    else arg :: withoutWord word false args

/-- The commands that a word may have meant: those at a distance of two at most, and those that begin
with it. -/
def suggestions (word : Bytes) : List String :=
  let lower := word.lower
  (words.map Prod.fst).filter fun name =>
    name != "help" &&
      (Bytes.editDistance lower (Bytes.ofString name) ≤ 2 || lower.isPrefixOf (Bytes.ofString name))

end Command

/-! ## Calls -/

/-- Why a list of arguments is no call. -/
inductive UsageError where
  | unknownCommand (word : Bytes)
  | flag (e : FlagError)
  | logLevel (text : Bytes)
  | missing (names : List String)
deriving DecidableEq, Repr

/-- The error in words. -/
def UsageError.message : UsageError → Bytes
  | .unknownCommand word =>
    let meant := Command.suggestions word
    Bytes.ofString "unknown command " ++ word.quoted ++
      Bytes.ofString (" for \"" ++ Command.programName ++ "\"") ++
      if meant.isEmpty then []
      else Bytes.ofString ("\n\nDid you mean this?\n" ++ String.join (meant.map fun m => "\t" ++ m ++ "\n"))
  | .flag e => e.message
  | .logLevel text => Bytes.ofString "invalid log level " ++ text.quoted
  | .missing names =>
    Bytes.ofString ("required flag(s) \"" ++ "\", \"".intercalate names ++ "\" not set")

/-- What a list of arguments asks for. -/
inductive Call where
  | help (command : Command)
  | version
  | run (command : Command) (values : FlagValues)
deriving DecidableEq, Repr

/-- Whether two texts are the same in any letter case; the long s counts as an s. -/
def isFold (word : String) (s : Bytes) : Bool :=
  (Bytes.replace (Bytes.ofCodePoint 0x17F) [0x73] s).map Bytes.lowerByte == Bytes.ofString word

/-- Whether a text names a log level: by a word, or by a number of eight bits. -/
def isLogLevel (s : Bytes) : Bool :=
  s.isEmpty ||
    ["trace", "debug", "info", "warn", "error", "fatal", "panic", "disabled"].any (isFold · s) ||
    (Number.int64? s).any fun n => decide (-128 ≤ n ∧ n ≤ 127)

/-- The call of a command with arguments. Help and version come before every check but that of the
flags themselves. -/
def Command.call (c : Command) (args : List Bytes) : Except UsageError Call :=
  match readFlags c.flags args with
  | .error e => .error (.flag e)
  | .ok values =>
    if values.isOn "help" then .ok (.help c)
    else if values.isOn "version" then .ok .version
    else if c = .program || c = .completion then .ok (.help c)
    else
      let level := values.text "log-level" (Bytes.ofString "info")
      let missing := c.required.filter fun name => !values.has name
      if !isLogLevel level then .error (.logLevel level)
      else if !missing.isEmpty then .error (.missing missing)
      else if c = .help then .ok (.help c)
      else .ok (.run c values)

/-- The call that a list of arguments makes. -/
def Call.ofArgs (args : List Bytes) : Except UsageError Call :=
  match Command.firstWord? false args with
  | none => Command.program.call args
  | some word =>
    match Command.ofWord? word with
    | some c => c.call (Command.withoutWord word false args)
    | none => .error (.unknownCommand word)

end ClassOutline.Cli
