import SchemaLoom.CommandLine.Similarity

/-!
# The words of a command line

Arguments are sorted into switches, settings and plain words.  A `Form` says which of them a command
takes, and `Form.scan` reads the arguments up to the first word that there is no place for.

A switch is given at most once, and so is a setting.  The value of a setting follows an equals sign
or is the next argument; a next argument that looks like an option is none.  After `--` every
argument is a plain word.
-/

namespace SchemaLoom.CommandLine

/-- An option without a value. -/
inductive Switch where
  | verbose
  | pretty
  | normalize
  | help
  | version
deriving DecidableEq, Repr

/-- An option with a value. -/
inductive Setting where
  | grammar
  | scheme
  | extension
  | output
  | format
deriving DecidableEq, Repr

namespace Switch

def name : Switch → String
  | .verbose => "verbose"
  | .pretty => "pretty"
  | .normalize => "normalize"
  | .help => "help"
  | .version => "version"

/-- The letter that stands for a switch. -/
def letter? : Switch → Option Char
  | .verbose => some 'v'
  | .help => some 'h'
  | .version => some 'V'
  | _ => none

end Switch

namespace Setting

def name : Setting → String
  | .grammar => "grammar"
  | .scheme => "scheme"
  | .extension => "extension"
  | .output => "output"
  | .format => "format"

/-- The values to choose from, if there is a choice. -/
def choice : Setting → List String
  | .grammar => ["openapi", "json-schema"]
  | .format => ["json", "yaml"]
  | _ => []

/-- Whether a setting can have a value: some have a choice of values, and paths are not empty. -/
def accepts (value : String) (s : Setting) : Bool :=
  match s with
  | .grammar | .format => s.choice.contains value
  | .output => value != ""
  | .scheme | .extension => true

/-- A setting with what stands for its value. -/
def usage (s : Setting) : String :=
  "--" ++ s.name ++ " <" ++ s.name.toUpper ++ ">"

end Setting

/-- What an unknown option may have been meant for. -/
inductive Tip where
  /-- An option with a similar name. -/
  | option (name : String)
  /-- A word, which can be given after `--`. -/
  | word
deriving DecidableEq, Repr

/-- Why arguments make no command. -/
inductive UsageError where
  | missingCommand
  | unknownCommand (word : String)
  | unknownOption (option : String) (tip : Option Tip)
  | unneededValue (switch : Switch) (value : String)
  | repeatedSwitch (switch : Switch)
  | repeatedSetting (setting : Setting)
  | missingValue (setting : Setting)
  | badValue (setting : Setting) (value : String)
  | emptyWord
  | missingWord
  | extraWord (word : String)
deriving DecidableEq, Repr

namespace UsageError

/-- A tip on a line of its own. -/
def tipText (option : String) : Option Tip → String
  | none => ""
  | some (.option name) => "\n\n  tip: a similar argument exists: '--" ++ name ++ "'"
  | some .word =>
    "\n\n  tip: to pass '" ++ option ++ "' as a value, use '-- " ++ option ++ "'"

/-- A value is required for an argument. -/
def valueRequired (argument : String) : String :=
  "a value is required for '" ++ argument ++ "' but none was supplied"

/-- The choice of a setting on a line of its own, and the value of it that may have been meant. -/
def choiceText (s : Setting) (value : String) : String :=
  if s.choice.isEmpty then ""
  else
    "\n  [possible values: " ++ ", ".intercalate s.choice ++ "]" ++
      match similar? value s.choice with
      | some name => "\n\n  tip: a similar value exists: '" ++ name ++ "'"
      | none => ""

def message : UsageError → String
  | .missingCommand => "a subcommand is required but one was not provided"
  | .unknownCommand word => "unrecognized subcommand '" ++ word ++ "'"
  | .unknownOption option tip =>
    "unexpected argument '" ++ option ++ "' found" ++ tipText option tip
  | .unneededValue s value =>
    "unexpected value '" ++ value ++ "' for '--" ++ s.name ++ "' found; no more were expected"
  | .repeatedSwitch s => "the argument '--" ++ s.name ++ "' cannot be used multiple times"
  | .repeatedSetting s => "the argument '" ++ s.usage ++ "' cannot be used multiple times"
  | .missingValue s => valueRequired s.usage
  | .badValue s value =>
    if value = "" then valueRequired s.usage ++ choiceText s ""
    else "invalid value '" ++ value ++ "' for '" ++ s.usage ++ "'" ++ choiceText s value
  | .emptyWord => valueRequired "<PATH>"
  | .missingWord => "the following required arguments were not provided:\n  <PATH>"
  | .extraWord word => "unexpected argument '" ++ word ++ "' found"

end UsageError

/-- Why the reading of arguments ends early. -/
inductive Stop where
  | help
  | version
  | rejected (error : UsageError)
deriving DecidableEq, Repr

def refuse (e : UsageError) : Except Stop α := .error (.rejected e)

/-! ## Arguments -/

/-- The shape of an argument. -/
inductive Argument where
  | word
  /-- `--`, after which there are only words. -/
  | dashes
  /-- `--name` or `--name=value`. -/
  | long (name : String) (value : Option String)
  /-- `-` and the letters of switches. -/
  | letters (letters : List Char)
deriving DecidableEq, Repr

def Argument.ofString (s : String) : Argument :=
  match s.toList with
  | ['-'] => .word
  | ['-', '-'] => .dashes
  | '-' :: '-' :: rest =>
    let value := match rest.dropWhile (· != '=') with
      | [] => none
      | _ :: cs => some (String.ofList cs)
    .long (String.ofList (rest.takeWhile (· != '='))) value
  | '-' :: rest => .letters rest
  | _ => .word

/-- What a command takes. -/
structure Form where
  switches : List Switch
  settings : List Setting
  /-- The fewest words. -/
  least : Nat
  /-- The most words, if there is a limit. -/
  most : Option Nat

/-- What was given. -/
structure Given where
  switches : List Switch
  settings : List (Setting × String)
  words : List String
deriving Repr

namespace Given

def nothing : Given := ⟨[], [], []⟩

def addSwitch (g : Given) (s : Switch) : Except Stop Given :=
  match s with
  | .help => .error .help
  | .version => .error .version
  | s =>
    if g.switches.contains s then refuse (.repeatedSwitch s)
    else .ok { g with switches := s :: g.switches }

def addSetting (g : Given) (s : Setting) (value : String) : Except Stop Given :=
  if (g.settings.map Prod.fst).contains s then refuse (.repeatedSetting s)
  else if s.accepts value then .ok { g with settings := (s, value) :: g.settings }
  else refuse (.badValue s value)

def addWord (g : Given) (word : String) : Except Stop Given :=
  if word = "" then refuse .emptyWord else .ok { g with words := g.words ++ [word] }

def has (g : Given) (s : Switch) : Bool := g.switches.contains s

def value? (g : Given) (s : Setting) : Option String := g.settings.lookup s

end Given

namespace Form

def switch? (f : Form) (name : String) : Option Switch :=
  f.switches.find? fun s => s.name == name

def setting? (f : Form) (name : String) : Option Setting :=
  f.settings.find? fun s => s.name == name

/-- Whether there is a place for one more word. -/
def hasRoom (f : Form) (g : Given) : Bool :=
  match f.most with
  | some n => g.words.length < n
  | none => true

/-- An unknown option may have been meant for a word if there is a place for any. -/
def wordTip? (f : Form) : Option Tip :=
  if f.most = some 0 then none else some .word

/-- What an unknown option of a name may have been meant for: an option that is there, or a word. -/
def tip? (f : Form) (name : String) : Option Tip :=
  match similar? name (f.switches.map Switch.name ++ f.settings.map Setting.name) with
  | some other => some (.option other)
  | none => f.wordTip?

/-- Adds the switches of some letters. -/
def addLetters (f : Form) (g : Given) : List Char → Except Stop Given
  | [] => .ok g
  | c :: cs =>
    match f.switches.find? fun s => s.letter? == some c with
    | some s => do addLetters f (← g.addSwitch s) cs
    | none => refuse (.unknownOption (String.ofList ['-', c]) f.wordTip?)

/-- Adds arguments that are all words. -/
def addWords (f : Form) (g : Given) : List String → Except Stop Given
  | [] => .ok g
  | word :: rest =>
    if f.hasRoom g then do addWords f (← g.addWord word) rest
    else refuse (.extraWord word)

/-- Whether an argument can be the value of the setting before it. -/
def isValue (argument : String) : Bool :=
  Argument.ofString argument == .word

/-- What an argument brings about. -/
inductive Step where
  | given (g : Given)
  /-- The next argument is the value of a setting. -/
  | awaits (s : Setting)
  /-- There is no place for the word. -/
  | full
  /-- Only words follow. -/
  | dashes

/-- What an argument brings about after what was given. -/
def step (f : Form) (g : Given) (argument : String) : Except Stop Step :=
  match Argument.ofString argument with
  | .word => if f.hasRoom g then (g.addWord argument).map .given else .ok .full
  | .dashes => .ok .dashes
  | .letters cs => (f.addLetters g cs).map .given
  | .long name value =>
    match f.switch? name, f.setting? name, value with
    | some s, _, none => (g.addSwitch s).map .given
    | some s, _, some v => refuse (.unneededValue s v)
    | none, some s, some v => (g.addSetting s v).map .given
    | none, some s, none => .ok (.awaits s)
    | none, none, _ => refuse (.unknownOption ("--" ++ name) (f.tip? name))

/-- What is given by some arguments, and the rest of them from the first word that there is no place
for. -/
def scan (f : Form) (g : Given) : List String → Except Stop (Given × List String)
  | [] => .ok (g, [])
  | argument :: rest =>
    match f.step g argument with
    | .error stop => .error stop
    | .ok (.given g) => scan f g rest
    | .ok .full => .ok (g, argument :: rest)
    | .ok .dashes => (f.addWords g rest).map (·, [])
    | .ok (.awaits s) =>
      match rest with
      | [] => refuse (.missingValue s)
      | value :: rest =>
        if isValue value then
          match g.addSetting s value with
          | .error stop => .error stop
          | .ok g => scan f g rest
        else refuse (.missingValue s)

end Form

end SchemaLoom.CommandLine
