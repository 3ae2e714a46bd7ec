import SchemaLoom.CommandLine.Words
import SchemaLoom.FileSystem.Path
import SchemaLoom.Grammar.OpenApi
import SchemaLoom.Reference

/-!
# What a command line asks for

- `Command`: what is to be done, with which documents, and where the outcome goes.
- `Request.ofArguments`: the request of some arguments.
-/

namespace SchemaLoom.CommandLine

/-- The form in which a document is written. -/
inductive Format where
  | json
  | prettyJson
  | yaml
deriving DecidableEq, Repr

/-- Where the outcome goes, and in which form. -/
structure Output where
  file : Option Path
  format : Format
deriving DecidableEq, Repr

/-- How documents are read. -/
structure Reading where
  grammar : Grammar
  scheme : Scheme

inductive Command where
  /-- The normal form of a document. -/
  | normalize (file : Path) (reading : Reading)
  /-- Documents merged in order. -/
  | join (files : List Path) (reading : Reading)
  /-- The differences of two documents, or of their normal forms. -/
  | diff (left right : Path) (normalized : Bool) (reading : Reading)
  /-- The structs of documents. -/
  | flatten (files : List Path) (reading : Reading)
  /-- The documents of workspaces. -/
  | discover (dirs : List Path) (scheme : String)

/-- What a command line asks for. -/
inductive Request where
  /-- Nothing was given. -/
  | usage
  | help
  | version
  /-- A command, and whether details are to be told. -/
  | run (command : Command) (output : Output) (details : Bool)

/-! ## Commands -/

inductive CommandName where
  | normalize
  | join
  | diff
  | flatten
  | discover
deriving DecidableEq, Repr

namespace CommandName

def ofString? : String → Option CommandName
  | "normalize" => some .normalize
  | "join" => some .join
  | "diff" => some .diff
  | "flatten" => some .flatten
  | "discover" => some .discover
  | _ => none

/-- What a command takes: one file, two, or any number from one on. -/
def form : CommandName → Form
  | .normalize => ⟨[.verbose, .pretty, .help], [.grammar, .scheme, .extension, .output, .format],
      1, some 1⟩
  | .join => ⟨[.verbose, .pretty, .help], [.grammar, .scheme, .extension, .output, .format],
      1, none⟩
  | .diff => ⟨[.verbose, .pretty, .normalize, .help],
      [.grammar, .scheme, .extension, .output, .format], 2, some 2⟩
  | .flatten => ⟨[.verbose, .pretty, .help], [.grammar, .scheme, .extension, .output, .format],
      1, none⟩
  | .discover => ⟨[.verbose, .pretty, .help], [.scheme, .output, .format], 1, none⟩

end CommandName

/-- What stands before the name of a command. -/
def outerForm : Form := ⟨[.verbose, .help, .version], [], 0, some 0⟩

namespace Given

def output (g : Given) : Output where
  file := (g.value? .output).map Path.mk
  format :=
    if g.value? .format = some "yaml" then .yaml
    else if g.has .pretty then .prettyJson
    else .json

def schemeName (g : Given) : String :=
  (g.value? .scheme).getD Scheme.defaultName

def reading (g : Given) : Reading where
  grammar := if g.value? .grammar = some "json-schema" then .jsonSchema else .openApi
  scheme := ⟨g.schemeName, (g.value? .extension).getD Scheme.defaultExtension⟩

/-- The command of a name with what was given, if there are enough words. -/
def command (g : Given) (name : CommandName) : Except UsageError Command :=
  match name, g.words.map Path.mk with
  | .normalize, [file] => .ok (.normalize file g.reading)
  | .diff, [left, right] => .ok (.diff left right (g.has .normalize) g.reading)
  | .join, file :: files => .ok (.join (file :: files) g.reading)
  | .flatten, file :: files => .ok (.flatten (file :: files) g.reading)
  | .discover, dir :: dirs => .ok (.discover (dir :: dirs) g.schemeName)
  | _, _ => .error .missingWord

end Given

namespace Request

def ofStop : Stop → Except UsageError Request
  | .help => .ok .help
  | .version => .ok .version
  | .rejected e => .error e

/-- The request of the arguments of a command after what was given before its name. -/
def ofCommand (outer : Given) (name : CommandName) (arguments : List String) :
    Except UsageError Request :=
  match name.form.scan .nothing arguments with
  | .error stop => ofStop stop
  | .ok (_, word :: _) => .error (.extraWord word)
  | .ok (g, []) => do
    return .run (← g.command name) g.output (outer.has .verbose || g.has .verbose)

/-- Help is given on the whole, on a command, or on giving help. -/
def ofHelp : List String → Except UsageError Request
  | [] => .ok .help
  | [word] =>
    if word = "help" || (CommandName.ofString? word).isSome then .ok .help
    else .error (.unknownCommand word)
  | _ :: word :: _ => .error (.unknownCommand word)

/-- What some arguments ask for. -/
def ofArguments (arguments : List String) : Except UsageError Request :=
  match outerForm.scan .nothing arguments with
  | .error stop => ofStop stop
  | .ok (g, []) => if g.switches.isEmpty then .ok .usage else .error .missingCommand
  | .ok (_, "help" :: rest) => ofHelp rest
  | .ok (g, word :: rest) =>
    match CommandName.ofString? word with
    | some name => ofCommand g name rest
    | none => .error (.unknownCommand word)

end Request

end SchemaLoom.CommandLine
