import SchemaLoom.CommandLine.Request
import SchemaLoom.Notice
import SchemaLoom.Yaml.Printer

/-!
# What a command reports

A `Report` is what is to be seen of a command when it has ended: its exit code, what it prints, what
it says on the error output, and the file it writes.
-/

namespace SchemaLoom.CommandLine

/-- White space in the sense of the property `White_Space` of Unicode. -/
def isWhiteSpace (c : Char) : Bool :=
  let n := c.toNat
  (0x09 ≤ n && n ≤ 0x0D) || n == 0x20 || n == 0x85 || n == 0xA0 || n == 0x1680
    || (0x2000 ≤ n && n ≤ 0x200A) || n == 0x2028 || n == 0x2029 || n == 0x202F || n == 0x205F
    || n == 0x3000

/-- A text without the white space at its end. -/
def trimEnd (s : String) : String :=
  String.ofList ((s.toList.reverse.dropWhile isWhiteSpace).reverse)

structure Report where
  code : Nat
  stdout : String
  /-- What is told of the way to the outcome. -/
  notices : List Notice
  /-- What is said on the error output, one message after the other. -/
  messages : List String
  /-- A file to be written, and its text. -/
  file : Option (Path × String)
deriving Repr

namespace Report

/-- A report that shows no document. -/
def silent (code : Nat) (messages : List String) : Report :=
  ⟨code, "", [], messages, none⟩

/-- The text of a document in a format. -/
def textOf : Format → Document → String
  | .json, d => d.text
  | .prettyJson, d => d.prettyText
  | .yaml, d => d.yamlText

/-- A report that shows a document: in the file as it is, or printed on lines of its own. -/
def showing (output : Output) (d : Document) (code : Nat) (messages : List String) : Report :=
  let text := textOf output.format d
  match output.file with
  | some p => ⟨code, "", [], messages, some (p, text)⟩
  | none => ⟨code, trimEnd text ++ "\n", [], messages, none⟩

/-- The line about an error. -/
def errorLine (message : String) : String := "Error: " ++ message

/-- The report of a command whose file could not be written. -/
def unwritten (r : Report) (reason : String) : Report :=
  match r.file with
  | some (p, _) =>
    ⟨3, r.stdout, r.notices, r.messages ++ ["Error writing to " ++ p.text ++ ": " ++ reason], none⟩
  | none => r

/-- A report with notices before those that it has. -/
def telling (notices : List Notice) (r : Report) : Report :=
  { r with notices := notices ++ r.notices }

/-- A report without the notices that are not told. -/
def heard (details : Bool) (r : Report) : Report :=
  { r with notices := r.notices.filter (·.isTold details) }

/-- What appears on the error output: the notices, and then the messages. -/
def errorOutput (r : Report) : List String :=
  r.notices.map Notice.line ++ r.messages

end Report

end SchemaLoom.CommandLine
