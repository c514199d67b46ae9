import Formulary.Shell.Batch
import Formulary.Shell.Flag
import Formulary.Shell.Line
import Formulary.Shell.Settings
import Formulary.Yaml.Decode
import Formulary.Yaml.Write

/-!
# The program

A command line names a command and sets flags for it. The commands evaluate a text, list the names
it needs, print its program, evaluate a batch from a file, or start an interactive session.
-/

namespace Formulary.Shell

inductive Verb where
  | root
  | eval
  | idents
  | dump
  | batch
  | repl
  | help
  | completion
  deriving DecidableEq, Repr

namespace Verb

def named : List (String × Verb) :=
  [("eval", eval), ("idents", idents), ("dump", dump), ("batch", batch),
    ("repl", repl), ("help", help), ("completion", completion)]

def commonFlags : List Flag :=
  [⟨"vars", .word, none⟩, ⟨"var", .word, none⟩, ⟨"case-sensitive", .switch, none⟩,
    ⟨"checked", .switch, none⟩, ⟨"integers-as-doubles", .switch, none⟩,
    ⟨"ignore-case", .switch, none⟩, ⟨"real-literal", .word, none⟩, ⟨"date-format", .word, none⟩,
    ⟨"verbose", .switch, some 'v'⟩]

def declaredFlags : Verb → List Flag
  | .batch => commonFlags ++ [⟨"workers", .number, some 'j'⟩, ⟨"strict", .switch, none⟩]
  | _ => commonFlags

def flags (v : Verb) : List Flag :=
  v.declaredFlags ++ [⟨"help", .switch, some 'h'⟩] ++
    (if v == .root then [⟨"version", .switch, none⟩] else [])

end Verb

/-- The number of single edits of letters, in any case, that turn one word into another. -/
def editDistance (a b : List Char) : Nat :=
  let row (previous : List Nat) (x : Char) : List Nat :=
    let cells := (previous.zip (previous.drop 1)).zip b
    (cells.foldl (fun (cells, left) ((diagonal, above), y) =>
      let n := if x.toLower == y.toLower then diagonal else 1 + min left (min diagonal above)
      (cells ++ [n], n)) ([previous.headD 0 + 1], previous.headD 0 + 1)).1
  (a.foldl row (List.range (b.length + 1))).getLastD 0

def suggestions (word : Text) : List String :=
  let w := word.toString.toList
  ((Verb.named.map (·.1)).filter (· != "help")).filter fun name =>
    editDistance w name.toList ≤ 2 ||
      (Text.ofString name).startsWith (Text.simpleLower word)

def unknownCommand (word : Text) (path : String) (likely : List String) : Failure :=
  let hint := if likely.isEmpty then "" else "\n\nDid you mean this?\n" ++
    String.join (likely.map fun s => s!"\t{s}\n")
  .plain s!"unknown command {Text.quote word} for {Text.quoteString path}{hint}"

/-- The command of a command line and the words that are left for it. -/
def findVerb (words : List Text) : Except Failure (Verb × List Text) :=
  match bareWords Verb.commonFlags words with
  | [] => .ok (.root, words)
  | w :: _ =>
    match Verb.named.find? fun v => Text.ofString v.1 == w with
    | some (_, verb) => .ok (verb, withoutWord Verb.commonFlags w words)
    | none => .error (unknownCommand w "flee" (suggestions w))

inductive FileFault where
  | missing
  | directory
  | other (words : String)

def FileFault.message (path : String) : FileFault → String
  | .missing => s!"open {path}: no such file or directory"
  | .directory => s!"read {path}: is a directory"
  | .other words => s!"open {path}: {words}"

abbrev Files := String → Except FileFault Text

/-- Reads a file as a document of some kind. -/
def Files.document {α : Type} (files : Files) (path : String)
    (decode : List Char → Except Yaml.Fault α) :
    Except Failure α :=
  match files path with
  | .error fault => .error (.plain (fault.message path))
  | .ok content =>
    let r := if content.isUtf8 then decode content.toString.toList
      else .error ⟨"invalid leading UTF-8 octet", 0⟩
    r.mapError fun fault => .plain s!"{path}: {fault.message}"

structure Invocation where
  settings : Settings := {}
  varsFile : String := ""
  strict : Bool := false
  help : Bool := false
  version : Bool := false
  words : List Text := []

def Invocation.set (i : Invocation) : Setting → Invocation
  | (f, value) =>
    let s := i.settings
    match f.name with
    | "vars" => { i with varsFile := value.toString }
    | "var" => { i with settings := { s with assignments := s.assignments ++ [value] } }
    | "case-sensitive" => { i with settings := { s with caseSensitive := Flag.isOn value } }
    | "checked" => { i with settings := { s with checked := Flag.isOn value } }
    | "integers-as-doubles" =>
      { i with settings := { s with integersAsDoubles := Flag.isOn value } }
    | "ignore-case" => { i with settings := { s with ignoreCase := Flag.isOn value } }
    | "real-literal" => { i with settings := { s with realLiteral := value } }
    | "date-format" => { i with settings := { s with dateFormat := value } }
    | "strict" => { i with strict := Flag.isOn value }
    | "help" => { i with help := Flag.isOn value }
    | "version" => { i with version := Flag.isOn value }
    | _ => i

def Invocation.read (verb : Verb) (words : List Text) : Except Failure Invocation :=
  (readWords verb.flags 0 words).map fun (settings, words) =>
    { settings.foldl Invocation.set {} with words := words }

/-- The files that a command line reads: that of the variables and, for a batch, that of the
formulas. -/
def neededFiles (words : List Text) : List String :=
  match (do
    let (verb, words) ← findVerb words
    let i ← Invocation.read verb words
    .ok (verb, i) : Except Failure (Verb × Invocation)) with
  | .ok (verb, i) =>
    (if i.varsFile.isEmpty then [] else [i.varsFile]) ++
    (if verb == .batch then i.words.map Text.toString else [])
  | .error _ => []

inductive Outcome where
  | printed (t : Text)
  | session (d : Desk)

def usage : Text :=
  Text.ofString <| "\n".intercalate
    (["Compile and evaluate typed expressions", "", "Usage:", "  flee [command]", "",
      "Available Commands:"] ++
      (Verb.named.map fun v => s!"  {v.1}") ++ ["", "Flags:"] ++
        (Verb.root.flags.map fun f => s!"  {f.title}") ++ [""])

structure Surroundings where
  host : Host
  world : Library.World
  files : Files

def Invocation.desk (i : Invocation) (s : Surroundings) : Except Failure Desk :=
  i.settings.desk s.host s.world (if i.varsFile.isEmpty then .ok []
    else s.files.document i.varsFile Yaml.namedValues)

def Result.fields (r : Result) : List (String × Text) :=
  let failure := (r.failure.map (·.message)).getD ""
  ("name", Text.ofString r.name) ::
    [("type", Text.ofString r.type), ("value", r.value),
      ("error", Text.ofString failure)].filter (!·.2.isEmpty)

def runOn (s : Surroundings) (i : Invocation) (word : Text) : Verb → Except Failure Text
  | .eval => do
    let d ← i.desk s
    let v ← (d.run (← d.compile word)).1
    .ok (v.display ++ [0x0A])
  | .idents => do
    let names ← (← i.desk s).identifiers word
    .ok (names.flatMap fun n => Text.ofString n ++ [0x0A])
  | .dump => do
    let c ← (← i.desk s).compile word
    .ok (Text.ofString "; " ++ c.text ++ Text.ofString
      s!" -> {c.type.name}\n{c.program.listing Instruction.describe}")
  | .batch => do
    let formulas ← s.files.document word.toString Yaml.formulas
    let d ← i.desk s
    let results ← batch d i.strict (formulas.map fun f => ⟨f.1, Text.ofString f.2⟩)
    .ok (Yaml.writeRecords (results.map Result.fields))
  | _ => .ok usage

def run (s : Surroundings) (words : List Text) : Except Failure Outcome := do
  let (verb, words) ← findVerb words
  let i ← Invocation.read verb words
  if i.help then .ok (.printed usage)
  else
    match verb with
    | .root =>
      .ok (.printed (if i.version then Text.ofString
        s!"flee version {Engine.version}\n" else usage))
    | .help | .completion => .ok (.printed usage)
    | .repl =>
      match i.words with
      | [] => (i.desk s).map .session
      | w :: _ => .error (unknownCommand w "flee repl" [])
    | verb =>
      match i.words with
      | [w] => (runOn s i w verb).map .printed
      | ws => .error (.plain s!"accepts 1 arg(s), received {ws.length}")

end Formulary.Shell
