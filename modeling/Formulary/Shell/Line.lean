import Formulary.Shell.Display
import Formulary.Session.Desk
import Formulary.Text.Case
import Formulary.Text.Cut

/-!
# Lines of the shell

A line is a text to evaluate or, after a colon, a command. Carrying it out prints something, may
change the variables of the desk and may end the session.
-/

namespace Formulary.Shell

inductive Command where
  | evaluate (text : Text)
  | quit
  | help
  | assign (name text : Text)
  | badAssignment
  | forget (name : Text)
  | listVariables
  | typeOf (text : Text)
  | listing (text : Text)
  | names (text : Text)
  | unknown (word : Text)

def Command.ofWord (word arg : Text) : Command :=
  match word.toString with
  | "q" | "quit" | "exit" => .quit
  | "h" | "help" => .help
  | "set" =>
    match Text.cut? 0x3D arg with
    | some (name, text) => .assign name.trim text
    | none => .badAssignment
  | "unset" => .forget arg
  | "vars" => .listVariables
  | "type" => .typeOf arg
  | "dump" => .listing arg
  | "idents" => .names arg
  | _ => .unknown word

/-- Reads a line. A command is a word after a colon; what follows it loses the white space at its
ends. -/
def Command.read : Text → Command
  | 0x3A :: rest =>
    match Text.cut? 0x20 rest with
    | some (word, arg) => .ofWord word arg.trim
    | none => .ofWord rest []
  | line => .evaluate line

structure Reply where
  output : Text := []
  ends : Bool := false

namespace Reply

def line (t : Text) : Reply := { output := t ++ [0x0A] }

def words (s : String) : Reply := line (Text.ofString s)

def failure (f : Failure) : Reply := words s!"error: {f.message}"

def help : Reply := words <| "\n".intercalate
  ["Enter an expression to evaluate it. Commands:",
    "  :set NAME = EXPR   store the value of EXPR as variable NAME",
    "  :unset NAME        remove variable NAME",
    "  :vars              list variables",
    "  :type EXPR         print the result type of EXPR",
    "  :dump EXPR         print the compiled program of EXPR",
    "  :idents EXPR       list the undefined names EXPR reads",
    "  :help              show this help",
    "  :quit              leave"]

end Reply

/-- A variable as the shell lists it: its type, its name and its value, or the text of its
formula. -/
def showVariable (d : Desk) (v : Variable) : Text :=
  let value := match v.held with
    | .value value => value.display
    | .formula n _ => (d.expressions[n]?.map fun e : Expression => e.compiled.text).getD []
  Text.ofString s!"{v.type.name} {v.name} = " ++ value ++ [0x0A]

def compiling (d : Desk) (text : Text) (reply : Compiled → Reply × Desk) :
    Except Failure Reply × Desk :=
  match d.compile text with
  | .ok c =>
    let (r, d) := reply c
    (.ok r, d)
  | .error (.broken words) => (.error (.broken words), d)
  | .error f => (.ok (.failure f), d)

def perform (d : Desk) : Command → Except Failure Reply × Desk
  | .evaluate text => compiling d text fun c =>
    match d.run c with
    | (.ok v, d) => (.line v.display, d)
    | (.error f, d) => (.failure f, d)
  | .quit => (.ok { ends := true }, d)
  | .help => (.ok .help, d)
  | .assign name text =>
    match d.assign name.toString text with
    | (.ok (), d) => (.ok {}, d)
    | (.error (.broken words), d) => (.error (.broken words), d)
    | (.error f, d) => (.ok (.failure f), d)
  | .badAssignment => (.ok (.words "usage: :set NAME = EXPR"), d)
  | .forget name => (.ok {}, { d with store := d.store.remove name.toString })
  | .listVariables =>
    (.ok { output := (d.store.names.filterMap d.store.find?).flatMap (showVariable d) }, d)
  | .typeOf text => compiling d text fun c => (.words c.type.name, d)
  | .listing text => compiling d text fun c =>
    ({ output := Text.ofString (c.program.listing Instruction.describe) }, d)
  | .names text =>
    match d.identifiers text with
    | .ok names => (.ok (.words (" ".intercalate names)), d)
    | .error f => (.ok (.failure f), d)
  | .unknown word =>
    (.ok (.line (Text.ofString "unknown command :" ++ word ++
      Text.ofString ", :help for commands")), d)

def answer (d : Desk) (line : Text) : Except Failure Reply × Desk := perform d (.read line)

/-- Whether a character belongs to the word that is completed. -/
def isWordPart (c : Nat) : Bool :=
  c == 0x5F || c == 0x2E || Text.isAsciiDigit c || Text.isAsciiLetter c

/-- A line cut after the first byte of its last character that is in no word. -/
def splitWord (line : Text) : Text × Text :=
  let behind := line.glyphs.reverse
  let word := (behind.takeWhile fun g => isWordPart g.code).reverse.flatMap (·.bytes)
  match behind.dropWhile fun g => isWordPart g.code with
  | [] => ([], word)
  | g :: earlier => (earlier.reverse.flatMap (·.bytes) ++ g.bytes.take 1, g.bytes.drop 1 ++ word)

/-- The completions of a line: with every variable and imported name that starts with its last word
in any letter case. -/
def completions (d : Desk) (line : Text) : List Text :=
  let (head, word) := splitWord line
  if word.isEmpty then []
  else
    let names := (d.store.names ++ Imports.names d.context.imports).map Text.ofString
    (names.filter fun n => n.simpleLower.startsWith word.simpleLower).map (head ++ ·)

end Formulary.Shell
