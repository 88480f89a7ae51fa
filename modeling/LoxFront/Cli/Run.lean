/-
# A run of the command line

The program around the parser, from `main` down: `init_logger`, `read_file` and the two
commands `tokenize` and `parse`, with the exit codes of section 13 of SPEC_FULL.md.

A run reads the directory and leaves an exit code, two texts and the directory, which
has the log in it if that was asked for.  The file of the log is begun before the input
is read: an input that is kept in the same file reads as what the log holds then.  What
is written to the log and to the two texts is taken to arrive there.
-/

import LoxFront.Cli.Directory
import LoxFront.Cli.Setting
import LoxFront.Log.Pass
import LoxFront.Text.Utf8
import LoxFront.Tree.Json
import LoxFront.Tree.Printer

namespace LoxFront
namespace Cli

/-- What a run leaves. -/
structure Outcome where
  exit : Nat
  out : String
  err : String
  directory : Directory

/-- What the work on a file leaves. -/
structure Effect where
  exit : Nat
  out : String
  err : String
  records : List Record

/-- The exit code for a source that is no program. -/
def dataError : Nat := 65

/-- The exit code for tokens that cannot be parsed at all, as an end marker alone. -/
def softwareError : Nat := 70

/-- The file of the log. -/
def logName : String := "app.log"

/-- A record of the command line itself. -/
def record (severity : Severity) (mark : Nat) (text : String) : Record :=
  ⟨severity, "rox", mark, text⟩

/-- The text of a failure outside the source and of its cause. -/
def failureText (message cause : String) : String :=
  s!"Error: {message}\n\nCaused by:\n    {cause}\n"

/-- The listing of tokens and lexical errors. -/
def tokenize (source : String) : Effect :=
  let found := Scan.items source
  let errors := found.filterMap Scan.Item.diagnostic?
  let own : Scan.Item → List Record := fun i =>
    i.record?.toList ++
      (i.token?.map fun t => record .debug 105 s!"Scanned token: {t.listing}").toList ++
      (i.diagnostic?.map fun d => record .debug 113 s!"Tokenization debug: {d.text}").toList
  let last :=
    if errors.isEmpty then record .info 126 "Tokenization completed successfully"
    else record .debug 121 s!"Tokenization failed, exiting with code {dataError}"
  { exit := if errors.isEmpty then 0 else dataError
    out := lines ((found.filterMap Scan.Item.token?).map Token.listing)
    err := lines (errors.map Diagnostic.text)
    records := Scan.opening source :: found.flatMap own ++ [last] }

/-- The tree of a program or its errors. -/
def parseTokens (json : Bool) (tokens : List Token) : Effect :=
  let records := Pass.records tokens
  match parse tokens with
  | .ok p =>
    ⟨0, (if json then p.json.pretty else p.text) ++ "\n", "",
      records ++ [record .info 148 "Program parsed successfully"]⟩
  | .error (.rejected r) =>
    ⟨dataError, "", lines (r.errors.map ParseError.text),
      records ++ [record .debug 162 s!"Parse failed with {r.errors.length} error(s)"]⟩
  | .error (.fatal cause) =>
    ⟨softwareError, "", cause.text ++ "\n",
      records ++ [record .debug 172 s!"Fatal parse failure: {cause.text}"]⟩

/-- The tree of a source, its errors, or its lexical errors. -/
def parseSource (json : Bool) (source : String) : Effect :=
  match Scan.tokens source with
  | .error errors =>
    ⟨dataError, "", lines (errors.map Diagnostic.text),
      Scan.records source
        ++ [record .debug 141 s!"Scanning failed with {errors.length} error(s)"]⟩
  | .ok tokens =>
    let e := parseTokens json tokens
    { e with records := Scan.records source ++ e.records }

/-- An action on a source. -/
def Action.onSource (action : Action) (source : String) : Effect :=
  match action with
  | .tokenize => Cli.tokenize source
  | .parse json => parseSource json source

/-- An action on the bytes of a file. -/
def Action.onBytes (action : Action) (name : String) (bytes : ByteArray) : Effect :=
  let opened := record .info 62 s!"Read {bytes.size} bytes from {Text.quoted name}"
  match Text.decode bytes with
  | .ok source =>
    let e := action.onSource source
    { e with records := opened :: e.records }
  | .error flaw =>
    ⟨1, "", failureText s!"File {Text.quoted name} is not valid UTF-8" flaw.message, [opened]⟩

/-- An action on a file of the directory. -/
def Action.onFile (action : Action) (d : Directory) (name : String) : Effect :=
  match d.find name with
  | .ok (.file bytes) => action.onBytes name bytes
  | .ok .folder =>
    ⟨1, "", failureText s!"Failed to read file {Text.quoted name}" PathError.isFolder.message,
      []⟩
  | .error e =>
    ⟨1, "", failureText s!"Failed to open file {Text.quoted name}" e.message, []⟩

namespace Invocation

/-- The work of a command line. -/
def work (i : Invocation) (d : Directory) : Effect :=
  match i.file with
  | some name => i.action.onFile d name
  | none =>
    ⟨0, "No input filepath was provided. Exiting...\n", "",
      [record .info 206 "No filepath provided"]⟩

/-- The name of a file in the log. -/
def fileText (i : Invocation) : String :=
  match i.file with
  | some name => s!"Some({Text.quoted name})"
  | none => "None"

/-- The command in the log. -/
def commandText (i : Invocation) : String :=
  match i.action with
  | .tokenize => s!"Tokenize \x7b filename: {i.fileText} \x7d"
  | .parse json => s!"Parse \x7b filename: {i.fileText}, json: {(Literal.bool json).listing} \x7d"

/-- The records that stand in the log before the input is read. -/
def opening (i : Invocation) : List Record :=
  let start :=
    [record .info 93 s!"Logger initialized, writing to {logName}",
     record .info 193 s!"CLI arguments: Cli \x7b commands: {i.commandText}, log: {(Literal.bool i.log).listing} \x7d"]
  let running :=
    match i.action with
    | .tokenize => record .info 98 "Running Tokenize subcommand"
    | .parse _ => record .info 131 "Running Parse subcommand"
  match i.file with
  | some name => start ++ [running, record .info 53 s!"Reading file: {Text.quoted name}"]
  | none => start

/-- A run without a log. -/
def runQuietly (i : Invocation) (d : Directory) : Outcome :=
  let e := i.work d
  ⟨e.exit, e.out, e.err, d⟩

/-- A run with a log, which is begun before the work. -/
def runLogged (s : Setting) (i : Invocation) (d : Directory) : Outcome :=
  match d.placeFor logName with
  | .error e => ⟨1, "", failureText s!"Failed to create {logName}" e.message, d⟩
  | .ok place =>
    let e := i.work (d.write place (s.logBytes i.opening))
    ⟨e.exit, e.out, s.warnings ++ e.err, d.write place (s.logBytes (i.opening ++ e.records))⟩

/-- A run. -/
def run (s : Setting) (i : Invocation) (d : Directory) : Outcome :=
  if i.log then i.runLogged s d else i.runQuietly d

end Invocation

/-- The name and number of the program. -/
def versionText : String := "rox-parser 0.1.0\n"

/-- A run of a command line in a setting and a directory. -/
def runIn (s : Setting) (arguments : List String) (d : Directory) : Outcome :=
  match read arguments with
  | .ok (.work i) => i.run s d
  | .ok .version => ⟨0, versionText, "", d⟩
  | .ok (.help topic) => ⟨0, s.help topic, "", d⟩
  | .error _ => ⟨2, "", s.refusal arguments, d⟩

/-- A run of a command line in a directory, with no variable set. -/
def run (arguments : List String) (d : Directory) : Outcome := runIn .usual arguments d

end Cli
end LoxFront
