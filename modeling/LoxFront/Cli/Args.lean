/-
# Arguments of the command line

The `Cli` and `Commands` of the program (section 13 of SPEC_FULL.md), as the reader of
arguments takes them that is derived from them:

    rox [--log] tokenize [--log] [file]
    rox [--log] parse [--log] [--json] [file]
    rox [--log] help [command]

`--log` is global: it stands before the command or behind it, and at most once in each
place.  `--` ends the options.  Arguments are read from left to right, and the first that
does not fit decides.
-/

namespace LoxFront
namespace Cli

/-- What to do with a file. -/
inductive Action where
  | tokenize
  | parse (json : Bool)
  deriving DecidableEq, Repr

/-- A command line that asks for work. -/
structure Invocation where
  action : Action
  file : Option String
  log : Bool
  deriving DecidableEq, Repr

/-- What help is about. -/
inductive Topic where
  | program
  | tokenize
  | parse
  | help
  deriving DecidableEq, Repr

/-- What a command line asks for. -/
inductive Request where
  | work (i : Invocation)
  | version
  | help (topic : Topic)
  deriving DecidableEq, Repr

/-- Why a command line asks for nothing. -/
inductive Misuse where
  | noCommand
  | unexpected (argument : String)
  | repeated (option : String)
  | emptyName
  deriving DecidableEq, Repr

/-- The message of a misuse. -/
def Misuse.message : Misuse → String
  | noCommand => "error: a command is missing"
  | unexpected argument => s!"error: unexpected argument '{argument}'"
  | repeated option => s!"error: the option '{option}' is given twice"
  | emptyName => "error: the name of the file is empty"

/-- What a row of short options asks for; only its first letter counts. -/
def shortRequest? (argument : String) : Option Request :=
  match argument.toList with
  | '-' :: 'V' :: _ => some .version
  | '-' :: 'h' :: _ => some (.help .program)
  | _ => none

/-- An argument that names no file: a hyphen with something behind it. -/
def isOption (argument : String) : Bool :=
  match argument.toList with
  | '-' :: _ :: _ => true
  | _ => false

/-- What was read behind the command. -/
structure Draft where
  file : Option String
  json : Bool
  log : Bool

namespace Draft

/-- The name of the file. -/
def named (d : Draft) (argument : String) : Except Misuse Draft :=
  if argument.isEmpty then .error .emptyName
  else if d.file.isSome then .error (.unexpected argument)
  else .ok { d with file := some argument }

/-- The arguments behind the command; `none` if help is asked for.  `json` says
whether the command has that option. -/
def read (json : Bool) (d : Draft) : List String → Except Misuse (Option Draft)
  | [] => .ok (some d)
  | a :: rest =>
    if a = "--" then (rest.foldlM named d).map some
    else if a = "--log" then
      if d.log then .error (.repeated a) else read json { d with log := true } rest
    else if a = "--json" && json then
      if d.json then .error (.repeated a) else read json { d with json := true } rest
    else if a = "--help" || shortRequest? a = some (.help .program) then .ok none
    else if isOption a then .error (.unexpected a)
    else do read json (← d.named a) rest

end Draft

/-- A command with its arguments; `log` says whether the option stood before the
command, and `topic` what help on the command is about. -/
def command (log : Bool) (json : Bool) (topic : Topic) (action : Draft → Action)
    (arguments : List String) : Except Misuse Request :=
  (Draft.read json ⟨none, false, false⟩ arguments).map fun
    | some d => .work ⟨action d, d.file, log || d.log⟩
    | none => .help topic

/-- The command of a name, as what help is about. -/
def topic? (name : String) : Option Topic :=
  if name = "tokenize" then some .tokenize
  else if name = "parse" then some .parse
  else if name = "help" then some .help
  else none

/-- The arguments behind the wish for help: at most the name of a command.  There are no
options here. -/
def helpOn : List String → Except Misuse Request
  | [] => .ok (.help .program)
  | a :: rest =>
    match topic? a with
    | none => .error (.unexpected a)
    | some topic =>
      match rest with
      | [] => .ok (.help topic)
      | b :: _ => .error (.unexpected b)

/-- A whole command line; `log` says whether the option was seen. -/
def readFrom (log : Bool) : List String → Except Misuse Request
  | [] => .error .noCommand
  | a :: rest =>
    if a = "--log" then if log then .error (.repeated a) else readFrom true rest
    else if a = "tokenize" then command log false .tokenize (fun _ => .tokenize) rest
    else if a = "parse" then command log true .parse (fun d => .parse d.json) rest
    else if a = "--version" then .ok .version
    else if a = "help" then helpOn rest
    else if a = "--help" then .ok (.help .program)
    else
      match shortRequest? a with
      | some r => .ok r
      | none => .error (.unexpected a)

/-- A whole command line. -/
def read (arguments : List String) : Except Misuse Request := readFrom false arguments

end Cli
end LoxFront
