/-
# The program

The shell around a run: what the paths of the log and of the input lead to is looked up in
the file system, the run is made on that, and what it leaves is written.  No variable is
read: the setting is the usual one.  Names that one file has besides the first are not
told apart from other files, and a link to a file that is not there counts as nothing.
-/

import LoxFront.Cli.Run

open LoxFront.Cli

/-- The path error of a number; some parts of the system count below zero. -/
def pathErrorOf (code : UInt32) (details : String) : PathError :=
  match if code < 0x80000000 then code.toNat else (0 - code).toNat with
  | 2 => .missing
  | 13 => .refused "Permission denied (os error 13)"
  | 20 => .notFolder
  | 21 => .isFolder
  | 36 => .tooLong
  | 40 => .loop
  | n => .refused s!"{details} (os error {n})"

/-- The path error for an error of the system. -/
def pathError : IO.Error → PathError
  | .noFileOrDirectory _ code details => pathErrorOf code details
  | .inappropriateType _ code details => pathErrorOf code details
  | .invalidArgument _ code details => pathErrorOf code details
  | .permissionDenied _ code details => pathErrorOf code details
  | .resourceExhausted _ code details => pathErrorOf code details
  | e => .refused (toString e)

/-- The names on a path that comes from the root. -/
def namesOf (path : String) : List String := (pathParts path).filter fun p => !stays p

/-- The path of a place. -/
def pathOf (place : List String) : String := "/" ++ "/".intercalate place

/-- What the file of a path holds. -/
def bytesAt (path : String) : IO (Except PathError ByteArray) := do
  try
    return .ok (← IO.FS.readBinFile path)
  catch e => return .error (pathError e)

/-- The path without links that leads to a place; if there is none, reading tells why. -/
def realAt (place : List String) : IO (Except PathError String) := do
  try
    let real ← IO.FS.realPath (pathOf place)
    return .ok (toString real)
  catch _ => return (← bytesAt (pathOf place)).map fun _ => pathOf place

namespace LoxFront.Cli.Directory

/-- The directory with a note on what stands at a place. -/
def note (d : Directory) (place : List String) (e : Entry) : Directory :=
  { d with entries := (place, e) :: d.entries }

/-- The directory with a note on what the system has against an access. -/
def bar (d : Directory) (access : Access) (place : List String) (e : PathError) : Directory :=
  { d with
    refuses := fun a p => if a = access ∧ p = place then some e.message else d.refuses a p }

/-- The directory with notes on what stands where the parts of a path lead. -/
def survey (d : Directory) (here : List String) : List String → IO Directory
  | [] => return d
  | p :: more =>
    if stays p then d.survey here more
    else if p = ".." then d.survey here.dropLast more
    else do
      let names := here ++ [p]
      match ← realAt names with
      | .error .loop => return d.note names (.link p)
      | .error (.refused message) => return d.bar .enter here (.refused message)
      | .error _ => return d
      | .ok real =>
        let place := namesOf real
        let d := if place = names then d else d.note names (.link real)
        match ← bytesAt real with
        | .ok bytes => return d.note place (.file bytes)
        | .error .isFolder => (d.note place .folder).survey place more
        | .error e => return (d.note place (.file .empty)).bar .read place e

/-- The directory with notes on where a path leads. -/
def surveyed (d : Directory) (path : String) : IO Directory :=
  d.survey (origin d.place path) (pathParts path)

/-- The directory with a note on whether the log can be written. -/
def probed (d : Directory) : IO Directory := do
  match d.placeFor logName with
  | .error _ => return d
  | .ok place =>
    try
      let _ ← IO.FS.Handle.mk logName .append
      return d
    catch e => return d.bar .write place (pathError e)

end LoxFront.Cli.Directory

/-- The work that a command line asks for. -/
def workOf (arguments : List String) : Option Invocation :=
  match LoxFront.Cli.read arguments with
  | .ok (.work i) => some i
  | _ => none

/-- Runs the command line. -/
def main (arguments : List String) : IO UInt32 := do
  let i := workOf arguments
  let place ← IO.FS.realPath "."
  let mut before : Directory := ⟨[], namesOf (toString place), fun _ _ => none⟩
  before ← before.surveyed logName
  if let some path := i.bind Invocation.file then
    before ← before.surveyed path
  if i.any Invocation.log then
    before ← before.probed
  let outcome := run arguments before
  if i.any Invocation.log then
    if let .ok place := before.placeFor logName then
      if let some (.file bytes) := outcome.directory.standing? place then
        IO.FS.writeBinFile logName bytes
  IO.print outcome.out
  IO.eprint outcome.err
  return outcome.exit.toUInt32
