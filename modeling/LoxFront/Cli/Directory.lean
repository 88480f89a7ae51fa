/-
# The files that a run sees

`init_logger` creates a file and `read_file` opens one, each by a path.  A path is
followed part by part, from the root or from the working directory, through folders and
through links, up to a place: the names that lead there from the root without a link.
Two paths that come to one place come to one file, however they are spelled: what is
written by the one path is read by the other.
-/

namespace LoxFront
namespace Cli

/-- What stands at a place.  A device or a pipe, which does not keep what is written to it,
is left out. -/
inductive Entry where
  | file (bytes : ByteArray)
  | folder
  /-- A symbolic link: the path goes on with this one. -/
  | link (path : String)
  /-- A hard link: one name more for the file that is kept at another place. -/
  | twin (place : List String)

/-- What a path opens to be read. -/
inductive Opened where
  | file (bytes : ByteArray)
  | folder

/-- What a run may want with what stands at a place. -/
inductive Access where
  /-- To look a name up in a folder. -/
  | enter
  | read
  | write
  deriving DecidableEq, Repr

/-- Why a path leads nowhere. -/
inductive PathError where
  | missing
  | notFolder
  | isFolder
  | tooLong
  | loop
  /-- What else there is against it, in the words of the system. -/
  | refused (message : String)
  deriving DecidableEq, Repr

/-- The message of a path error. -/
def PathError.message : PathError → String
  | missing => "No such file or directory (os error 2)"
  | notFolder => "Not a directory (os error 20)"
  | isFolder => "Is a directory (os error 21)"
  | tooLong => "File name too long (os error 36)"
  | loop => "Too many levels of symbolic links (os error 40)"
  | refused message => message

/-- The most bytes that a path may have. -/
def maxPath : Nat := 4095

/-- The most bytes that a name may have. -/
def maxName : Nat := 255

/-- The most symbolic links that are followed for one path. -/
def maxLinks : Nat := 40

/-- The parts of a path between its slashes. -/
def splitPath : List Char → List (List Char)
  | [] => [[]]
  | c :: rest =>
    if c = '/' then [] :: splitPath rest
    else
      match splitPath rest with
      | [] => [[c]]
      | p :: more => (c :: p) :: more

/-- The parts of a path between its slashes, as texts. -/
def pathParts (path : String) : List String := (splitPath path.toList).map String.ofList

/-- A part of a path that stays where it is. -/
def stays (part : String) : Bool := part == "" || part == "."

/-- The folder in which a path begins that is followed from the folder `here`. -/
def origin (here : List String) (path : String) : List String :=
  if path.toList.head? = some '/' then [] else here

/-- What is known of the file system, and the working directory in it.  It is what stands
there before a run: there are no places that the system makes up for the run itself, as
for the files that it has open. -/
structure Directory where
  /-- What stands where, each at the names that lead there from the root. -/
  entries : List (List String × Entry)
  /-- The names of the working directory. -/
  place : List String
  /-- What the system has against such an access to a place, if anything. -/
  refuses : Access → List String → Option String

/-- Where a path leads. -/
inductive Arrival where
  | folder (place : List String)
  /-- To a place where no folder stands: what the file holds that stands there, if one
  does, and the parts of the path that are left behind it. -/
  | spot (place : List String) (bytes : Option ByteArray) (behind : List String)

namespace Directory

/-- A working directory of these names that holds files and folders, each given by its
path in it, with the folders in which they stand. -/
def holding (place : List String) (files : List (String × Entry)) : Directory :=
  let named := files.map fun f => (place ++ (pathParts f.1).filter fun p => !stays p, f.2)
  let folders := named.flatMap fun f =>
    (List.range f.1.length).map fun n => (f.1.take n, Entry.folder)
  ⟨named ++ folders, place, fun _ _ => none⟩

/-- The same in a working directory of a name that no path can spell: an absolute path,
or one that leaves the directory, does not come back to it. -/
def ofList (files : List (String × Entry)) : Directory := holding [""] files

/-- What stands at a place.  The working directory stands, and the folders above it. -/
def standing? (d : Directory) (place : List String) : Option Entry :=
  if place.isPrefixOf d.place then some .folder else d.entries.lookup place

/-- What stands at names in the working directory. -/
def entry? (d : Directory) (names : List String) : Option Entry :=
  d.standing? (d.place ++ names)

/-- The place at which the file of these names is kept. -/
def seat (d : Directory) (names : List String) : List String :=
  match d.entries.lookup names with
  | some (.twin place) => place
  | _ => names

/-- The directory with a file at a place, instead of what stood there. -/
def write (d : Directory) (place : List String) (bytes : ByteArray) : Directory :=
  { d with entries := (place, .file bytes) :: d.entries.filter fun e => e.1 != place }

/-- An access, or what the system has against it. -/
def permit (d : Directory) (access : Access) (place : List String) : Except PathError Unit :=
  match d.refuses access place with
  | some message => .error (.refused message)
  | none => .ok ()

/-- Where the parts of a path lead from the folder `here` on; `follow` goes on where a
link leads. -/
def arriveOn (d : Directory)
    (follow : List String → List String → Except PathError Arrival) (here : List String) :
    List String → Except PathError Arrival
  | [] => .ok (.folder here)
  | p :: more =>
    if stays p then d.arriveOn follow here more
    else do
      d.permit .enter here
      if p = ".." then d.arriveOn follow here.dropLast more
      else if maxName < p.utf8ByteSize then .error .tooLong
      else
        let place := d.seat (here ++ [p])
        match d.standing? place with
        | none => .ok (.spot place none more)
        | some .folder => d.arriveOn follow place more
        | some (.file bytes) => .ok (.spot place (some bytes) more)
        | some (.link path) => follow (origin here path) (pathParts path ++ more)
        | some (.twin _) => .error .loop

/-- Where the parts of a path lead if so many links may be followed. -/
def arrive (d : Directory) : Nat → List String → List String → Except PathError Arrival
  | 0 => d.arriveOn fun _ _ => .error .loop
  | n + 1 => d.arriveOn (d.arrive n)

/-- Where a path leads. -/
def arrival (d : Directory) (path : String) : Except PathError Arrival :=
  if path.isEmpty then .error .missing
  else if maxPath < path.utf8ByteSize then .error .tooLong
  else d.arrive maxLinks (origin d.place path) (pathParts path)

/-- What is opened to be read at the end of a path. -/
def opened (d : Directory) : Arrival → Except PathError Opened
  | .folder place => do
    d.permit .read place
    return .folder
  | .spot place (some bytes) [] => do
    d.permit .read place
    return .file bytes
  | .spot _ (some _) (_ :: _) => .error .notFolder
  | .spot _ none _ => .error .missing

/-- The place of the file that is created at the end of a path, or emptied there. -/
def created (d : Directory) : Arrival → Except PathError (List String)
  | .folder _ => .error .isFolder
  | .spot place _ [] => do
    d.permit .write place
    return place
  | .spot _ (some _) (_ :: _) => .error .notFolder
  | .spot _ none behind => if behind.all (· == "") then .error .isFolder else .error .missing

/-- What a path opens to be read. -/
def find (d : Directory) (path : String) : Except PathError Opened := d.arrival path >>= d.opened

/-- The place where a path creates a file. -/
def placeFor (d : Directory) (path : String) : Except PathError (List String) :=
  d.arrival path >>= d.created

end Directory
end Cli
end LoxFront
