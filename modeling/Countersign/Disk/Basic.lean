import Countersign.Bytes.Hex
import Countersign.Disk.Path
import Countersign.Text.Utf8

/-! A file tree: what stands at each location below the root, and the directory that relative
paths start from. Links are followed while a path is walked, at most forty of them. Every file has a
number of its own, so that one that has been opened can be told from another in its place. -/

namespace Countersign

/-- The names on the way from the root. -/
abbrev Location := List String

inductive Node where
  | file (number : Nat) (content : Bytes)
  | directory
  | link (target : String)
  /-- Takes what is written to it and keeps nothing. -/
  | device
  deriving DecidableEq

structure Disk where
  nodes : List (Location × Node) := []
  working : Location := []
  /-- How many files have been made; the next one gets this number. -/
  made : Nat := 0

inductive Opened where
  | file (number : Nat)
  | device
  deriving DecidableEq, Repr

namespace Disk

inductive Fault where
  | absent
  | unusable
  deriving DecidableEq, Repr

def node? (disk : Disk) (place : Location) : Option Node :=
  if place.isEmpty then some .directory else disk.nodes.lookup place

def set (disk : Disk) (place : Location) (node : Node) : Disk :=
  { disk with nodes := (place, node) :: disk.nodes.filter (·.1 ≠ place) }

def erase (disk : Disk) (place : Location) : Disk :=
  { disk with nodes := disk.nodes.filter (·.1 ≠ place) }

/-- A name that no entry can have. -/
def isTooLong (name : String) : Bool := 255 < name.utf8ByteSize

/-- A path that is refused before any of its names is looked at. -/
def isBadPath (path : String) : Bool := 4096 ≤ path.utf8ByteSize || path.toList.contains '\x00'

/-- Where a list of names leads from a directory, and what stands there. Only the last name may
lead to nothing. A link there is followed if `follow` says so. -/
def walk (disk : Disk) (follow : Bool) (links : Nat) (here : Location) :
    List String → Except Fault (Location × Option Node)
  | [] => .ok (here, disk.node? here)
  | name :: rest =>
    if name = "" ∨ name = "." then disk.walk follow links here rest
    else if name = ".." then disk.walk follow links here.dropLast rest
    else if isTooLong name then .error .unusable
    else
      let place := here ++ [name]
      match disk.node? place with
      | none => if rest.isEmpty then .ok (place, none) else .error .absent
      | some .directory => disk.walk follow links place rest
      | some (.file number content) =>
        if rest.isEmpty then .ok (place, some (.file number content)) else .error .unusable
      | some .device => if rest.isEmpty then .ok (place, some .device) else .error .unusable
      | some (.link target) =>
        if rest.isEmpty && !follow then .ok (place, some (.link target))
        else
          match links with
          | 0 => .error .unusable
          | links + 1 =>
            disk.walk follow links (if Path.isAbsolute target then [] else here)
              (Path.names target ++ rest)
termination_by names => (links, names.length)

def resolve (disk : Disk) (follow : Bool) (path : String) : Except Fault (Location × Option Node) :=
  if path.isEmpty then .error .absent
  else if isBadPath path then .error .unusable
  else disk.walk follow 40 (if Path.isAbsolute path then [] else disk.working) (Path.names path)

def find? (disk : Disk) (path : String) : Option Node :=
  match disk.resolve true path with
  | .ok (_, node) => node
  | .error _ => none

def contains (disk : Disk) (path : String) : Bool := (disk.find? path).isSome

def isFile (disk : Disk) (path : String) : Bool :=
  match disk.find? path with
  | some (.file ..) => true
  | _ => false

def isDirectory (disk : Disk) (path : String) : Bool := disk.find? path = some .directory

/-- The content of a file; a device has none. -/
def read? (disk : Disk) (path : String) : Option Bytes :=
  match disk.find? path with
  | some (.file _ content) => some content
  | some .device => some []
  | _ => none

def readText? (disk : Disk) (path : String) : Option String :=
  (disk.read? path).bind Text.ofUtf8?

/-- The names in a directory, in no particular order. -/
def list? (disk : Disk) (path : String) : Option (List String) :=
  match disk.resolve true path with
  | .ok (place, some .directory) => some (disk.nodes.filterMap fun (other, _) =>
      if other.dropLast = place then other.getLast? else none)
  | _ => none

/-- The paths below a directory, `shown` in front of each and a slash behind those of directories.
Links are followed as far as a path can be. -/
def below (disk : Disk) : Nat → String → String → List String
  | 0, _, _ => []
  | fuel + 1, path, shown =>
    ((disk.list? path).getD []).flatMap fun name =>
      if disk.isDirectory (Path.join path name) then
        (shown ++ name ++ "/") ::
          disk.below fuel (Path.join path name) (shown ++ name ++ "/")
      else [shown ++ name]

/-- The paths below a directory in their order. A path has fewer names than a path may have bytes. -/
def tree (disk : Disk) (path : String) : List String :=
  (disk.below 4096 path "").mergeSort fun a b => a ≤ b

def makeDirectory (disk : Disk) (path : String) : Except Fault Disk :=
  match disk.resolve false path with
  | .ok (place, none) => .ok (disk.set place .directory)
  | .ok (_, some _) => .error .unusable
  | .error fault => .error fault

/-- Puts other content into the file of that number. -/
def changeFile (disk : Disk) (number : Nat) (change : Bytes → Bytes) : Disk :=
  { disk with nodes := disk.nodes.map fun
      | (place, .file other content) =>
        (place, .file other (if other = number then change content else content))
      | entry => entry }

/-- Opens a file for writing: `keep` says whether what it holds stays. A file that is not there
is made. -/
def openFile? (disk : Disk) (keep : Bool) (path : String) : Option (Opened × Disk) :=
  match disk.resolve true path with
  | .ok (place, none) =>
    some (.file disk.made, { disk.set place (.file disk.made []) with made := disk.made + 1 })
  | .ok (_, some (.file number _)) =>
    some (.file number, if keep then disk else disk.changeFile number fun _ => [])
  | .ok (_, some .device) => some (.device, disk)
  | _ => none

/-- Appends to what has been opened. A file whose entry is gone takes it unseen. -/
def append (disk : Disk) (opened : Opened) (bytes : Bytes) : Disk :=
  match opened with
  | .file number => disk.changeFile number (· ++ bytes)
  | .device => disk

/-- Gives the file at a path that content, and makes it if it is not there. -/
def write? (disk : Disk) (path : String) (content : Bytes) : Option Disk :=
  (disk.openFile? false path).map fun (opened, disk) => disk.append opened content

/-- Puts the entry at one path in the place of another, which it replaces whole. -/
def rename? (disk : Disk) (source target : String) : Option Disk :=
  match disk.resolve false source, disk.resolve false target with
  | .ok (_, some .directory), _ => none
  | .ok (_, _), .ok (_, some .directory) => none
  | .ok (source, some node), .ok (target, _) =>
    if source = target then some disk else some ((disk.erase source).set target node)
  | _, _ => none

/-- Removes an entry, and all that stands below it. -/
def remove? (disk : Disk) (path : String) : Option Disk :=
  match disk.resolve false path with
  | .ok (place, some _) =>
    some { disk with nodes := disk.nodes.filter (!place.isPrefixOf ·.1) }
  | _ => none

end Disk
end Countersign
