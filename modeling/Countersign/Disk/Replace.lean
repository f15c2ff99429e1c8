import Countersign.Disk.Basic

/-! Replacing a file as a whole: the new content goes to a file beside it, which then takes its
place in one step. Whoever reads the path finds the old content or the new one. -/

namespace Countersign

namespace Disk

/-- Makes a directory and those above it that are missing. The length of the path bounds how many
there can be. -/
def makeDirectoriesFrom (disk : Disk) : Nat → String → Disk × Bool
  | 0, _ => (disk, false)
  | fuel + 1, path =>
    if path.isEmpty then (disk, true)
    else
      match disk.makeDirectory path with
      | .ok disk => (disk, true)
      | .error .unusable => (disk, disk.isDirectory path)
      | .error .absent =>
        match Path.parent? path with
        | none => (disk, false)
        | some above =>
          match disk.makeDirectoriesFrom fuel above with
          | (disk, false) => (disk, false)
          | (disk, true) =>
            match disk.makeDirectory path with
            | .ok disk => (disk, true)
            | .error _ => (disk, disk.isDirectory path)

def makeDirectories (disk : Disk) (path : String) : Disk × Bool :=
  disk.makeDirectoriesFrom (path.length + 1) path

end Disk

inductive FileStep where
  /-- Makes the directory that the file belongs in, if it is missing. -/
  | parents
  /-- Makes the file beside it, empty. -/
  | create
  | write (content : Bytes)
  | sync
  | rename
  deriving DecidableEq

namespace FileStep

def besidePath (path : String) : String := path ++ ".tmp"

/-- Carries one step out on the file at `path`. -/
def apply (path : String) (disk : Disk) : FileStep → Disk × Bool
  | parents =>
    let above := (Path.directory? path).getD "."
    if disk.contains above then (disk, true) else disk.makeDirectories above
  | create =>
    match disk.openFile? false (besidePath path) with
    | some (_, disk) => (disk, true)
    | none => (disk, false)
  | write content =>
    match disk.write? (besidePath path) content with
    | some disk => (disk, true)
    | none => (disk, false)
  | sync => (disk, true)
  | rename =>
    match disk.rename? (besidePath path) path with
    | some disk => (disk, true)
    | none => (disk, false)

def run (path : String) : Disk → List FileStep → Disk × Bool
  | disk, [] => (disk, true)
  | disk, step :: rest =>
    match step.apply path disk with
    | (disk, true) => run path disk rest
    | (disk, false) => (disk, false)

end FileStep

/-- The steps that replace a file by one with that content. -/
def replacement (content : Bytes) : List FileStep := [.parents, .create, .write content, .sync, .rename]

/-- Replaces the file at a path. What a failed step leaves behind stays. -/
def Disk.replace (disk : Disk) (path : String) (content : Bytes) : Disk × Bool :=
  FileStep.run path disk (replacement content)

end Countersign
