import Countersign.Disk.Replace
import Countersign.Trail.Event

/-! Where the entries of a trail go: to those who watch, into memory, or to the end of a file. -/

namespace Countersign

/-- What rounds work on: the files, the clock, and the entries that do not go to files. -/
structure Site where
  disk : Disk
  /-- The times that the clock shows, one after the other. -/
  clock : Nat → Moment
  /-- How often the clock has been read. -/
  ticks : Nat := 0
  notices : List Notice := []
  /-- The entries in memory, each with the number of the memory it is in. -/
  gathered : List (Nat × TrailEntry) := []

inductive Sink where
  | notices
  | memory (number : Nat)
  | file (opened : Opened)
  deriving DecidableEq, Repr

/-- A trail sends each entry to all its sinks, in their order. -/
structure Trail where
  sinks : List Sink := [.notices]
  deriving DecidableEq, Repr

namespace Site

def now (site : Site) : Moment × Site := (site.clock site.ticks, { site with ticks := site.ticks + 1 })

def gatheredIn (site : Site) (number : Nat) : List TrailEntry :=
  (site.gathered.filter (·.1 == number)).map (·.2)

end Site

namespace Sink

/-- A file that is added to; it is made, with the directories above it, if it is not there. -/
def openFile? (disk : Disk) (path : String) : Disk × Option Sink :=
  let made := match Path.directory? path with
    | none => (disk, true)
    | some above => disk.makeDirectories above
  match made with
  | (disk, false) => (disk, none)
  | (disk, true) =>
    match disk.openFile? true path with
    | some (opened, disk) => (disk, some (.file opened))
    | none => (disk, none)

def deliver (entry : TrailEntry) (site : Site) : Sink → Site
  | notices => { site with notices := site.notices ++ [entry.notice] }
  | memory number => { site with gathered := site.gathered ++ [(number, entry)] }
  | file opened => { site with disk := site.disk.append opened entry.line }

end Sink

namespace Trail

def deliver (trail : Trail) (site : Site) (entry : TrailEntry) : Site :=
  trail.sinks.foldl (fun site sink => sink.deliver entry site) site

/-- Notes an event now. -/
def emit (trail : Trail) (site : Site) (context : Context) (event : Event) : Site :=
  let (time, site) := site.now
  trail.deliver site ⟨time, context, event⟩

end Trail
end Countersign
