import Countersign.Proofs.Disk.Spelling
import Countersign.Trail.Sink

/-! Entries of a trail go to files of their own. Nothing that is noted there touches a file that
the trail keeps clear of, and such a trail keeps clear of it for good. -/

namespace Countersign

open FileStep (besidePath)

namespace Disk

/-- The number is that of some file, but neither of the one at the path nor of the one beside it. -/
structure IsClear (disk : Disk) (path : String) (number : Nat) : Prop where
  made : number < disk.made
  file : ∀ content, disk.at? true path ≠ some (.file number content)
  beside : ∀ content, disk.at? false (besidePath path) ≠ some (.file number content)

variable {disk other : Disk} {path : String} {number : Nat}

theorem IsClear.of_leavesAlone (h : disk.IsClear path number) (hh : disk.Houses path)
    (hl : disk.LeavesAlone other path) : other.IsClear path number := by
  have hmade := h.made
  refine ⟨Nat.lt_of_lt_of_le hmade hl.made, fun content ha => ?_, fun content ha => ?_⟩
  · cases hd : disk.at? true path with
    | none =>
      rcases hl.vacant hd _ ha with hnode | ⟨fresh, hnode, hle⟩
      · exact nomatch hnode
      · cases hnode
        omega
    | some node =>
      rcases hh.file with hv | ⟨own, former, hown, _⟩
      · rcases hv.at? true with hnone | hdir
        · rw [hnone] at hd
          exact nomatch hd
        · rw [hl.directory hdir] at ha
          exact nomatch ha
      · rw [hl.file own former hown] at ha
        cases ha
        exact h.file _ hown
  · rcases hl.beside number content ha with hle | ⟨former, hformer⟩
    · omega
    · exact h.beside former hformer

theorem IsClear.of_replaces (h : disk.IsClear path number) {content : Bytes}
    (hr : disk.Replaces other path content) : other.IsClear path number := by
  have hmade := h.made
  obtain ⟨fresh, hfile, hfresh⟩ := hr.file
  refine ⟨Nat.lt_of_lt_of_le hmade hr.made, fun content' ha => ?_, fun content' ha => ?_⟩
  · rw [hfile] at ha
    cases ha
    rcases hfresh with hle | ⟨former, hformer⟩
    · omega
    · exact h.beside former hformer
  · rw [hr.beside] at ha
    exact nomatch ha

theorem IsClear.of_leadAlike {path' : String} (h : disk.IsClear path number)
    (hp : LeadAlike path path') : disk.IsClear path' number := by
  obtain ⟨hmade, hfile, hbeside⟩ := h
  simp only [hp.at?, hp.at?_beside] at hfile hbeside
  exact ⟨hmade, hfile, hbeside⟩

end Disk

/-- What is delivered here does not go to the file at the path, nor to the one beside it. -/
def Sink.IsClear (disk : Disk) (path : String) : Sink → Prop
  | .file (.file number) => disk.IsClear path number
  | _ => True

/-- All sinks of the trail keep clear of the path. -/
def Trail.IsClear (trail : Trail) (disk : Disk) (path : String) : Prop :=
  ∀ sink ∈ trail.sinks, sink.IsClear disk path

variable {disk other : Disk} {path : String}

theorem Sink.IsClear.mono {sink : Sink} {path' : String} (h : sink.IsClear disk path)
    (hmono : ∀ number, disk.IsClear path number → other.IsClear path' number) :
    sink.IsClear other path' := by
  cases sink with
  | notices => trivial
  | memory number => trivial
  | file opened =>
    cases opened with
    | file number => exact hmono number h
    | device => trivial

theorem Trail.IsClear.of_leavesAlone {trail : Trail} (h : trail.IsClear disk path)
    (hh : disk.Houses path) (hl : disk.LeavesAlone other path) : trail.IsClear other path :=
  fun sink hs => (h sink hs).mono fun _ hc => hc.of_leavesAlone hh hl

theorem Trail.IsClear.of_replaces {trail : Trail} (h : trail.IsClear disk path) {content : Bytes}
    (hr : disk.Replaces other path content) : trail.IsClear other path :=
  fun sink hs => (h sink hs).mono fun _ hc => hc.of_replaces hr

theorem Trail.IsClear.of_leadAlike {trail : Trail} {path' : String} (h : trail.IsClear disk path)
    (hp : Disk.LeadAlike path path') : trail.IsClear disk path' :=
  fun sink hs => (h sink hs).mono fun _ hc => hc.of_leadAlike hp

variable {site : Site}

theorem Sink.leavesAlone_deliver {sink : Sink} (hh : site.disk.Houses path)
    (h : sink.IsClear site.disk path) (entry : TrailEntry) :
    site.disk.LeavesAlone (sink.deliver entry site).disk path := by
  cases sink with
  | notices => exact .refl hh
  | memory number => exact .refl hh
  | file opened =>
    cases opened with
    | file number => exact hh.leavesAlone_changeFile h.file
    | device => exact .refl hh

theorem Trail.leavesAlone_deliver {trail : Trail} (hh : site.disk.Houses path)
    (h : trail.IsClear site.disk path) (entry : TrailEntry) :
    site.disk.LeavesAlone (trail.deliver site entry).disk path := by
  obtain ⟨sinks⟩ := trail
  simp only [Trail.deliver]
  induction sinks generalizing site with
  | nil => exact .refl hh
  | cons sink rest ih =>
    have hfirst := Sink.leavesAlone_deliver hh (h sink List.mem_cons_self) entry
    have hrest : Trail.IsClear ⟨rest⟩ site.disk path :=
      fun other ho => h other (List.mem_cons_of_mem sink ho)
    exact hfirst.trans (ih hfirst.houses (hrest.of_leavesAlone hh hfirst))

theorem Trail.leavesAlone_emit {trail : Trail} (hh : site.disk.Houses path)
    (h : trail.IsClear site.disk path) (context : Context) (event : Event) :
    site.disk.LeavesAlone (trail.emit site context event).disk path :=
  have hnow : trail.IsClear site.now.2.disk path := h
  Trail.leavesAlone_deliver (show site.now.2.disk.Houses path from hh) hnow _

theorem Trail.clock_emit (trail : Trail) (site : Site) (context : Context) (event : Event) :
    (trail.emit site context event).clock = site.clock := by
  have hall : ∀ (sinks : List Sink) (s : Site) (entry : TrailEntry),
      (sinks.foldl (fun s sink => sink.deliver entry s) s).clock = s.clock := by
    intro sinks
    induction sinks with
    | nil => exact fun _ _ => rfl
    | cons sink rest ih =>
      intro s entry
      rw [List.foldl_cons, ih]
      cases sink <;> rfl
  exact hall trail.sinks _ _

/-- Between the two sites all has kept clear of the path, and so will what the trail emits. -/
structure Trail.Keeps (trail : Trail) (path : String) (site site' : Site) : Prop where
  leavesAlone : site.disk.LeavesAlone site'.disk path
  clear : trail.IsClear site'.disk path
  clock : site'.clock = site.clock

theorem Trail.Keeps.refl {trail : Trail} (hh : site.disk.Houses path)
    (h : trail.IsClear site.disk path) : trail.Keeps path site site := ⟨.refl hh, h, rfl⟩

theorem Trail.Keeps.emit {trail : Trail} {site' : Site} (h : trail.Keeps path site site')
    (context : Context) (event : Event) :
    trail.Keeps path site (trail.emit site' context event) := by
  have hh := h.leavesAlone.houses
  have hemit := Trail.leavesAlone_emit hh h.clear context event
  exact ⟨h.leavesAlone.trans hemit, h.clear.of_leavesAlone hh hemit,
    (trail.clock_emit site' context event).trans h.clock⟩

end Countersign
