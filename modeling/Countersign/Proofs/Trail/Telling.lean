import Countersign.Proofs.Trail.Delivery

/-! What a trail tells: events under their contexts, one after the other. A memory that is among
its sinks holds just these, in the order in which they were told. -/

namespace Countersign

/-- An event and the context that it is told under. -/
abbrev Note := Context × Event

namespace Site

/-- What has been told to a memory, whenever it was. -/
def heard (site : Site) (number : Nat) : List Note :=
  (site.gatheredIn number).map fun entry => (entry.context, entry.event)

end Site

namespace Trail

/-- Tells events one after the other. -/
def tell (trail : Trail) (site : Site) (told : List Note) : Site :=
  told.foldl (fun site note => trail.emit site note.1 note.2) site

variable {trail : Trail} {site : Site} {number : Nat}

/-- A memory is told an event as often as it is among the sinks. -/
theorem heard_deliver (trail : Trail) (site : Site) (entry : TrailEntry) (number : Nat) :
    (trail.deliver site entry).heard number = site.heard number ++
      List.replicate (trail.sinks.count (.memory number)) (entry.context, entry.event) := by
  obtain ⟨sinks⟩ := trail
  simp only [deliver]
  induction sinks generalizing site with
  | nil => simp
  | cons sink rest ih =>
    rw [List.foldl_cons, ih, List.count_cons]
    cases sink with
    | memory other =>
      by_cases hsame : other = number
      · subst hsame
        simp [Sink.deliver, Site.heard, Site.gatheredIn, List.replicate_succ]
      · simp [Sink.deliver, Site.heard, Site.gatheredIn, hsame]
    | notices => simp [Sink.deliver, Site.heard, Site.gatheredIn]
    | file opened => simp [Sink.deliver, Site.heard, Site.gatheredIn]

/-- A memory that is among the sinks once holds what it held and what has been told since. -/
theorem heard_tell (h : trail.sinks.count (.memory number) = 1) (told : List Note) :
    (trail.tell site told).heard number = site.heard number ++ told := by
  induction told generalizing site with
  | nil => simp [tell]
  | cons note rest ih =>
    have hfirst : (trail.emit site note.1 note.2).heard number = site.heard number ++ [note] := by
      rw [emit, heard_deliver, h]
      rfl
    have hcons : trail.tell site (note :: rest) =
        trail.tell (trail.emit site note.1 note.2) rest := rfl
    rw [hcons, ih, hfirst, List.append_assoc, List.singleton_append]

end Trail
end Countersign
