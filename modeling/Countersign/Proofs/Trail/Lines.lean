import Countersign.Proofs.Disk.Replace
import Countersign.Proofs.Trail.Entry
import Countersign.Proofs.Trail.Telling
import Mathlib.Data.List.Forall2

/-! The file of a trail. Loggers that share a sink add a line to its file for each event, in the order
of the events, and each line is an object of its own: nothing that an event or its context holds
breaks a line. -/

namespace Countersign

/-! ### Lines -/

/-- Lines one after the other, each with a newline at its end. -/
def ofLines (lines : List Bytes) : Bytes := lines.flatMap (· ++ [0x0a])

/-- Nothing, or bytes with a newline at their end. -/
def EndsLine (bytes : Bytes) : Prop := bytes = [] ∨ ∃ front, bytes = front ++ [0x0a]

theorem ofLines_append (first second : List Bytes) :
    ofLines (first ++ second) = ofLines first ++ ofLines second := List.flatMap_append

theorem splitOn_newline (front rest : Bytes) :
    (front ++ 0x0a :: rest).splitOn 0x0a = front.splitOn 0x0a ++ rest.splitOn 0x0a :=
  List.splitOnP_append_cons front rest (beq_self_eq_true 0x0a)

theorem splitOn_ofLines {lines : List Bytes} (h : ∀ line ∈ lines, 0x0a ∉ line) :
    (ofLines lines).splitOn 0x0a = lines ++ [[]] := by
  induction lines with
  | nil => rfl
  | cons line rest ih =>
    have hcons : ofLines (line :: rest) = line ++ 0x0a :: ofLines rest := by simp [ofLines]
    rw [hcons, splitOn_newline, List.splitOn_eq_singleton (h line List.mem_cons_self),
      ih fun other ho => h other (List.mem_cons_of_mem line ho)]
    rfl

/-- What is added behind the end of a line leaves the lines before it what they are. -/
theorem EndsLine.splitOn_append {old : Bytes} (h : EndsLine old) (added : Bytes) :
    (old ++ added).splitOn 0x0a = (old.splitOn 0x0a).dropLast ++ added.splitOn 0x0a := by
  rcases h with rfl | ⟨front, rfl⟩
  · rfl
  · have hold : (front ++ [0x0a]).splitOn 0x0a = front.splitOn 0x0a ++ [[]] :=
      splitOn_newline front []
    rw [hold, List.dropLast_concat, List.append_assoc, List.singleton_append, splitOn_newline]

/-! ### The file -/

namespace Disk

/-- The tree when the directories above a path have been made, as far as they can be. -/
def withDirectory (disk : Disk) (path : String) : Disk :=
  match Path.directory? path with
  | none => disk
  | some above => (disk.makeDirectories above).1

/-- A file that lines can be added to, and what it holds. It is absent, even from a directory that
may have to be made for it, or it is there and ends with a line or is empty. -/
inductive TakesLines (disk : Disk) (path : String) : Bytes → Prop where
  | absent (h : (disk.withDirectory path).at? true path = none) : TakesLines disk path []
  | present {number : Nat} {old : Bytes} (h : disk.at? true path = some (.file number old))
      (he : EndsLine old) : TakesLines disk path old

variable {disk : Disk} {path : String} {old : Bytes}

theorem TakesLines.endsLine (h : disk.TakesLines path old) : EndsLine old := by
  cases h with
  | absent => exact .inl rfl
  | present _ he => exact he

theorem furnished_withDirectory (disk : Disk) (path : String) :
    disk.Furnished (disk.withDirectory path) := by
  unfold withDirectory
  split
  · exact .nothing
  · exact furnished_makeDirectories disk _

end Disk

variable {disk started : Disk} {path : String} {old : Bytes}

theorem Sink.of_openFile? {sink : Sink} (h : Sink.openFile? disk path = (started, some sink)) :
    ∃ opened, (disk.withDirectory path).openFile? true path = some (opened, started) ∧
      sink = .file opened := by
  cases hd : Path.directory? path with
  | none =>
    have hmade : disk.withDirectory path = disk := by simp only [Disk.withDirectory, hd]
    rw [hmade]
    simp only [Sink.openFile?, hd] at h
    split at h
    · rename_i opened after ho
      cases h
      exact ⟨opened, ho, rfl⟩
    · exact nomatch h
  | some above =>
    have hmade : disk.withDirectory path = (disk.makeDirectories above).1 := by
      simp only [Disk.withDirectory, hd]
    rw [hmade]
    simp only [Sink.openFile?, hd] at h
    split at h
    · exact nomatch h
    · rename_i made hm
      rw [hm]
      split at h
      · rename_i opened after ho
        cases h
        exact ⟨opened, ho, rfl⟩
      · exact nomatch h

/-- A file that has been opened holds what it held, which is nothing if it has been made. -/
theorem Disk.TakesLines.exists_file {sink : Sink} (h : disk.TakesLines path old)
    (ho : Sink.openFile? disk path = (started, some sink)) :
    ∃ number, sink = .file (.file number) ∧ started.at? true path = some (.file number old) := by
  obtain ⟨opened, hopen, rfl⟩ := Sink.of_openFile? ho
  have hkept : ∀ {number content}, disk.at? true path = some (.file number content) →
      (disk.withDirectory path).at? true path = some (.file number content) :=
    (Disk.furnished_withDirectory disk path).at?_file
  rcases Disk.openFile?_cases hopen with ⟨place, hl, hn, rfl, rfl⟩ | ⟨number, content, hf, rfl, rfl⟩ |
      ⟨hf, rfl, rfl⟩
  · have hnone := hl.at?.trans hn
    cases h with
    | absent => exact ⟨_, rfl, hl.at?_addFile hn⟩
    | present hp => exact nomatch (hkept hp).symm.trans hnone
  · refine ⟨number, rfl, ?_⟩
    cases h with
    | absent hnone => exact nomatch hnone.symm.trans hf
    | present hp =>
      cases (hkept hp).symm.trans hf
      exact hf
  · cases h with
    | absent hnone => exact nomatch hnone.symm.trans hf
    | present hp => exact nomatch (hkept hp).symm.trans hf

section

variable {site : Site} {number : Nat} {content : Bytes}
  (h : site.disk.at? true path = some (.file number content))
include h

theorem Sink.at?_deliver (sink : Sink) (entry : TrailEntry) :
    (sink.deliver entry site).disk.at? true path = some (.file number
      (content ++ if sink = .file (.file number) then entry.line else [])) := by
  cases sink with
  | notices => simpa [Sink.deliver] using h
  | memory other => simpa [Sink.deliver] using h
  | file opened =>
    cases opened with
    | device => simpa [Sink.deliver, Disk.append] using h
    | file other =>
      by_cases hsame : other = number
      · subst hsame
        rw [if_pos rfl]
        exact Disk.at?_changeFile (· ++ entry.line) h
      · rw [if_neg (by simpa using hsame), List.append_nil]
        exact Disk.at?_changeFile_of_ne _ (Ne.symm hsame) h

/-- A file takes the line of an entry as often as it is among the sinks. -/
theorem Trail.at?_deliver (trail : Trail) (entry : TrailEntry) :
    (trail.deliver site entry).disk.at? true path = some (.file number (content ++
      (List.replicate (trail.sinks.count (.file (.file number))) entry.line).flatten)) := by
  obtain ⟨sinks⟩ := trail
  simp only [Trail.deliver]
  induction sinks generalizing site content with
  | nil => simpa using h
  | cons sink rest ih =>
    rw [List.foldl_cons, ih (Sink.at?_deliver h sink entry), List.count_cons]
    by_cases hsame : sink = .file (.file number)
    · simp [hsame, List.replicate_succ]
    · simp [hsame]

end

/-! ### Loggers -/

/-- Events are noted through a logger, all under its context. -/
structure Logger where
  context : Context
  trail : Trail

namespace Logger

/-- The same sinks, another round. -/
def withContext (logger : Logger) (context : Context) : Logger := { logger with context }

def emit (logger : Logger) (site : Site) (event : Event) : Site :=
  logger.trail.emit site logger.context event

end Logger

/-- The loggers that share a sink, and the site that they are used on. -/
structure Loggers where
  site : Site
  loggers : List Logger := []

namespace Loggers

/-- A logger is made, with the sink among its own; one is made from another for a round of its own;
or an event is noted through one. -/
inductive Step (sink : Sink) : Loggers → Option Note → Loggers → Prop where
  | made {s : Loggers} (logger : Logger) (h : logger.trail.sinks.count sink = 1) :
      Step sink s none { s with loggers := logger :: s.loggers }
  | switched {s : Loggers} {logger : Logger} (h : logger ∈ s.loggers) (context : Context) :
      Step sink s none { s with loggers := logger.withContext context :: s.loggers }
  | noted {s : Loggers} {logger : Logger} (h : logger ∈ s.loggers) (event : Event) :
      Step sink s (some (logger.context, event)) { s with site := logger.emit s.site event }

/-- Some number of steps, and what has been noted in them. -/
inductive Run (sink : Sink) : Loggers → List Note → Loggers → Prop where
  | start (s : Loggers) : Run sink s [] s
  | step {s between after : Loggers} {told : List Note} {note : Option Note}
      (h : Run sink s told between) (hs : Step sink between note after) :
      Run sink s (told ++ note.toList) after

/-- The bytes are the line of an entry that tells the note. -/
def IsWritten (line : Bytes) (note : Note) : Prop :=
  ∃ time, line = (TrailEntry.mk time note.1 note.2).toJson.compact

/-- The file holds what it held and a line for each note; all loggers write there, and once. -/
structure Writes (path : String) (number : Nat) (old : Bytes) (told : List Note) (s : Loggers) :
    Prop where
  shared : ∀ logger ∈ s.loggers, logger.trail.sinks.count (.file (.file number)) = 1
  file : ∃ lines, s.site.disk.at? true path = some (.file number (old ++ ofLines lines)) ∧
    List.Forall₂ IsWritten lines told

variable {s after : Loggers} {number : Nat} {told : List Note}

theorem Writes.step {note : Option Note} (h : Writes path number old told s)
    (hs : Step (.file (.file number)) s note after) :
    Writes path number old (told ++ note.toList) after := by
  cases hs with
  | made logger hone =>
    rw [Option.toList_none, List.append_nil]
    exact ⟨List.forall_mem_cons.mpr ⟨hone, h.shared⟩, h.file⟩
  | @switched logger hl context =>
    have hone := h.shared logger hl
    rw [Option.toList_none, List.append_nil]
    exact ⟨List.forall_mem_cons.mpr ⟨hone, h.shared⟩, h.file⟩
  | @noted logger hl event =>
    obtain ⟨lines, hfile, hlines⟩ := h.file
    let entry : TrailEntry := ⟨s.site.clock s.site.ticks, logger.context, event⟩
    have hnow : s.site.now.2.disk.at? true path = some (.file number (old ++ ofLines lines)) := hfile
    have hline : ofLines [entry.toJson.compact] = entry.line := by simp [ofLines, TrailEntry.line]
    refine ⟨h.shared, lines ++ [entry.toJson.compact], ?_,
      List.rel_append hlines (.cons ⟨_, rfl⟩ .nil)⟩
    have hnoted := Trail.at?_deliver hnow logger.trail entry
    rw [h.shared logger hl, List.replicate_one, List.flatten_singleton, List.append_assoc, ← hline,
      ← ofLines_append] at hnoted
    exact hnoted

theorem Writes.run (h : Writes path number old [] s)
    (hr : Run (.file (.file number)) s told after) : Writes path number old told after := by
  induction hr with
  | start => exact h
  | step _ hs ih => exact ih.step hs

/-- The line is one object, and that tells the event under its context. -/
structure IsLineOf (line : Bytes) (note : Note) : Prop where
  notEmpty : line ≠ []
  isText : (Text.ofUtf8? line).isSome = true
  object : ∃ entries, Json.read? line = some (.object entries)
  event : (Json.read? line).bind Event.ofJson? = some note.2
  context : (Json.read? line).bind ( Json.get? "context") = some note.1.toJson

theorem newline_not_mem_of_areWritten {lines : List Bytes}
    (h : List.Forall₂ IsWritten lines told) : ∀ line ∈ lines, 0x0a ∉ line := by
  induction h with
  | nil => exact nofun
  | cons hline _ ih =>
    obtain ⟨time, rfl⟩ := hline
    exact List.forall_mem_cons.mpr ⟨TrailEntry.newline_not_mem_compact _, ih⟩

theorem IsWritten.isLineOf {line : Bytes} {note : Note} (h : IsWritten line note) :
    IsLineOf line note := by
  obtain ⟨time, rfl⟩ := h
  generalize hentry : TrailEntry.mk time note.1 note.2 = entry
  have hread := entry.read?_compact
  have hspells := Json.spells_compact _ entry.isPlain_toJson
  obtain ⟨s, hs, _⟩ := Text.exists_of_isEncoded (hspells.isEncoded entry.legible_toJson)
  refine ⟨List.ne_nil_of_length_pos hspells.length_pos, by rw [hs, Option.isSome_some],
    ⟨_, hread⟩, ?_, ?_⟩
  · rw [hread, Option.bind_some, TrailEntry.ofJson?_toJson, ← hentry]
  · rw [hread, Option.bind_some, TrailEntry.get?_context, ← hentry]

/-- Loggers that share a file keep what it holds, and add a line for each event that is noted
through one of them, in the order of the events. -/
theorem file_has_a_line_for_each_event {sink : Sink} {site : Site} {told : List Note}
    {after : Loggers} (hold : disk.TakesLines path old)
    (hopen : Sink.openFile? disk path = (site.disk, some sink))
    (hrun : Run sink { site } told after) :
    ∃ added lines, after.site.disk.read? path = some (old ++ added) ∧
      added.splitOn 0x0a = lines ++ [[]] ∧
      (old ++ added).splitOn 0x0a = (old.splitOn 0x0a).dropLast ++ lines ++ [[]] ∧
      List.Forall₂ IsLineOf lines told := by
  obtain ⟨number, rfl, hfile⟩ := hold.exists_file hopen
  have hstart : Writes path number old [] { site } :=
    ⟨nofun, [], by rw [hfile, ofLines, List.flatMap_nil, List.append_nil], .nil⟩
  obtain ⟨_, lines, hafter, hlines⟩ := hstart.run hrun
  have hsplit := splitOn_ofLines (newline_not_mem_of_areWritten hlines)
  refine ⟨ofLines lines, lines, ?_, hsplit, ?_, hlines.imp fun _ _ => IsWritten.isLineOf⟩
  · rw [Disk.read?, Disk.find?_eq_at?, hafter]
  · rw [hold.endsLine.splitOn_append, hsplit, List.append_assoc]

/-- A site with a file of one line. -/
def keptSite : Site where
  disk := { nodes := [(["trail"], .file 0 (Json.ascii "kept\n"))], made := 1 }
  clock := fun _ => .epoch

/-- A logger of that file, for a round whose digest is broken into lines. -/
def brokenLogger : Logger := ⟨{ digest := "0x\nab" }, ⟨[.notices, .file (.file 0)]⟩⟩

theorem two_rounds_share_a_file :
    ∃ after, Run (.file (.file 0)) { site := keptSite }
        [({ digest := "0x\nab" }, .failure "no\nreply"), ({ digest := "0xcd" }, .executed "0x01")]
        after ∧
      ∃ added lines, after.site.disk.read? "trail" = some (Json.ascii "kept\n" ++ added) ∧
        added.splitOn 0x0a = lines ++ [[]] ∧
        (Json.ascii "kept\n" ++ added).splitOn 0x0a =
          ((Json.ascii "kept\n").splitOn 0x0a).dropLast ++ lines ++ [[]] ∧
        List.Forall₂ IsLineOf lines [({ digest := "0x\nab" }, .failure "no\nreply"),
          ({ digest := "0xcd" }, .executed "0x01")] := by
  have hname : Disk.IsSingle "trail" := by decide +kernel
  have hresolve : keptSite.disk.resolve true "trail" =
      .ok (["trail"], some (.file 0 (Json.ascii "kept\n"))) := hname.resolve rfl nofun
  have hdirectory : Path.directory? "trail" = none := by decide +kernel
  have hopen : Sink.openFile? keptSite.disk "trail" = (keptSite.disk, some (.file (.file 0))) := by
    simp only [Sink.openFile?, hdirectory, Disk.openFile?, hresolve, if_true]
  have hold : keptSite.disk.TakesLines "trail" (Json.ascii "kept\n") :=
    .present (by rw [Disk.at?, hresolve]) (.inr ⟨Json.ascii "kept", by decide +kernel⟩)
  have hstart : Run (.file (.file 0)) { site := keptSite } [] { site := keptSite } := .start _
  have hmade := hstart.step (.made brokenLogger (by decide))
  have hfirst := hmade.step (.noted List.mem_cons_self (.failure "no\nreply"))
  have hswitched := hfirst.step (.switched List.mem_cons_self { digest := "0xcd" })
  have hrun := hswitched.step (.noted List.mem_cons_self (.executed "0x01"))
  exact ⟨_, hrun, file_has_a_line_for_each_event hold hopen hrun⟩

end Loggers
end Countersign
