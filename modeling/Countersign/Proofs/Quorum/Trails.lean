import Countersign.Proofs.Quorum.Calls
import Countersign.Proofs.Quorum.Sessions
import Countersign.Proofs.Quorum.Telling
import Countersign.Proofs.Tally.Binding
import Mathlib.Data.List.Count
import Mathlib.Data.List.Forall2

/-! The trails of sessions that share a journal. Every call tells what has come of it, in whatever
order the sessions make their calls, and the execution of an intent is told once, if it has been
recorded. -/

namespace Countersign

/-- Whether the execution of the intent with that digest is told. -/
def isExecutionOf (d : Digest) : Note → Bool
  | (c, .executed _) => c.digest == d.text
  | _ => false

theorem isExecutionOf_of_ne {event : Event} (h : ∀ txHash, event ≠ .executed txHash) (d : Digest)
    (c : Context) : isExecutionOf d (c, event) = false := by
  cases event with
  | executed txHash => exact absurd rfl (h txHash)
  | _ => rfl

theorem isExecutionOf_executed {c : Context} {other : Digest} (h : c.digest = other.text)
    (d : Digest) (txHash : String) :
    isExecutionOf d (c, .executed txHash) = decide (other = d) := by
  rw [isExecutionOf, h]
  by_cases hsame : other = d
  · simp [hsame]
  · have hne : other.text ≠ d.text := fun ht => hsame (Digest.text_injective ht)
    simp [hsame, hne]

namespace Sessions

/-- A call of a session, the sites before and after it, and its result. -/
inductive Deed where
  | authorized (q : Quorum) (request : Request) (site site' : Site)
      (result : Except RoundFault Authorization)
  | broadcast (a : Authorization) (txHash : String) (site site' : Site)
  | failed (a : Authorization) (reason : String) (site site' : Site)
  | recorded (a : Authorization) (txHash : String) (site site' : Site)
      (result : Except RoundFault ExecutionRecord)

namespace Deed

/-- What is told of a call, under the digest that it is about. The sites differ by that, and by what
recording does to the files. -/
inductive IsTold : Deed → List Note → Prop where
  | authorized {q : Quorum} {request : Request} {site : Site}
      {result : Except RoundFault Authorization} {told : List Note}
      (h : q.Tells site request result told) :
      IsTold (.authorized q request site (q.trail.tell site told) result) told
  | broadcast {a : Authorization} {site : Site} (txHash : String)
      (hc : a.context.digest = a.tally.digest.text) :
      IsTold (.broadcast a txHash site (a.trail.tell site [(a.context, .broadcast txHash)]))
        [(a.context, .broadcast txHash)]
  | failed {a : Authorization} {site : Site} (reason : String)
      (hc : a.context.digest = a.tally.digest.text) :
      IsTold (.failed a reason site (a.trail.tell site [(a.context, .failure reason)]))
        [(a.context, .failure reason)]
  | recorded {a : Authorization} {txHash : String} {site : Site} {event : Event}
      {result : Except RoundFault ExecutionRecord} (disk : Disk) (ticks : Nat)
      (hc : a.context.digest = a.tally.digest.text) (h : Quorum.Concludes txHash result event) :
      IsTold (.recorded a txHash site
        (a.trail.tell { site with disk, ticks } [(a.context, event)]) result) [(a.context, event)]

/-- The authorization whose execution has been recorded, and its record. -/
def execution? : Deed → Option (Authorization × ExecutionRecord)
  | recorded a _ _ _ (.ok r) => some (a, r)
  | _ => none

/-- The digest whose execution has been recorded. -/
def executed? (deed : Deed) : Option Digest := deed.execution?.map (·.1.tally.digest)

theorem mem_filterMap_executed?_iff {deeds : List Deed} {d : Digest} :
    d ∈ deeds.filterMap executed? ↔ ∃ a txHash site site' r,
      recorded a txHash site site' (.ok r) ∈ deeds ∧ a.tally.digest = d := by
  rw [List.mem_filterMap]
  constructor
  · rintro ⟨deed, hm, hd⟩
    obtain ⟨⟨a, r⟩, he, rfl⟩ := Option.map_eq_some_iff.mp hd
    unfold execution? at he
    split at he
    · cases he
      exact ⟨_, _, _, _, _, hm, rfl⟩
    · exact nomatch he
  · rintro ⟨a, txHash, site, site', r, hm, rfl⟩
    exact ⟨_, hm, rfl⟩

theorem countP_of_tells {q : Quorum} {site : Site} {request : Request}
    {result : Except RoundFault Authorization} {told : List Note}
    (h : q.Tells site request result told) (d : Digest) :
    told.countP (isExecutionOf d) = 0 := by
  cases h with
  | counted _ _ _ hclosed =>
    have hnot := isExecutionOf_of_ne hclosed.not_executed d
    simp only [List.countP_cons, hnot]
    rfl
  | _ => rfl

/-- An execution is told by the call that has recorded it. -/
theorem IsTold.countP {deed : Deed} {told : List Note} (h : deed.IsTold told) (d : Digest) :
    told.countP (isExecutionOf d) = deed.executed?.toList.count d := by
  cases h with
  | authorized h => exact countP_of_tells h d
  | broadcast => rfl
  | failed => rfl
  | @recorded a txHash _ _ _ _ _ hc h =>
    cases h with
    | recorded r =>
      have htold := isExecutionOf_executed hc d txHash
      by_cases hsame : a.tally.digest = d <;>
        simp [htold, executed?, execution?, hsame]
    | refused => rfl

theorem countP_flatten {deeds : List Deed} {rounds : List (List Note)}
    (h : List.Forall₂ IsTold deeds rounds) (d : Digest) :
    rounds.flatten.countP (isExecutionOf d) = (deeds.filterMap executed?).count d := by
  induction h with
  | nil => rfl
  | @cons deed told deeds rounds h _ ih =>
    have hcons : (deed :: deeds).filterMap executed? =
        deed.executed?.toList ++ deeds.filterMap executed? := by
      rw [List.filterMap_cons]
      cases deed.executed? <;> rfl
    rw [List.flatten_cons, List.countP_append, ih, h.countP, hcons, List.count_append]

end Deed

/-- One turn of one session. A session is of the journal at the path, whichever text it has for that
path, and its trail goes to no file of the journal; authorizations may be used by other sessions
than have made them. -/
inductive Turn (path : String) : Sessions → Option Deed → Sessions → Prop where
  | opened {s : Sessions} {q : Quorum} (i : Nat) (hi : s.session i = none)
      (hp : Disk.LeadAlike q.journal.path path) (hc : q.trail.IsClear s.site.disk path) :
      Turn path s none (s.setSession i q s.site)
  | authorized {s : Sessions} {site : Site} {q after : Quorum} {request : Request}
      {result : Except RoundFault Authorization} (i : Nat) (hi : s.session i = some q)
      (h : q.authorize s.site request = (site, after, result)) :
      Turn path s (some (.authorized q request s.site site result))
        { s.setSession i after site with
          issued := s.issued ++ result.toOption.toList.map fun a => (i, a) }
  | broadcast {s : Sessions} {a : Authorization} (k : Nat) (ha : (k, a) ∈ s.issued)
      (txHash : String) :
      Turn path s (some (.broadcast a txHash s.site (a.noteBroadcast s.site txHash)))
        { s with site := a.noteBroadcast s.site txHash }
  | failed {s : Sessions} {a : Authorization} (k : Nat) (ha : (k, a) ∈ s.issued) (reason : String) :
      Turn path s (some (.failed a reason s.site (a.noteFailure s.site reason)))
        { s with site := a.noteFailure s.site reason }
  | recorded {s : Sessions} {site : Site} {q after : Quorum} {a : Authorization} {txHash : String}
      {note : Option String} {result : Except RoundFault ExecutionRecord} (i k : Nat)
      (hi : s.session i = some q) (ha : (k, a) ∈ s.issued)
      (h : q.recordExecution s.site a txHash note = (site, after, result)) :
      Turn path s (some (.recorded a txHash s.site site result)) (s.setSession i after site)
  /-- Files other than the journal change. -/
  | aside {s : Sessions} {disk : Disk} (hl : s.site.disk.LeavesAlone disk path) :
      Turn path s none { s with site := { s.site with disk } }

/-- Turns that sessions take one after the other, and the calls that they have made. -/
inductive Course (path : String) : Sessions → List Deed → Sessions → Prop where
  | start (s : Sessions) : Course path s [] s
  | turn {s between after : Sessions} {deeds : List Deed} {deed : Option Deed}
      (h : Course path s deeds between) (ht : Turn path between deed after) :
      Course path s (deeds ++ deed.toList) after

/-- The authorization has the trail of the session, and is told of under its digest. -/
def IsOf (s : Sessions) (k : Nat) (a : Authorization) : Prop :=
  a.context.digest = a.tally.digest.text ∧ ∃ q, s.session k = some q ∧ a.trail = q.trail

/-- The journal holds these records, nothing else goes to its files, and each authorization is of
the session that has made it. -/
structure Sound (path : String) (records : List ExecutionRecord) (s : Sessions) : Prop where
  stands : Journal.Stands s.site.disk path records
  clock : ∀ n, (s.site.clock n).IsValid
  session : ∀ i q, s.session i = some q →
    Disk.LeadAlike q.journal.path path ∧ q.trail.IsClear s.site.disk path
  issued : ∀ k a, (k, a) ∈ s.issued → IsOf s k a

variable {path : String} {records more : List ExecutionRecord} {s after : Sessions}

theorem IsOf.mono {k : Nat} {a : Authorization} (h : IsOf s k a) (hk : KeepsSessions s after) :
    IsOf after k a := by
  obtain ⟨hdigest, q, hq, htrail⟩ := h
  obtain ⟨journal, hj⟩ := hk k q hq
  exact ⟨hdigest, _, hj, htrail⟩

theorem keepsSessions_of_vacant {i : Nat} (hi : s.session i = none) (q : Quorum) (site : Site) :
    KeepsSessions s (s.setSession i q site) := by
  intro k other hk
  have hki : k ≠ i := by
    rintro rfl
    exact nomatch hi.symm.trans hk
  exact ⟨other.journal, by simp [Sessions.setSession, hki, hk]⟩

theorem Sound.isClear (h : Sound path records s) {k : Nat} {a : Authorization}
    (ha : (k, a) ∈ s.issued) : a.trail.IsClear s.site.disk path := by
  obtain ⟨_, q, hq, htrail⟩ := h.issued k a ha
  exact htrail ▸ (h.session k q hq).2

theorem Sound.move (h : Sound path records s) {site : Site}
    (hs : Journal.Stands site.disk path more) (hclock : site.clock = s.site.clock)
    (hmono : ∀ trail : Trail, trail.IsClear s.site.disk path → trail.IsClear site.disk path) :
    Sound path more { s with site } :=
  ⟨hs, fun n => hclock ▸ h.clock n,
    fun i q hi => ⟨(h.session i q hi).1, hmono _ (h.session i q hi).2⟩, h.issued⟩

theorem Sound.of_leavesAlone (h : Sound path records s) {site : Site}
    (hl : s.site.disk.LeavesAlone site.disk path) (hclock : site.clock = s.site.clock) :
    Sound path records { s with site } :=
  h.move (h.stands.of_leavesAlone hl) hclock fun _ hc => hc.of_leavesAlone h.stands.houses hl

theorem Sound.setSession {site : Site} (h : Sound path records { s with site }) {i : Nat}
    {q : Quorum} (hk : KeepsSessions s (s.setSession i q site))
    (hp : Disk.LeadAlike q.journal.path path) (hc : q.trail.IsClear site.disk path) :
    Sound path records (s.setSession i q site) := by
  refine ⟨h.stands, h.clock, fun k other hk => ?_, fun k a ha => (h.issued k a ha).mono hk⟩
  simp only [Sessions.setSession] at hk
  split at hk
  · obtain rfl := Option.some.inj hk
    exact ⟨hp, hc⟩
  · exact h.session k other hk

/-- What is recorded by a turn, if anything is. -/
def recordsOf (deed : Option Deed) : List ExecutionRecord :=
  (deed.bind Deed.execution?).toList.map (·.2)

/-- A turn adds to the journal what it records, and nothing else. -/
theorem Sound.turn (h : Sound path records s) {deed : Option Deed} (ht : Turn path s deed after) :
    Sound path (records ++ recordsOf deed) after ∧ KeepsSessions s after ∧
      ∀ e ∈ deed.bind Deed.execution?, e.2.digest = e.1.tally.digest.text := by
  have hsame : ∀ {other : Sessions}, Sound path records other → Sound path (records ++ []) other :=
    fun ho => (List.append_nil records).symm ▸ ho
  cases ht with
  | @opened q i hi hp hc =>
    have hk := keepsSessions_of_vacant hi q s.site
    exact ⟨hsame (h.setSession hk hp hc), hk, fun _ he => nomatch he⟩
  | @authorized site q next request result i hi ha =>
    obtain ⟨hp, hc⟩ := h.session i q hi
    obtain ⟨hkeeps, journal, rfl, hj⟩ := Quorum.keeps_authorize h.stands.houses hc ha
    have hk := keepsSessions_setSession hi journal site
    have hset := (h.of_leavesAlone hkeeps.leavesAlone hkeeps.clock).setSession hk
      (hj ▸ hp) hkeeps.clear
    refine ⟨hsame ⟨hset.stands, hset.clock, hset.session, fun k a hm => ?_⟩, hk,
      fun _ he => absurd he (Option.not_mem_none _)⟩
    rcases List.mem_append.mp hm with hm | hm
    · exact hset.issued k a hm
    · obtain ⟨made, hmade, hpair⟩ := List.mem_map.mp hm
      obtain ⟨rfl, rfl⟩ := Prod.mk.inj hpair
      obtain rfl := toOption_eq_some_iff.mp (Option.mem_toList.mp hmade)
      obtain ⟨told, htells, _⟩ := Quorum.authorize_tells ha
      obtain ⟨_, _, _, _, _, _, _, _, _, htrail, _⟩ := Quorum.authorize_eq_ok ha
      cases htells with
      | counted _ _ hdigest _ =>
        exact ⟨hdigest, { q with journal }, by simp [Sessions.setSession], htrail⟩
  | @broadcast a k ha txHash =>
    have hkeeps := (Trail.Keeps.refl h.stands.houses (h.isClear ha)).emit a.context
      (.broadcast txHash)
    exact ⟨hsame (h.of_leavesAlone hkeeps.leavesAlone hkeeps.clock), keepsSessions_of_eq rfl,
      fun _ he => absurd he (Option.not_mem_none _)⟩
  | @failed a k ha reason =>
    have hkeeps := (Trail.Keeps.refl h.stands.houses (h.isClear ha)).emit a.context
      (.failure reason)
    exact ⟨hsame (h.of_leavesAlone hkeeps.leavesAlone hkeeps.clock), keepsSessions_of_eq rfl,
      fun _ he => absurd he (Option.not_mem_none _)⟩
  | @recorded site q next a txHash note result i k hi ha hr =>
    obtain ⟨hp, hc⟩ := h.session i q hi
    cases result with
    | error fault =>
      obtain ⟨hkeeps, journal, rfl, hj⟩ :=
        Quorum.keeps_recordExecution h.stands hp (h.isClear ha) hr
      have hk := keepsSessions_setSession hi journal site
      exact ⟨hsame ((h.of_leavesAlone hkeeps.leavesAlone hkeeps.clock).setSession hk (hj ▸ hp)
        (hc.of_leavesAlone h.stands.houses hkeeps.leavesAlone)), hk,
        fun _ he => absurd he (Option.not_mem_none _)⟩
    | ok r =>
      obtain ⟨⟨between, content, hrep, hl⟩, hstands, hdigest, _, hclock, journal, rfl, hj⟩ :=
        Quorum.replaces_recordExecution h.stands hp (h.isClear ha) (h.clock s.site.ticks) hr
      have hmono : ∀ trail : Trail, trail.IsClear s.site.disk path →
          trail.IsClear site.disk path :=
        fun _ hc => (hc.of_replaces hrep).of_leavesAlone hrep.houses hl
      have hk := keepsSessions_setSession hi journal site
      refine ⟨(h.move hstands hclock hmono).setSession hk (hj ▸ hp) (hmono _ hc), hk, fun e he => ?_⟩
      obtain rfl : e = (a, r) := (Option.some.inj he).symm
      exact hdigest
  | @aside disk hl =>
    have hmoved : Sound path records { s with site := { s.site with disk } } :=
      h.of_leavesAlone hl rfl
    exact ⟨hsame hmoved, keepsSessions_of_eq rfl, fun _ he => nomatch he⟩

/-- Along a course the journal keeps what it had and gets what is recorded. -/
theorem Sound.course (h : Sound path records s) {deeds : List Deed}
    (hc : Course path s deeds after) :
    Sound path (records ++ (deeds.filterMap Deed.execution?).map (·.2)) after ∧
      ∀ e ∈ deeds.filterMap Deed.execution?, e.2.digest = e.1.tally.digest.text := by
  induction hc with
  | start => exact ⟨by simpa using h, by simp⟩
  | @turn between after deeds deed hc ht ih =>
    obtain ⟨hb, hdigests⟩ := ih
    obtain ⟨hafter, _, hdigest⟩ := hb.turn ht
    have hnew : deed.toList.filterMap Deed.execution? = (deed.bind Deed.execution?).toList := by
      cases deed with
      | none => rfl
      | some deed =>
        cases he : deed.execution? <;> simp [he]
    rw [List.filterMap_append, hnew, List.map_append, ← List.append_assoc]
    refine ⟨hafter, fun e he => ?_⟩
    rcases List.mem_append.mp he with he | he
    · exact hdigests e he
    · exact hdigest e (Option.mem_toList.mp he)

/-- Each trail goes to the memory of that number, and once. -/
def AllTell (s : Sessions) (number : Nat) : Prop :=
  ∀ i q, s.session i = some q → q.trail.sinks.count (.memory number) = 1

theorem AllTell.of_keepsSessions {number : Nat} (h : AllTell after number)
    (hk : KeepsSessions s after) : AllTell s number := by
  intro i q hi
  obtain ⟨journal, hj⟩ := hk i q hi
  exact h i { q with journal } hj

theorem AllTell.heard {number k : Nat} {a : Authorization} (h : AllTell s number)
    (ha : IsOf s k a) (site : Site) (told : List Note) :
    (a.trail.tell site told).heard number = site.heard number ++ told := by
  obtain ⟨_, q, hq, htrail⟩ := ha
  rw [htrail]
  exact Trail.heard_tell (h k q hq) told

/-- A turn tells of its call, if it is one, and of nothing else. -/
theorem Turn.tells (hs : Sound path records s) {deed : Option Deed} (ht : Turn path s deed after) :
    ∃ rounds, List.Forall₂ Deed.IsTold deed.toList rounds ∧
      ∀ number, AllTell s number →
        after.site.heard number = s.site.heard number ++ rounds.flatten := by
  cases ht with
  | opened => exact ⟨[], .nil, fun _ _ => (List.append_nil _).symm⟩
  | @authorized site q next request result i hi ha =>
    obtain ⟨told, htells, rfl⟩ := Quorum.authorize_tells ha
    refine ⟨[told], .cons (.authorized htells) .nil, fun number hall => ?_⟩
    rw [List.flatten_singleton]
    exact Trail.heard_tell (hall i q hi) told
  | @broadcast a k ha txHash =>
    have hof := hs.issued k a ha
    exact ⟨_, .cons (.broadcast txHash hof.1) .nil,
      fun number hall => hall.heard hof s.site [(a.context, .broadcast txHash)]⟩
  | @failed a k ha reason =>
    have hof := hs.issued k a ha
    exact ⟨_, .cons (.failed reason hof.1) .nil,
      fun number hall => hall.heard hof s.site [(a.context, .failure reason)]⟩
  | @recorded site q next a txHash note result i k hi ha hr =>
    have hof := hs.issued k a ha
    obtain ⟨event, disk, ticks, hconcludes, rfl⟩ := Quorum.recordExecution_tells hr
    exact ⟨_, .cons (.recorded disk ticks hof.1 hconcludes) .nil,
      fun number hall => hall.heard hof { s.site with disk, ticks } [(a.context, event)]⟩
  | aside => exact ⟨[], .nil, fun _ _ => (List.append_nil _).symm⟩

theorem Course.tells (hs : Sound path records s) {deeds : List Deed}
    (hc : Course path s deeds after) : ∃ rounds, List.Forall₂ Deed.IsTold deeds rounds ∧
      ∀ number, AllTell after number →
        after.site.heard number = s.site.heard number ++ rounds.flatten := by
  induction hc with
  | start => exact ⟨[], .nil, fun _ _ => (List.append_nil _).symm⟩
  | @turn between after deeds deed hc ht ih =>
    obtain ⟨rounds, hrounds, hheard⟩ := ih
    have hb := (hs.course hc).1
    obtain ⟨more, hmore, hlast⟩ := ht.tells hb
    refine ⟨rounds ++ more, List.rel_append hrounds hmore, fun number hall => ?_⟩
    have hbetween := hall.of_keepsSessions (hb.turn ht).2.1
    rw [hlast number hbetween, hheard number hbetween, List.flatten_append, List.append_assoc]

theorem IsStart.sound {loaded : Loaded} (h : IsStart path loaded s) :
    Sound path loaded.records s := by
  refine ⟨Journal.stands_of_readFile h.houses h.reads, h.clock, fun i q hi => ?_, fun k a ha => ?_⟩
  · exact nomatch (h.session i).symm.trans hi
  · rw [h.issued] at ha
    exact nomatch ha

/-- What is told along a course is what the calls have come to, one after the other. However the
sessions take turns, the execution of an intent is told at most once, and just if a session has
recorded it. -/
theorem trail_tells_what_happened {start : Sessions} {loaded : Loaded}
    (hstart : IsStart path loaded start) {deeds : List Deed} (hc : Course path start deeds s) :
    ∃ rounds, List.Forall₂ Deed.IsTold deeds rounds ∧
      (∀ number, AllTell s number →
        s.site.heard number = start.site.heard number ++ rounds.flatten) ∧
      ∀ d : Digest, rounds.flatten.countP (isExecutionOf d) ≤ 1 ∧
        (rounds.flatten.countP (isExecutionOf d) = 1 ↔ ∃ a txHash site site' r,
          Deed.recorded a txHash site site' (.ok r) ∈ deeds ∧ a.tally.digest = d) ∧
        (d.text ∈ loaded.records.map (·.digest) →
          rounds.flatten.countP (isExecutionOf d) = 0) := by
  have hs := hstart.sound
  obtain ⟨rounds, hrounds, hheard⟩ := hc.tells hs
  obtain ⟨hend, hdigests⟩ := hs.course hc
  have hexecuted : ((deeds.filterMap Deed.execution?).map (·.2)).map (·.digest) =
      (deeds.filterMap Deed.executed?).map Digest.text := by
    have hsplit : deeds.filterMap Deed.executed? =
        (deeds.filterMap Deed.execution?).map (·.1.tally.digest) := List.map_filterMap.symm
    rw [hsplit, List.map_map, List.map_map]
    exact List.map_congr_left hdigests
  have hdistinct := hend.stands.listable.distinct
  rw [List.map_append, hexecuted, List.nodup_append] at hdistinct
  obtain ⟨_, hnodup, hapart⟩ := hdistinct
  have hnodup := hnodup.of_map
  refine ⟨rounds, hrounds, hheard, fun d => ?_⟩
  rw [Deed.countP_flatten hrounds d]
  refine ⟨List.nodup_iff_count_le_one.mp hnodup d, ?_, fun hd => ?_⟩
  · rw [← Deed.mem_filterMap_executed?_iff]
    exact ⟨fun h => List.count_pos_iff.mp (by omega), List.count_eq_one_of_mem hnodup⟩
  · refine List.count_eq_zero.mpr fun hm => ?_
    exact hapart _ hd _ (List.mem_map_of_mem hm) rfl

/-- A quorum of one guardian whose trail is kept in memory. -/
def annSession : Quorum := { Quorum.annQuorum with trail := ⟨[.memory 0]⟩ }

theorem exists_ann_round : ∃ site site' site₂ journal a r,
    IsStart "j" {} ⟨site, fun _ => none, []⟩ ∧
    annSession.authorize site emptyRequest =
      (site', { annSession with journal := ⟨"j", []⟩ }, .ok a) ∧
    Quorum.recordExecution { annSession with journal := ⟨"j", []⟩ } site' a "0x1" none =
      (site₂, { annSession with journal }, .ok r) := by
  let envelope :=
    (Quorum.annForged (emptyIntent.digest (some annSession.domain))).encodeTextual
  let site : Site := ⟨smallFiles "" [] envelope, fun _ => Moment.epoch, 0, [], []⟩
  obtain ⟨hhouses, hempty⟩ := smallFiles.houses "" [] envelope
  have hstart : IsStart "j" {} ⟨site, fun _ => none, []⟩ :=
    ⟨hhouses, Journal.readFile_of_empty hempty, fun _ => Moment.isValid_epoch, fun _ => rfl, rfl⟩
  obtain ⟨site', a, ha, hdisk, _, _, _, _, hmet⟩ :=
    Quorum.exists_ann_authorize site (q := annSession) ofRequest_emptyRequest rfl
      (fun _ _ _ => rfl) rfl rfl (.refl "e") rfl (.refl "j")
  obtain ⟨other, journal, hrecord, _⟩ := smallFiles.exists_record "" [] envelope
    a.tally.digest.text (a.details "0x1" none) site'.now.1
  have hr := Quorum.recordExecution_of_record site'
    (q := annSession) hmet (by rw [hdisk]; exact hrecord)
  exact ⟨site, site', _, journal, a, _, hstart, ha, hr⟩

theorem AllTell.setSession {number : Nat} (h : AllTell s number) {q : Quorum}
    (hq : q.trail.sinks.count (.memory number) = 1) (i : Nat) (site : Site) :
    AllTell (s.setSession i q site) number := by
  intro k other hk
  simp only [Sessions.setSession] at hk
  split at hk
  · obtain rfl := Option.some.inj hk
    exact hq
  · exact h k other hk

theorem exists_ann_course : ∃ (start s : Sessions) (request : Request) (site site₁ site₂ : Site)
    (a : Authorization) (r : ExecutionRecord), IsStart "j" {} start ∧ AllTell s 0 ∧
    Course "j" start [.authorized annSession request site site₁ (.ok a),
      .recorded a "0x1" site₁ site₂ (.ok r)] s := by
  obtain ⟨site, site₁, site₂, journal, a, r, hstart, ha, hr⟩ := exists_ann_round
  have hclear : annSession.trail.IsClear site.disk "j" := by
    simp [Trail.IsClear, Sink.IsClear, annSession]
  have hopened := Course.turn (.start ⟨site, fun _ => none, []⟩)
    (.opened (q := annSession) 0 rfl (.refl "j") hclear)
  have hauthorized := hopened.turn (.authorized 0 rfl ha)
  have hrecorded := hauthorized.turn (.recorded 0 0 rfl List.mem_cons_self hr)
  have hnobody : AllTell ⟨site, fun _ => none, []⟩ 0 := by simp [AllTell]
  have hall := ((hnobody.setSession (q := annSession) rfl 0 site).setSession
    (q := { annSession with journal := ⟨"j", []⟩ }) rfl 0 site₁).setSession
    (q := { annSession with journal }) rfl 0 site₂
  -- the sessions that the course ends in say which ones these are, but for what they have issued
  refine ⟨_, _, emptyRequest, site, site₁, site₂, a, r, hstart, ?_, hrecorded⟩
  exact hall

/-- An intent is approved and recorded, and its execution is told. -/
theorem ann_execution_is_told : ∃ (start s : Sessions) (deeds : List Deed) (d : Digest),
    IsStart "j" {} start ∧ Course "j" start deeds s ∧ AllTell s 0 ∧
      d ∈ deeds.filterMap Deed.executed? ∧
      (s.site.heard 0).countP (isExecutionOf d) =
        (start.site.heard 0).countP (isExecutionOf d) + 1 := by
  obtain ⟨start, s, request, site, site₁, site₂, a, r, hstart, hall, hcourse⟩ := exists_ann_course
  obtain ⟨rounds, _, hheard, hcount⟩ := trail_tells_what_happened hstart hcourse
  obtain ⟨_, htold, _⟩ := hcount a.tally.digest
  refine ⟨start, s, _, a.tally.digest, hstart, hcourse, hall, List.mem_cons_self, ?_⟩
  have hrecorded : Deed.recorded a "0x1" site₁ site₂ (.ok r) ∈
      [.authorized annSession request site site₁ (.ok a), .recorded a "0x1" site₁ site₂ (.ok r)] :=
    List.mem_cons_of_mem _ (List.mem_singleton_self _)
  rw [hheard 0 hall, List.countP_append, htold.mpr ⟨a, "0x1", site₁, site₂, r, hrecorded, rfl⟩]

end Sessions
end Countersign
