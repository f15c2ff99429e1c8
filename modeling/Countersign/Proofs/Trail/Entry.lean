import Countersign.Proofs.Json.Line
import Countersign.Proofs.Trail.Context
import Countersign.Trail.Sink

/-! What a line of a trail says for itself. The event, and every field of the context but one, can be
told from it; the digest of the round can, unless a field has been given its name. -/

namespace Countersign

/-- The event that an object tells, whatever else it holds. -/
def Event.ofJson? (j : Json) : Option Event := do
  match ← (← j.get? "event").string? with
  | "intentReceived" => return .intentReceived
  | "signaturesLoaded" => return .signaturesLoaded (← count? "count")
  | "thresholdSatisfied" =>
    return .thresholdSatisfied (← count? "threshold") (← (← j.get? "guardianIds").strings?)
  | "thresholdShortfall" =>
    return .thresholdShortfall (← count? "threshold") (← count? "approvals")
      (← (← j.get? "pendingIds").strings?)
  | "broadcast" => return .broadcast (← (← j.get? "txHash").string?)
  | "executed" => return .executed (← (← j.get? "txHash").string?)
  | "failure" => return .failure (← (← j.get? "reason").string?)
  | _ => none
where
  count? (name : String) : Option Nat :=
    match j.get? name with
    | some (.natural n) => some n
    | _ => none

namespace Json

/-- The value is an object that tells the event, and the fields that were given to its context
except for one of the digest's name. -/
structure TellsEvent (j : Json) (given : List (String × String)) (event : Event) : Prop where
  object : ∃ entries, j = .object entries
  legible : j.legible = true
  tells : Event.ofJson? j = some event
  names : ∀ name, (j.get? name).isSome = true ↔
    name ∈ "timestamp" :: "context" :: "event" :: event.payload.map Prod.fst
  context : ∃ entries, j.get? "context" = some (.object entries)
  fields : ∀ name, name ≠ "digest" → (j.get? "context").bind ( get? name) =
    (given.reverse.lookup name).map .string

/-- The value tells all of an entry: no object in it has a name twice, and the context has the
digest of the round under its name. -/
structure Tells (j : Json) (digest : String) (given : List (String × String)) (event : Event) :
    Prop extends TellsEvent j given event where
  distinct : j.isDistinct = true
  identifies : (j.get? "context").bind ( get? "digest") = some (.string digest)

end Json

namespace TrailEntry

/-- What the object of an entry holds under which name. -/
def fields (entry : TrailEntry) : List (String × Json) :=
  ("timestamp", .string entry.time.text) :: ("context", entry.context.toJson) ::
    ("event", .string entry.event.name) :: entry.event.payload

theorem toJson_eq (entry : TrailEntry) :
    entry.toJson = .object (entry.fields.map fun e => (Text.utf8 e.1, e.2)) := rfl

theorem nodup_names (entry : TrailEntry) : (entry.fields.map Prod.fst).Nodup := by
  obtain ⟨time, context, event⟩ := entry
  cases event <;> simp [fields, Event.payload]

theorem get?_toJson (entry : TrailEntry) (name : String) :
    entry.toJson.get? name = entry.fields.lookup name := by
  rw [toJson_eq]
  show Json.entry? name _ = _
  rw [ Json.entry?_map]
  exact (lookup_perm (List.reverse_perm entry.fields).symm entry.nodup_names name).symm

theorem get?_context (entry : TrailEntry) :
    entry.toJson.get? "context" = some entry.context.toJson := by
  simp [get?_toJson, fields, lookup_cons_ite]

theorem ofJson?_toJson (entry : TrailEntry) : Event.ofJson? entry.toJson = some entry.event := by
  obtain ⟨time, context, event⟩ := entry
  cases event <;>
    simp [Event.ofJson?, Event.ofJson?.count?, get?_toJson, fields, lookup_cons_ite, Event.name,
      Event.payload]

/-- Every value in the object of an entry is the context, a text, a number, or a list of texts. -/
theorem forall_fields {motive : Json → Prop} {entry : TrailEntry}
    (hcontext : motive entry.context.toJson) (htext : ∀ s, motive (.string s))
    (hnatural : ∀ n, motive (.natural n))
    (htexts : ∀ ids : List String, motive (.array (ids.map .string))) :
    ∀ e ∈ entry.fields, motive e.2 := by
  obtain ⟨time, context, event⟩ := entry
  cases event <;>
    simp [fields, Event.payload, hcontext, htext, hnatural, htexts]

theorem isPlain_toJson (entry : TrailEntry) : entry.toJson.isPlain = true := by
  rw [toJson_eq]
  exact Json.isPlain_object (forall_fields (motive := fun j => j.isPlain = true)
    entry.context.isPlain_toJson (fun _ => rfl) (fun _ => rfl) fun ids =>
      Json.isPlainItems_map (fun _ => rfl) ids)

theorem legible_toJson (entry : TrailEntry) : entry.toJson.legible = true := by
  rw [toJson_eq]
  exact Json.legible_object (forall_fields (motive := fun j => j.legible = true)
    entry.context.legible_toJson Json.legible_string (fun _ => rfl) fun ids =>
      Json.legibleItems_map Json.legible_string ids)

theorem isDistinct_toJson (entry : TrailEntry) :
    entry.toJson.isDistinct = entry.context.toJson.isDistinct := by
  rw [toJson_eq, Bool.eq_iff_iff, Json.isDistinct_object_iff]
  constructor
  · exact fun h => h.2 ("context", entry.context.toJson) (by simp [fields])
  · exact fun h => ⟨entry.nodup_names, forall_fields (motive := fun j => j.isDistinct = true)
      h (fun _ => rfl) (fun _ => rfl) fun ids => Json.isDistinctItems_map (fun _ => rfl) ids⟩

/-- The bytes of an entry without the end of the line. -/
theorem read?_compact (entry : TrailEntry) :
    Json.read? entry.toJson.compact = some entry.toJson :=
  (Json.spells_compact _ entry.isPlain_toJson).read?

theorem newline_not_mem_compact (entry : TrailEntry) : 0x0a ∉ entry.toJson.compact :=
  (Json.isPrintable_compact _ entry.isPlain_toJson).newline_not_mem

theorem isSome_get?_toJson_iff (entry : TrailEntry) (name : String) :
    (entry.toJson.get? name).isSome = true ↔ name ∈ entry.fields.map Prod.fst := by
  rw [get?_toJson, Context.mem_names_iff_lookup_isSome]

/-! ### Entries of a round -/

/-- An event of a round whose context has been given further fields. -/
def ofRound (time : Moment) (digest : String) (given : List (String × String)) (event : Event) :
    TrailEntry := ⟨time, ({ digest } : Context).withFields given, event⟩

variable {time : Moment} {digest : String} {given : List (String × String)} {event : Event}

theorem areOrdered_ofRound : Context.AreOrdered (ofRound time digest given event).context.fields :=
  Context.areOrdered_withFields (c := { digest }) List.Pairwise.nil given

theorem tellsEvent_ofRound : (ofRound time digest given event).toJson.TellsEvent given event := by
  refine ⟨⟨_, toJson_eq _⟩, legible_toJson _, ofJson?_toJson _, isSome_get?_toJson_iff _,
    ⟨_, (get?_context _).trans (congrArg some (Context.toJson_eq _))⟩, fun name hname => ?_⟩
  rw [get?_context, Option.bind_some, Context.get?_toJson areOrdered_ofRound, ofRound,
    Context.lookup_withFields, if_neg hname, List.lookup_nil, Option.or_none, Option.or_none]

theorem isDistinct_ofRound_iff :
    (ofRound time digest given event).toJson.isDistinct = true ↔
      "digest" ∉ given.map Prod.fst := by
  rw [isDistinct_toJson, Context.isDistinct_toJson_iff areOrdered_ofRound, ofRound,
    Context.mem_names_withFields_iff]

/-- Under the name of the digest stands what was given under that name last, if anything was. -/
theorem digest_ofRound :
    ((ofRound time digest given event).toJson.get? "context").bind ( Json.get? "digest") =
      some (.string ((given.reverse.lookup "digest").getD digest)) := by
  rw [get?_context, Option.bind_some, Context.get?_toJson areOrdered_ofRound, ofRound,
    Context.lookup_withFields, Context.digest_withFields, List.lookup_nil, Option.or_none]
  cases given.reverse.lookup "digest" <;> rfl

theorem tells_ofRound_iff :
    (ofRound time digest given event).toJson.Tells digest given event ↔
      "digest" ∉ given.map Prod.fst := by
  refine ⟨fun h => isDistinct_ofRound_iff.mp h.distinct, fun hnot => ?_⟩
  have hnone : given.reverse.lookup "digest" = none := by
    rw [← Option.not_isSome_iff_eq_none, ← Context.mem_names_iff_lookup_isSome,
      List.map_reverse, List.mem_reverse]
    exact hnot
  exact ⟨tellsEvent_ofRound, isDistinct_ofRound_iff.mpr hnot,
    by rw [digest_ofRound, hnone, Option.getD_none]⟩

/-- An event that is noted in a file takes one line there, which is one object. It tells the event,
and the fields of the context under their names. It identifies the round, unless a field has been
given the name of the digest: then two entries have the name, and the digest is the one that is
hidden. -/
theorem lines_identify_rounds_but_for_a_field_named_digest (site : Site) (opened : Opened)
    (digest : String) (given : List (String × String)) (event : Event) :
    ∃ line j,
      (Trail.emit ⟨[.file opened]⟩ site (({ digest } : Context).withFields given) event).disk =
        site.disk.append opened (line ++ [0x0a]) ∧
      0x0a ∉ line ∧ Json.read? line = some j ∧ j.TellsEvent given event ∧
      (j.Tells digest given event ↔ "digest" ∉ given.map Prod.fst) ∧
      ∀ value, given.reverse.lookup "digest" = some value → j.isDistinct = false ∧
        (j.get? "context").bind ( Json.get? "digest") = some (.string value) := by
  let entry := ofRound (site.clock site.ticks) digest given event
  refine ⟨entry.toJson.compact, entry.toJson, rfl, entry.newline_not_mem_compact,
    entry.read?_compact, tellsEvent_ofRound, tells_ofRound_iff, fun value hvalue => ⟨?_, ?_⟩⟩
  · have hgiven : "digest" ∈ given.map Prod.fst := by
      rw [← List.mem_reverse, ← List.map_reverse, Context.mem_names_iff_lookup_isSome, hvalue,
        Option.isSome_some]
    rw [Bool.eq_false_iff]
    exact fun hdistinct => isDistinct_ofRound_iff.mp hdistinct hgiven
  · rw [digest_ofRound, hvalue, Option.getD_some]

/-- The line of a round whose context has been given a field of the digest's name. -/
theorem field_hides_the_digest :
    (ofRound .epoch "0xab" [("digest", "0xcd")] .intentReceived).toJson.compact = Json.ascii
      ("\x7b\"timestamp\":\"1970-01-01T00:00:00Z\"," ++
        "\"context\":\x7b\"digest\":\"0xab\",\"digest\":\"0xcd\"\x7d," ++
        "\"event\":\"intentReceived\"\x7d") ∧
    ¬ (ofRound .epoch "0xab" [("digest", "0xcd")] .intentReceived).toJson.Tells "0xab"
      [("digest", "0xcd")] .intentReceived :=
  ⟨by decide +kernel, fun h => tells_ofRound_iff.mp h (by decide)⟩

end TrailEntry
end Countersign
