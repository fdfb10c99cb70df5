import SocLab.Parsers.Rows

/-!
# SocLab.Parsers.Partition — where the event data goes

The data of a normalized event is divided: the consumed names become fields of the context, the others are
retained as they are.  The names that the builders read and the names that the normalizers consume are two
lists in the source; `wellFormed_of_mem` says that they agree.

`normalizers_partition` is the result for both normalizers.
-/

namespace SocLab

open Py Py.Validation Logic

namespace Row

/-- The columns read the consumed names, each once, for different fields. -/
structure WellFormed (row : Row) : Prop where
  names : (row.columns.map (·.name)).Perm row.consumed
  names_nodup : (row.columns.map (·.name)).Nodup
  keys_nodup : (row.columns.map (·.key)).Nodup

theorem wellFormed_of_mem {row : Row} (h : row ∈ supportedRows) : row.WellFormed := by
  simp only [supportedRows, WindowsSecurity.rows, Sysmon.rows, List.mem_append, List.mem_cons,
    List.not_mem_nil, or_false] at h
  rcases h with (rfl | rfl | rfl) | (rfl | rfl | rfl | rfl)
  all_goals exact ⟨by decide, by decide, by decide⟩

/-- The normalized event holds every value of the raw event once: a consumed one in the field of its column,
in the form of the column, the others as they were. -/
structure Partition (row : Row) (raw : RawWindowsEvent) (event : NormalizedEvent) : Prop where
  retained : event.sourceDataDict.val = raw.eventDataDict.val.filter (·.1 ∉ row.consumed)
  consumed : ∀ p ∈ raw.eventDataDict.val, p.1 ∈ row.consumed → strip p.2 ≠ "" → strip p.2 ≠ "-" →
    ∃! c, c ∈ row.columns ∧ c.name = p.1 ∧ ∃ v, c.kind.read (strip p.2) = some v ∧
      event.context.getattr c.key = some v
  keys : (row.columns.map (·.key)).Nodup
  others : ∀ key v, event.context.getattr key = some v → key ≠ "outcome" → v ≠ .none →
    ∃ c ∈ row.columns, c.key = key ∧
      ∃ text, (c.name, text) ∈ raw.eventDataDict.val ∧ strip text ≠ "" ∧ strip text ≠ "-"
  outcome : event.context.outcome? = row.outcome
  provider : event.provider = raw.provider
  eventId : event.eventId = raw.eventId
  channel : event.channel = raw.channel
  timestamp : event.timestamp = raw.timestamp
  computer : event.computer = raw.computer
  recordId : event.recordId.get none = raw.recordId.get none

end Row

section Attributes

variable {row : Row} {data : StrDict} {context : EventContext}

theorem EventContext.nodup_slots (context : EventContext) : (context.slots.map (·.name)).Nodup := by
  cases context with
  | authentication c => exact c.nodup_slots
  | process c => exact c.nodup_slots
  | network c => exact c.nodup_slots
  | file c => exact c.nodup_slots
  | dns c => exact c.nodup_slots

/-- Beside the fields that are read there is at most the outcome. -/
theorem EventContext.mem_slots {s : Slot} (h : s ∈ context.slots) :
    s ∈ context.readSlots ∨ s.name = "outcome" := by
  cases context with
  | authentication c =>
    rcases List.mem_cons.mp h with rfl | h
    · exact Or.inr rfl
    · exact Or.inl h
  | _ => exact Or.inl h

theorem EventContext.readSlots_subset {s : Slot} (h : s ∈ context.readSlots) : s ∈ context.slots := by
  cases context with
  | authentication c => exact List.mem_of_mem_tail h
  | _ => exact h

theorem EventContext.getattr_eq_some {name : String} {v : Value} :
    context.getattr name = some v ↔ ∃ s ∈ context.slots, s.name = name ∧ s.value = v := by
  have hnodup : ((Slot.items context.slots).map (·.1)).Nodup := by
    rw [Slot.items, List.map_map]
    exact context.nodup_slots
  constructor
  · intro h
    obtain ⟨s, hs, hp⟩ := List.mem_map.mp (mem_of_lookup h)
    exact ⟨s, hs, congrArg Prod.fst hp, congrArg Prod.snd hp⟩
  · rintro ⟨s, hs, rfl, rfl⟩
    have hmem : (s.name, s.value) ∈ Slot.items context.slots := List.mem_map_of_mem hs
    exact Value.lookup_of_mem hnodup hmem

/-- The field of a column has the value of the column. -/
theorem Row.Describes.getattr (h : row.Describes data context) {c : Column} (hc : c ∈ row.columns) :
    ∃ v, c.value data = some v ∧ context.getattr c.key = some v := by
  obtain ⟨s, hs, hfills⟩ := exists_of_forall₂ h.fields c hc
  exact ⟨s.value, hfills.value, EventContext.getattr_eq_some.mpr
    ⟨s, EventContext.readSlots_subset hs, hfills.name, rfl⟩⟩

/-- Every field that is read has a column. -/
theorem Row.Describes.exists_column (h : row.Describes data context) {key : String} {v : Value}
    (hv : context.getattr key = some v) (hkey : key ≠ "outcome") :
    ∃ c ∈ row.columns, c.key = key ∧ c.value data = some v := by
  obtain ⟨s, hs, rfl, rfl⟩ := EventContext.getattr_eq_some.mp hv
  have hread := (EventContext.mem_slots hs).resolve_right hkey
  obtain ⟨c, hc, hfills⟩ := exists_of_forall₂ h.fields.flip s hread
  exact ⟨c, hc, hfills.name.symm, hfills.value⟩

end Attributes

/-! ### The events of the two normalizers -/

section Partition

variable {row : Row} {n : EventData.Normalizer} {raw raw' : RawWindowsEvent}

theorem optionalText_eq_some {value : Option String} {text : String} :
    EventData.optionalText value = some text ↔
      ∃ s, value = some s ∧ strip s ≠ "" ∧ strip s ≠ "-" ∧ strip s = text := by
  unfold EventData.optionalText
  cases value with
  | none => simp
  | some s =>
    dsimp only
    split_ifs with hblank
    · refine iff_of_false (by simp) ?_
      rintro ⟨_, hs, hne, hne', -⟩
      cases hs
      exact hblank.elim hne hne'
    · obtain ⟨hne, hne'⟩ := not_or.mp hblank
      simp [hne, hne']

theorem Row.Follows.partition (h : row.Follows n) (hwell : row.WellFormed) (hraw : row.Matches raw)
    {event : NormalizedEvent} (hevent : n.normalize raw = .ok event) : row.Partition raw event := by
  obtain ⟨context, hdescribes, rfl⟩ := (h.normalize_eq_ok hraw).mp hevent
  refine ⟨rfl, ?_, hwell.keys_nodup, ?_, hdescribes.outcome, rfl, rfl, rfl, rfl, rfl, rfl⟩
  · rintro ⟨name, text⟩ hp hname hne hne'
    obtain ⟨c, hc, rfl⟩ := List.mem_map.mp (hwell.names.mem_iff.mpr hname)
    have htext : EventData.optionalText (raw.eventDataDict.get c.name) = some (strip text) :=
      optionalText_eq_some.mpr ⟨text, StrDict.get_eq_some.mpr hp, hne, hne', rfl⟩
    obtain ⟨v, hv, hattr⟩ := hdescribes.getattr hc
    have hread : c.kind.read (strip text) = some v := by
      rw [Column.value, htext] at hv
      exact hv
    refine ⟨c, ⟨hc, rfl, v, hread, hattr⟩, ?_⟩
    rintro c' ⟨hc', hname', -⟩
    exact List.inj_on_of_nodup_map hwell.names_nodup hc' hc hname'
  · intro key v hattr hkey hv
    obtain ⟨c, hc, hckey, hvalue⟩ := hdescribes.exists_column hattr hkey
    refine ⟨c, hc, hckey, ?_⟩
    rcases Column.value_cases hvalue with ⟨-, rfl⟩ | ⟨_, htext, -⟩
    · exact absurd rfl hv
    · obtain ⟨text, hget, hne, hne', -⟩ := optionalText_eq_some.mp htext
      exact ⟨text, StrDict.get_eq_some.mp hget, hne, hne'⟩

/-- The consumed values agree up to surrounding white space, and what stands for an absent value. -/
def Row.Agree (row : Row) (raw raw' : RawWindowsEvent) : Prop :=
  ∀ name ∈ row.consumed, EventData.optionalText (raw.eventDataDict.get name) =
    EventData.optionalText (raw'.eventDataDict.get name)

theorem Row.Agree.value (h : row.Agree raw raw') (hwell : row.WellFormed) {c : Column} (hc : c ∈ row.columns) :
    c.value raw.eventDataDict = c.value raw'.eventDataDict := by
  rw [Column.value, Column.value, h c.name (hwell.names.mem_iff.mp (List.mem_map_of_mem hc))]

theorem Row.Describes.of_agree {context : EventContext} (h : row.Describes raw.eventDataDict context)
    (hagree : row.Agree raw raw') (hwell : row.WellFormed) : row.Describes raw'.eventDataDict context :=
  ⟨h.category, h.outcome, forall₂_imp_of_mem h.fields fun _ hc _ hs =>
    ⟨hs.name, hs.isSet, (hagree.value hwell hc).symm.trans hs.value⟩⟩

end Partition

/-- What a normalizer does with the events of some rows. -/
structure Partitions (normalize : EventNormalizer) (rows : List Row) : Prop where
  accepted : ∀ raw event, normalize raw = .ok event →
    ∃ row ∈ rows, row.Matches raw ∧ row.Partition raw event
  agree : ∀ row ∈ rows, ∀ raw raw', row.Matches raw → row.Matches raw' → row.Agree raw raw' →
    (∃ event event', normalize raw = .ok event ∧ normalize raw' = .ok event' ∧
      event.context = event'.context) ∨
    ∃ message message', normalize raw = .error (.invalidNormalizedEvent message) ∧
      normalize raw' = .error (.invalidNormalizedEvent message')

theorem partitions_of_follows {n : EventData.Normalizer} {rows : List Row}
    (hfollows : ∀ row ∈ rows, row.Follows n) (hwell : ∀ row ∈ rows, row.WellFormed)
    (hexists : ∀ raw, n.Supported raw → ∃ row ∈ rows, row.Matches raw) : Partitions n.normalize rows where
  accepted raw event hevent := by
    obtain ⟨row, hrow, hraw⟩ := hexists raw (n.normalize_ok hevent).1
    exact ⟨row, hrow, hraw, (hfollows row hrow).partition (hwell row hrow) hraw hevent⟩
  agree row hrow raw raw' hraw hraw' hagree := by
    have hf := hfollows row hrow
    have hw := hwell row hrow
    by_cases hreadable : row.Readable raw.eventDataDict
    · obtain ⟨event, hevent⟩ := (hf.isOk_iff hraw).mpr hreadable
      obtain ⟨context, hdescribes, rfl⟩ := (hf.normalize_eq_ok hraw).mp hevent
      exact Or.inl ⟨_, _, hevent,
        (hf.normalize_eq_ok hraw').mpr ⟨context, hdescribes.of_agree hagree hw, rfl⟩, rfl⟩
    · have hreadable' : ¬ row.Readable raw'.eventDataDict := by
        refine fun h => hreadable fun c hc => ?_
        rw [hagree.value hw hc]
        exact h c hc
      obtain ⟨message, hmessage⟩ := hf.invalid_of_not_readable hraw hreadable
      obtain ⟨message', hmessage'⟩ := hf.invalid_of_not_readable hraw' hreadable'
      exact Or.inr ⟨message, message', hmessage, hmessage'⟩

/-- **Normalization divides the event data**, and the context depends on the consumed values only. -/
theorem normalizers_partition :
    Partitions WindowsSecurity.normalizeWindowsSecurityEvent WindowsSecurity.rows ∧
      Partitions Sysmon.normalizeSysmonEvent Sysmon.rows :=
  ⟨partitions_of_follows (fun _ => WindowsSecurity.follows)
      (fun _ h => Row.wellFormed_of_mem (List.mem_append_left _ h)) fun _ => WindowsSecurity.exists_row,
    partitions_of_follows (fun _ => Sysmon.follows)
      (fun _ h => Row.wellFormed_of_mem (List.mem_append_right _ h)) fun _ => Sysmon.exists_row⟩

end SocLab
