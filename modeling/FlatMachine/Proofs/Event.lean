import FlatMachine.Event
import FlatMachine.Proofs.Value.Merge

/-! # Spellings and readings of events

An event is spelt by an event, by its bare type, or by a mapping (**`Event.Spelling`**), and read
back as a mapping (**`Event.Reads`**).  The two are inverse, and extending the payload is a law
of its own: two extensions are one (**`Event.withPayload_withPayload`**).
**`Event.coerce_exact`** says all this of any value and any event. -/

namespace FlatMachine

/-- Names that can be added to a payload: pairwise different, and none of them is `type` or the
receiver's. -/
def Fields.Addable (extra : Fields) : Prop := ("type" :: "self" :: extra.names).Nodup

namespace Event

variable {v : Value} {e seen : Event} {payload fields extra more : Fields} {entries : Value.Entries}
  {f : Failure} {type : Value}

/-- The values that spell an event. -/
inductive Spelling : Value → Prop
  | event (e : Event) : Spelling e.toValue
  | type {s : String} (named : s ≠ "") : Spelling (.str s)
  | mapping {entries : Value.Entries} {s : String}
      (strings : ∀ p ∈ entries, ∃ name, p.1 = .str name)
      (type : Value.field "type" entries = some (.str s)) (named : s ≠ "") : Spelling (.map entries)

/-- What a spelling lists; a bare type lists itself as the type. -/
def listed (v : Value) : Value.Entries := v.entries?.getD [(.str "type", v)]

/-- Read as a mapping, the event has the type first and then the other keys of the entries in
their order, each once, and under every name what the entries have there. -/
structure Reads (e : Event) (entries : Value.Entries) : Prop where
  keys : e.toValue.items =
    .ok (.str "type" :: (entries.map Prod.fst).filter (!·.same (.str "type")))
  distinct : (Value.map e.entries).Tidy
  count : e.entries.length = entries.length ∧ e.entries.length = e.payload.length + 1
  item (name : String) : e.getItem (.str name) =
    (Value.field name entries).elim (.error (.missingKey (Value.str name).shown)) .ok
  get (name : String) (default : Value) :
    e.get (.str name) default = .ok ((Value.field name entries).getD default)
  contains (name : String) : e.contains (.str name) = .ok (Value.field name entries).isSome

/-! ### Making and coercing -/

theorem make_str_eq_ok_iff {s : String} :
    make (.str s) payload = .ok e ↔ s ≠ "" ∧ "type" ∉ payload.names ∧ e = ⟨s, payload⟩ := by
  unfold make
  simp only [Fields.get?_isSome_iff]
  split
  · simp_all
  · split <;> simp_all [eq_comm]

theorem make_eq_ok_iff : make type payload = .ok e ↔
    ∃ s, type = .str s ∧ s ≠ "" ∧ "type" ∉ payload.names ∧ e = ⟨s, payload⟩ := by
  cases type with
  | str s => simp [make_str_eq_ok_iff]
  | _ => simp [make]

theorem kind_of_make (h : make type payload = .error f) : f.kind = .invalidEvent := by
  unfold make at h
  split at h
  · split at h
    · cases h; rfl
    · split at h <;> cases h
      rfl
  · cases h; rfl

/-- A mapping spells the event of the type that it has and of its other entries. -/
theorem ofEntries_eq_ok_iff : ofEntries entries = .ok e ↔
    ∃ fields : Fields, entries = fields.toEntries ∧ fields.get? "type" = some (.str e.type) ∧
    e.type ≠ "" ∧
      e.payload = fields.erase "type" := by
  constructor
  · intro h
    unfold ofEntries at h
    split at h
    · cases h
    · rename_i type found
      split at h
      · cases h
      · rename_i fields strings
        obtain rfl := Fields.ofEntries?_eq_some_iff.mp strings
        obtain ⟨s, rfl, named, -, rfl⟩ := make_eq_ok_iff.mp h
        exact ⟨fields, rfl, Fields.field_toEntries _ fields ▸ found, named, rfl⟩
  · rintro ⟨fields, rfl, found, named, payload⟩
    unfold ofEntries
    rw [Fields.field_toEntries, found, Fields.ofEntries?_toEntries]
    refine make_str_eq_ok_iff.mpr ⟨named, ?_, payload ▸ rfl⟩
    simp [Fields.erase, Fields.names]

theorem kind_of_coerce (h : coerce v = .error f) : f.kind = .invalidEvent := by
  cases v with
  | event type payload => cases h
  | str s => exact kind_of_make (show make (.str s) [] = .error f from h)
  | map entries =>
    change ofEntries entries = _ at h
    unfold ofEntries at h
    split at h
    · cases h; rfl
    · split at h
      · cases h; rfl
      · exact kind_of_make h
  | _ => cases h; rfl

theorem coerce_ok_iff : (∃ e, coerce v = .ok e) ↔ Spelling v := by
  constructor
  · rintro ⟨e, h⟩
    cases v with
    | event type payload => exact .event ⟨type, payload⟩
    | str s => exact .type (make_str_eq_ok_iff.mp h).1
    | map entries =>
      obtain ⟨fields, rfl, found, named, -⟩ := ofEntries_eq_ok_iff.mp h
      exact .mapping (Fields.exists_toEntries_iff.mp ⟨fields, rfl⟩)
        (Fields.field_toEntries _ fields ▸ found) named
    | _ => cases h
  · rintro (⟨e⟩ | @⟨s, named⟩ | @⟨entries, s, strings, found, named⟩)
    · exact ⟨e, rfl⟩
    · exact ⟨⟨s, []⟩, make_str_eq_ok_iff.mpr ⟨named, List.not_mem_nil, rfl⟩⟩
    · obtain ⟨fields, rfl⟩ := Fields.exists_toEntries_iff.mpr strings
      exact ⟨⟨s, fields.erase "type"⟩, ofEntries_eq_ok_iff.mpr
        ⟨fields, rfl, Fields.field_toEntries _ fields ▸ found, named, rfl⟩⟩

/-! ### Reading -/

theorem field_entries (e : Event) (name : String) :
    Value.field name e.entries = if "type" =
      name then some (.str e.type) else e.payload.get? name :=
  Fields.field_toEntries name (("type", .str e.type) :: e.payload)

theorem find_str (e : Event) (name : String) :
    e.find (.str name) = .ok (Value.field name e.entries) := by
  unfold find
  rw [Value.checkKey_str]
  rfl

/-- An event reads as any fields that have its type as their type and its payload besides. -/
theorem reads_of_fields (fields : Fields) (found : fields.get? "type" = some (.str e.type))
    (payload : e.payload = fields.erase "type") (named : e.type ≠ "") (tidy : fields.names.Nodup) :
    e.toValue.Tidy ∧ e.Reads fields.toEntries := by
  have unique : ("type" :: e.payload.names).Nodup :=
    payload ▸ List.nodup_cons.mpr ⟨Fields.not_mem_names_erase, Fields.nodup_erase tidy⟩
  have same (name : String) : Value.field name e.entries = Value.field name fields.toEntries := by
    rw [field_entries, Fields.field_toEntries, payload, Fields.get?_erase]
    split <;> rename_i here
    · rw [← here, found]
    · rfl
  have others : (fields.toEntries.map Prod.fst).filter (!·.same (.str "type")) =
      e.payload.toEntries.map Prod.fst := by
    rw [payload, Fields.toEntries, Fields.toEntries, Fields.erase, List.map_map, List.map_map,
      List.filter_map]
    refine congrArg (List.map _) (List.filter_congr fun p _ => ?_)
    simp [Bool.beq_eq_decide_eq p.1]
  have length : fields.length = e.payload.length + 1 :=
    payload ▸ (Fields.length_erase tidy (Fields.get?_isSome_iff.mp (found ▸ rfl))).symm
  refine ⟨⟨named, unique⟩, ?_, Value.pairwise_toEntries_iff.mpr unique, ?_, fun name => ?_,
    fun name default => ?_, fun name => ?_⟩
  · rw [others]
    rfl
  · simp [entries, Fields.toEntries, length]
  · unfold getItem
    rw [find_str, same]
    cases Value.field name fields.toEntries <;> rfl
  · unfold get
    rw [find_str, same]
    rfl
  · unfold contains
    rw [find_str, same]
    rfl

/-- What is coerced reads as what its spelling lists. -/
theorem reads_of_coerce (tidy : v.Tidy) (h : coerce v = .ok e) :
    e.toValue.Tidy ∧ e.Reads (listed v) := by
  cases v with
  | event type payload =>
    cases h
    obtain ⟨named, unique⟩ := tidy
    refine reads_of_fields (("type", .str type) :: payload) rfl ?_ named unique
    exact (Fields.erase_cons_self.trans (Fields.erase_eq_self (List.nodup_cons.mp unique).1)).symm
  | str s =>
    obtain ⟨named, -, rfl⟩ := make_str_eq_ok_iff.mp h
    exact reads_of_fields [("type", .str s)] rfl rfl named (by simp [Fields.names])
  | map entries =>
    obtain ⟨fields, rfl, found, named, payload⟩ := ofEntries_eq_ok_iff.mp h
    exact reads_of_fields fields found payload named (Value.pairwise_toEntries_iff.mp tidy)
  | _ => cases h

/-- The mapping view of an event spells it. -/
theorem coerce_entries (tidy : e.toValue.Tidy) : coerce (.map e.entries) = .ok e := by
  obtain ⟨named, unique⟩ := tidy
  refine ofEntries_eq_ok_iff.mpr ⟨("type", .str e.type) :: e.payload, rfl, rfl, named, ?_⟩
  exact (Fields.erase_cons_self.trans (Fields.erase_eq_self (List.nodup_cons.mp unique).1)).symm

/-! ### Extending the payload -/

theorem addable_iff :
    extra.Addable ↔ "type" ∉ extra.names ∧ "self" ∉ extra.names ∧ extra.names.Nodup := by
  simp [Fields.Addable]

theorem addable_merge (h : extra.Addable) (h' : more.Addable) :
    (Fields.merge extra more).Addable := by
  obtain ⟨untyped, unself, unique⟩ := addable_iff.mp h
  obtain ⟨untyped', unself', -⟩ := addable_iff.mp h'
  exact addable_iff.mpr ⟨fun h => (Fields.mem_names_merge.mp h).elim untyped untyped',
    fun h => (Fields.mem_names_merge.mp h).elim unself unself', Fields.nodup_merge unique⟩

theorem withPayload_eq_ok (tidy : e.toValue.Tidy) (addable : extra.Addable) :
    e.withPayload extra = .ok ⟨e.type, Fields.merge e.payload extra⟩ ∧
      (toValue ⟨e.type, Fields.merge e.payload extra⟩).Tidy := by
  obtain ⟨named, unique⟩ := tidy
  obtain ⟨untyped, unique⟩ := List.nodup_cons.mp unique
  obtain ⟨untyped', unself, -⟩ := addable_iff.mp addable
  have typeless : "type" ∉ (Fields.merge e.payload extra).names := fun h =>
    (Fields.mem_names_merge.mp h).elim untyped untyped'
  constructor
  · unfold withPayload
    rw [Fields.get?_eq_none_iff.mpr unself]
    exact make_str_eq_ok_iff.mpr ⟨named, typeless, rfl⟩
  · exact ⟨named, List.nodup_cons.mpr ⟨typeless, Fields.nodup_merge unique⟩⟩

/-- Extending a payload twice is extending it once, by both. -/
theorem withPayload_withPayload (tidy : e.toValue.Tidy) (h : extra.Addable) (h' : more.Addable) :
    (e.withPayload extra >>= fun seen => seen.withPayload more) =
      e.withPayload (Fields.merge extra more) := by
  obtain ⟨first, between⟩ := withPayload_eq_ok tidy h
  rw [first]
  refine (withPayload_eq_ok between h').1.trans ?_
  dsimp only
  rw [(withPayload_eq_ok tidy (addable_merge h h')).1, Fields.merge_assoc (addable_iff.mp h).2.2]

/-- **The spellings of an event, and its readings.**  Exactly what spells an event is coerced to
one, and anything else is refused as no event.  What is coerced reads as what was spelt.  Any
event is what its mapping view spells and what it spells itself; and an extension of its payload
has the type of the event, under each name what the extension has there, or else the event, so
that one extension after another is a single one by both. -/
theorem coerce_exact (v : Value) (tidy : v.Tidy) :
    ((∃ e, coerce v = .ok e) ↔ Spelling v) ∧
    (∀ f, coerce v = .error f → f.kind = .invalidEvent) ∧
    (∀ e, coerce v = .ok e → e.toValue.Tidy ∧ e.Reads (listed v)) ∧
    ∀ e : Event, e.toValue.Tidy →
      (e.toValue.toEntries = .ok e.entries ∧ coerce (.map e.entries) = .ok e ∧
        coerce e.toValue = .ok e) ∧
      ∀ extra : Fields, extra.Addable →
        (∃ seen, e.withPayload extra = .ok seen ∧ seen.toValue.Tidy ∧ seen.type = e.type ∧
          ∀ name, seen.find (.str name) = .ok ((extra.get? name).or (Value.field name e.entries))) ∧
        ∀ more : Fields, more.Addable →
          (e.withPayload extra >>= fun seen => seen.withPayload more) =
            e.withPayload (Fields.merge extra more) := by
  refine ⟨coerce_ok_iff, fun _ => kind_of_coerce, fun _ => reads_of_coerce tidy, fun e proper =>
    ⟨⟨rfl, coerce_entries proper, rfl⟩, fun extra addable =>
      ⟨?_, fun more => withPayload_withPayload proper addable⟩⟩⟩
  obtain ⟨extended, proper'⟩ := withPayload_eq_ok proper addable
  refine ⟨_, extended, proper', rfl, fun name => ?_⟩
  obtain ⟨untyped, -, unique⟩ := addable_iff.mp addable
  rw [find_str, field_entries, field_entries, Fields.get?_merge name unique]
  split <;> rename_i here
  · rw [← here, Fields.get?_eq_none_iff.mpr untyped]
    rfl
  · rfl

end Event

/-! ### A letter -/

namespace Letter

/-- A mapping that spells an event, with payload names that a call takes for its own. -/
def spelling :
    Value := .map [(.str "self", .int 1), (.str "type", .str "MAIL"), (.str "payload", .bool true)]

def mail : Event := ⟨"MAIL", [("to", .str "Ann")]⟩

def stamped : Fields := [("stamp", .int 1), ("to", .str "Bob")]

def forwarded : Fields := [("to", .str "Cat")]

/-- The letter is coerced, read, spelt again, stamped and forwarded. -/
theorem coerced_and_extended :
    (spelling.Tidy ∧ mail.toValue.Tidy ∧ stamped.Addable ∧ forwarded.Addable) ∧
    (∃ e, Event.coerce spelling = .ok e ∧ e.Reads (Event.listed spelling)) ∧
    Event.coerce (.map mail.entries) = .ok mail ∧
    (mail.withPayload stamped >>= fun seen => seen.withPayload forwarded) =
      mail.withPayload [("stamp", .int 1), ("to", .str "Cat")] := by
  have tidy : spelling.Tidy := by simp [spelling, Value.Tidy]
  have proper : mail.toValue.Tidy := by simp [mail, Event.toValue, Value.Tidy, Fields.names]
  have first : stamped.Addable := by simp [stamped, Fields.Addable, Fields.names]
  have second : forwarded.Addable := by simp [forwarded, Fields.Addable, Fields.names]
  obtain ⟨accepted, -, reads, inverse⟩ := Event.coerce_exact spelling tidy
  obtain ⟨e, coerced⟩ := accepted.mpr
    (.mapping (s := "MAIL") (by simp) (by simp [Value.field, Value.lookup]) (by decide))
  obtain ⟨⟨-, spelt, -⟩, extended⟩ := inverse mail proper
  exact ⟨⟨tidy, proper, first, second⟩, ⟨e, coerced, (reads e coerced).2⟩, spelt,
    (extended stamped first).2 forwarded second⟩

end Letter
end FlatMachine
