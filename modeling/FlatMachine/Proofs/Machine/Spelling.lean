import FlatMachine.Machine.Check
import FlatMachine.Proofs.Value.Same
import Mathlib.Logic.Relation

/-! # Spellings of a configuration

One machine can be written in many ways.  What a value may be written as depends on the
**`Config.Place`** where it stands: a string is a candidate where candidates are read, and one
action where a sequence is read.  A place that is read by names has **`Config.Place.fields`**,
each with its spellings, the place of what is written there, and whether null stands for what is
left out.

* **`Config.Place.Ready`**: the ready-made objects that may stand at a place, with members of the
  proper sorts.
* **`Config.Place.Respells`**: one change of spelling, at the place itself or anywhere below it.
* **`Config.Place.ReadsAs`**: two values are read alike at a place, what is refused included.

Each change of spelling is read alike (**`Config.Place.Respells.readsAs`**): for what is read by
names this needs only that it is read alike under each name.  So configurations that any number
of changes connects, in either direction, make the same machine or are refused with the same
message (**`Machine.create_respelt`**). -/

namespace FlatMachine

open Value

/-- Where a value of a configuration stands. -/
inductive Config.Place where
  | machine
  /-- the states by name -/
  | states
  | state
  /-- the candidates by event type -/
  | on
  /-- one candidate, or a list or tuple of them -/
  | candidates
  | candidate
  | invocation
  /-- actions or tags -/
  | sequence
  deriving DecidableEq

namespace Config.Place

/-- What is written under a name: the spellings of the name, the place of the value if it is read
further, and whether null says the same as nothing. -/
structure Field where
  names : List String
  under : Option Place
  omissible : Bool
  deriving DecidableEq

/-- What is read at a place by name. -/
def fields : Place → List Field
  | machine => [⟨["initial"], none, false⟩, ⟨["states"], some states, false⟩, ⟨["id"], none, false⟩,
      ⟨["context"], none, true⟩]
  | state => [⟨["on"], some on, true⟩, ⟨["entry"], some sequence, true⟩,
    ⟨["exit"], some sequence, true⟩,
      ⟨["invoke"], some invocation, true⟩, ⟨["tags"], some sequence, true⟩]
  | invocation => [⟨["src"], none, false⟩, ⟨["on_done", "onDone"], some candidates, false⟩,
      ⟨["on_error", "onError"], some candidates, false⟩, ⟨["auto_start", "autoStart"], none, false⟩]
  | candidate =>
    [⟨["target"], none, true⟩, ⟨["actions"], some sequence, true⟩, ⟨["guard", "cond"], none, false⟩]
  | _ => []

/-- The place of each value of a mapping that is read entry by entry. -/
def entries? : Place → Option Place
  | states => some state
  | on => some candidates
  | _ => none

/-- No name is written in two fields of a place. -/
theorem fields_apart :
    ∀ p : Place, ∀ f ∈ p.fields, ∀ g ∈ p.fields, ∀ name ∈ f.names, name ∈ g.names → f = g := by
  intro p
  cases p <;> decide

/-- Where candidates are read, a value that stands for one. -/
def isSingle : Value → Bool
  | null | list _ | tuple _ => false
  | _ => true

/-- A sequence with nothing but the one item. -/
def Holds (v w : Value) : Prop := w = list [v] ∨ w = tuple [v]

/-- The ready-made objects that may stand at a place.  Their members are of the proper sorts:
candidates are transitions, an invocation starts or does not, and tags are as a node keeps them,
none twice. -/
inductive Ready : Place → Value → Prop where
  | transition (t : Transition) : Ready candidate t.toValue
  | invocation (i : Invocation) (done failed : List Transition) (b : Bool)
      (onDone : i.onDone = done.map Transition.toValue)
      (onError : i.onError = failed.map Transition.toValue) (autoStart : i.autoStart = bool b) :
      Ready invocation i.toValue
  | node (n : Node)
      (on : ∀ e ∈ n.on, ∃ ts : List Transition, e.2 = tuple (ts.map Transition.toValue))
      (invoke : n.invoke = null ∨ ∃ i : Invocation, n.invoke = i.toValue)
      (tags : distinct n.tags = .ok n.tags) :
      Ready state n.toValue

/-- One change of spelling.  A mapping is whatever has entries. -/
inductive Respells : Place → Value → Value → Prop where
  /-- a string for its target alone -/
  | target {s : String} {m : Value} (written : m.entries? = some [(str "target", str s)]) :
      Respells candidate (str s) m
  /-- one candidate for the list of it -/
  | single {v w : Value} (one : isSingle v = true) (held : Holds v w) : Respells candidates v w
  /-- one action or tag for the list of it -/
  | lone {v w : Value} (one : v.isCallable = true ∨ ∃ s, v = str s) (held : Holds v w) :
      Respells sequence v w
  /-- null for a state with nothing in it -/
  | empty : Respells state null (map [])
  /-- another spelling of a name, where none of its spellings is there besides -/
  | renamed {p : Place} {f : Field} {old new : String} {m m' v : Value} (before after : Entries)
      (field : f ∈ p.fields)
      (this : old ∈ f.names) (that : new ∈ f.names)
      (only : ∀ name ∈ f.names, Value.field name (before ++ after) = none)
      (written : m.entries? = some (before ++ (str old, v) :: after))
      (rewritten : m'.entries? = some (before ++ (str new, v) :: after)) : Respells p m m'
  /-- nothing for null, wherever among the entries -/
  | omitted {p : Place} {f : Field} {name : String} {m m' : Value} (before after : Entries)
      (field : f ∈ p.fields)
      (named : f.names = [name]) (may : f.omissible = true)
      (absent : Value.field name (before ++ after) = none)
      (written : m.entries? = some (before ++ after))
      (rewritten : m'.entries? = some (before ++ (str name, null) :: after)) : Respells p m m'
  /-- a ready-made object for the mapping of its parts -/
  | ready {p : Place} {v m : Value} {parts : Fields} (made : Ready p v)
      (has : v.parts? = some parts)
      (written : m.entries? = some parts.toEntries) : Respells p v m
  /-- a change under a name -/
  | under {p q : Place} {f : Field} {name : String} {m m' v v' : Value} (before after : Entries)
      (field : f ∈ p.fields)
      (named : name ∈ f.names) (at' : f.under = some q) (change : Respells q v v')
      (written : m.entries? = some (before ++ (str name, v) :: after))
      (rewritten : m'.entries? = some (before ++ (str name, v') :: after)) : Respells p m m'
  /-- a change of one entry -/
  | entry {p q : Place} {m m' k v v' : Value} (before after : Entries) (each : p.entries? = some q)
      (change : Respells q v v') (written : m.entries? = some (before ++ (k, v) :: after))
      (rewritten : m'.entries? = some (before ++ (k, v') :: after)) : Respells p m m'
  /-- a change of one candidate in a list -/
  | listed {v v' : Value} (before after : List Value) (change : Respells candidate v v') :
      Respells candidates (list (before ++ v :: after)) (list (before ++ v' :: after))
  /-- a change of one candidate in a tuple -/
  | tupled {v v' : Value} (before after : List Value) (change : Respells candidate v v') :
      Respells candidates (tuple (before ++ v :: after)) (tuple (before ++ v' :: after))

/-- The two values are read alike at the place, or refused alike. -/
def ReadsAs : Place → Value → Value → Prop
  | machine, v, w => Machine.ofValue v = Machine.ofValue w
  | states, v, w =>
    v.entries?.map (·.mapM Config.stateEntry) = w.entries?.map (·.mapM Config.stateEntry)
  | state, v, w => ∀ name, Config.node name v = Config.node name w
  | on, v, w => ∀ name, (Config.onEntries name v >>= (·.mapM (Config.eventEntry name))) =
      (Config.onEntries name w >>= (·.mapM (Config.eventEntry name)))
  | candidates, v, w => ∀ place, Config.candidates place v = Config.candidates place w
  | candidate, v, w => ∀ place, Config.candidate place v = Config.candidate place w
  | invocation, v, w => ∀ name, Config.invocation? name v = Config.invocation? name w
  | sequence, v, w => Config.sequence v = Config.sequence w

theorem ReadsAs.refl (p : Place) (v : Value) : p.ReadsAs v v := by
  cases p <;> first | rfl | exact fun _ => rfl

end Config.Place

/-! ### What is found under the spellings of a name -/

namespace Config

/-- The value at the first name that is present, if any is. -/
def present (names : List String) (entries : Entries) : Option Value :=
  names.findSome? (field · entries)

theorem firstKey_eq (entries : Entries) (default : Value) (names : List String) :
    firstKey entries default names = (present names entries).getD default := by
  induction names with
  | nil => rfl
  | cons name rest ih =>
    unfold firstKey present
    rw [ih, List.findSome?_cons]
    cases field name entries <;> rfl

theorem field_eq (name : String) (entries : Entries) :
    field name entries = present [name] entries := by
  unfold present
  rw [List.findSome?_cons]
  cases field name entries <;> rfl

theorem field_append (name : String) (before after : Entries) :
    field name (before ++ after) = (field name before).or (field name after) := by
  unfold field
  induction before with
  | nil => rfl
  | cons e rest ih =>
    rw [List.cons_append, lookup, lookup]
    split
    · rfl
    · exact ih

theorem field_cons_self (name : String) (v : Value) (rest : Entries) :
    field name ((str name, v) :: rest) = some v := by
  simp [field, lookup]

theorem field_cons_ne {name : String} {k : Value} (h : k ≠ str name) (v : Value) (rest : Entries) :
    field name ((k, v) :: rest) = field name rest := by
  unfold field
  rw [lookup, if_neg fun same => h (eq_of_same_str same)]

variable {name other : String} {v v' : Value} {before after : Entries}

/-- An entry under another name makes no difference. -/
theorem field_beside (h : name ≠ other) :
    field other (before ++ (str name, v) :: after) = field other (before ++ after) := by
  rw [field_append, field_append, field_cons_ne (by simpa using h)]

theorem field_among (absent : field name (before ++ after) = none) :
    field name (before ++ (str name, v) :: after) = some v := by
  rw [field_append, Option.or_eq_none_iff] at absent
  rw [field_append, field_cons_self, absent.1, Option.none_or]

/-- With another value under one name, each name has what it had, unless it is that name with the
value. -/
theorem field_changed (name other : String) (v v' : Value) (before after : Entries) :
    field other (before ++ (str name, v) :: after) =
      field other (before ++ (str name, v') :: after) ∨
      other = name ∧ field other (before ++ (str name, v) :: after) = some v ∧
        field other (before ++ (str name, v') :: after) = some v' := by
  by_cases h : name = other
  · subst h
    simp only [field_append, field_cons_self]
    cases field name before with
    | none => exact .inr ⟨trivial, rfl, rfl⟩
    | some w => exact .inl rfl
  · exact .inl (by rw [field_beside h, field_beside h])

variable {names : List String}

theorem present_congr {entries entries' : Entries}
    (h : ∀ n ∈ names, field n entries = field n entries') :
    present names entries = present names entries' := by
  unfold present
  induction names with
  | nil => rfl
  | cons n rest ih =>
    rw [List.findSome?_cons, List.findSome?_cons, h n List.mem_cons_self,
      ih fun m hm => h m (List.mem_cons_of_mem _ hm)]

theorem present_beside (h : name ∉ names) :
    present names (before ++ (str name, v) :: after) = present names (before ++ after) :=
  present_congr fun _ hn => field_beside fun same => h (same ▸ hn)

/-- The only spelling that is there counts. -/
theorem present_only (h : name ∈ names) (only : ∀ n ∈ names, field n (before ++ after) = none) :
    present names (before ++ (str name, v) :: after) = some v := by
  unfold present
  induction names with
  | nil => cases h
  | cons n rest ih =>
    rw [List.findSome?_cons]
    by_cases here : name = n
    · rw [← here, field_among (here ▸ only n List.mem_cons_self)]
    · rw [field_beside here, only n List.mem_cons_self]
      exact ih ((List.mem_cons.mp h).resolve_left here) fun m hm =>
        only m (List.mem_cons_of_mem _ hm)

theorem present_changed (names : List String) (name : String) (v v' : Value)
    (before after : Entries) :
    present names (before ++ (str name, v) :: after) =
      present names (before ++ (str name, v') :: after) ∨
      name ∈ names ∧ present names (before ++ (str name, v) :: after) = some v ∧
        present names (before ++ (str name, v') :: after) = some v' := by
  unfold present
  induction names with
  | nil => exact .inl rfl
  | cons n rest ih =>
    simp only [List.findSome?_cons]
    rcases field_changed name n v v' before after with same | ⟨rfl, first, second⟩
    · rw [same]
      cases field n (before ++ (str name, v') :: after) with
      | some w => exact .inl rfl
      | none => exact ih.imp id fun ⟨there, both⟩ => ⟨List.mem_cons_of_mem _ there, both⟩
    · rw [first, second]
      exact .inr ⟨List.mem_cons_self, rfl, rfl⟩

end Config

/-! ### What is read by names -/

namespace Config.Place

open Config

/-- What is found under a name is read alike in two mappings. -/
def Field.Agrees (f : Field) (x y : Option Value) : Prop :=
  match f.under with
  | some q => q.ReadsAs (x.getD null) (y.getD null)
  | none => if f.omissible then x.getD null = y.getD null else x = y

theorem Field.Agrees.refl (f : Field) (x : Option Value) : f.Agrees x x := by
  unfold Field.Agrees
  split
  · exact .refl _ _
  · split <;> rfl

/-- The two mappings are read alike under each name of the place. -/
def Agree (p : Place) (entries entries' : Entries) : Prop :=
  ∀ f ∈ p.fields, f.Agrees (present f.names entries) (present f.names entries')

theorem entries_kinds {m : Value} {entries : Entries} (h : m.entries? = some entries) :
    m = map entries ∨ ∃ type payload, m = event type payload := by
  cases m <;> cases h
  · exact .inl rfl
  · exact .inr ⟨_, _, rfl⟩

variable {m m' : Value} {entries entries' : Entries}

theorem candidate_eq (h : m.entries? = some entries) (place : String) :
    Config.candidate place m = do
      let actions ← Config.sequence ((present ["actions"] entries).getD null)
      return .transition ((present ["target"] entries).getD null) actions
        ((present ["guard", "cond"] entries).getD null) := by
  rcases entries_kinds h with rfl | ⟨type, payload, rfl⟩ <;> cases h <;>
    simp only [Config.candidate, Value.entries?, fieldD, firstKey_eq, field_eq]

theorem invocation_eq (h : m.entries? = some entries) (name : Value) :
    Config.invocation? name m = match present ["src"] entries with
      | none => .error (.invokeShape name.shown)
      | some src => do
        let onDone ← Config.candidates (name.text ++ ".invoke.on_done")
          ((present ["on_done", "onDone"] entries).getD null)
        let onError ← Config.candidates (name.text ++ ".invoke.on_error")
          ((present ["on_error", "onError"] entries).getD null)
        return .invocation src onDone onError
          (.bool ((present ["auto_start", "autoStart"] entries).getD (.bool true)).truth) := by
  rcases entries_kinds h with rfl | ⟨type, payload, rfl⟩ <;> cases h <;>
  · cases src : present ["src"] _ <;>
      simp only [Config.invocation?, Config.invocation, Value.entries?, firstKey_eq, field_eq, src]

theorem node_eq (h : m.entries? = some entries) (name : Value) :
    Config.node name m = do
      let on ← Config.onEntries name ((present ["on"] entries).getD null) >>=
        (·.mapM (Config.eventEntry name))
      let entry ← Config.sequence ((present ["entry"] entries).getD null)
      let exit ← Config.sequence ((present ["exit"] entries).getD null)
      let invoke ← Config.invocation? name ((present ["invoke"] entries).getD null)
      let tags ← distinct (← Config.sequence ((present ["tags"] entries).getD null))
      return .node on entry exit invoke tags := by
  rcases entries_kinds h with rfl | ⟨type, payload, rfl⟩ <;> cases h <;>
    simp only [Config.node, Config.nodeOfEntries, Value.entries?, fieldD, field_eq, bind_assoc]

theorem machine_eq (h : m.entries? = some entries) :
    Machine.ofValue m = match present ["initial"] entries with
      | none => .error .noInitial
      | some initial =>
        match ((present ["states"] entries).getD null).entries?.map (·.mapM Config.stateEntry) with
        | none => .error .noStates
        | some read => do
          return {
            id := (present ["id"] entries).getD (.str "machine")
            initial
            context := (present ["context"] entries).getD null
            states := ← read } := by
  rcases entries_kinds h with rfl | ⟨type, payload, rfl⟩ <;> cases h <;>
  · simp only [Machine.ofValue, Machine.ofValue?, Value.entries?, Machine.ofConfig, fieldD,
      field_eq]
    cases present ["initial"] _ with
    | none => rfl
    | some initial =>
      generalize (present ["states"] _).getD null = written
      cases written <;> rfl

/-- Mappings that are read alike under each name are read alike. -/
theorem Agree.readsAs {p : Place} (named : p.fields ≠ []) (h : p.Agree entries entries')
    (hm : m.entries? = some entries) (hm' : m'.entries? = some entries') : p.ReadsAs m m' := by
  cases p with
  | candidate =>
    intro place
    have target := h ⟨["target"], none, true⟩ (by decide)
    have actions := h ⟨["actions"], some sequence, true⟩ (by decide)
    have guard := h ⟨["guard", "cond"], none, false⟩ (by decide)
    simp only [Field.Agrees, ReadsAs, if_true, Bool.false_eq_true, if_false] at target actions guard
    rw [candidate_eq hm, candidate_eq hm', target, actions, guard]
  | invocation =>
    intro name
    have src := h ⟨["src"], none, false⟩ (by decide)
    have onDone := h ⟨["on_done", "onDone"], some candidates, false⟩ (by decide)
    have onError := h ⟨["on_error", "onError"], some candidates, false⟩ (by decide)
    have autoStart := h ⟨["auto_start", "autoStart"], none, false⟩ (by decide)
    simp only [Field.Agrees, ReadsAs, Bool.false_eq_true, if_false] at src onDone onError autoStart
    rw [invocation_eq hm, invocation_eq hm', src, autoStart]
    simp only [onDone, onError]
  | state =>
    intro name
    have on := h ⟨["on"], some on, true⟩ (by decide)
    have entry := h ⟨["entry"], some sequence, true⟩ (by decide)
    have exit := h ⟨["exit"], some sequence, true⟩ (by decide)
    have invoke := h ⟨["invoke"], some invocation, true⟩ (by decide)
    have tags := h ⟨["tags"], some sequence, true⟩ (by decide)
    simp only [Field.Agrees, ReadsAs] at on entry exit invoke tags
    rw [node_eq hm, node_eq hm', on, entry, exit, invoke, tags]
  | machine =>
    have initial := h ⟨["initial"], none, false⟩ (by decide)
    have states := h ⟨["states"], some states, false⟩ (by decide)
    have id := h ⟨["id"], none, false⟩ (by decide)
    have context := h ⟨["context"], none, true⟩ (by decide)
    simp only [Field.Agrees, ReadsAs, if_true, Bool.false_eq_true, if_false]
      at initial states id context
    change Machine.ofValue m = Machine.ofValue m'
    rw [machine_eq hm, machine_eq hm', initial, states, id, context]
  | states => exact absurd rfl named
  | on => exact absurd rfl named
  | candidates => exact absurd rfl named
  | sequence => exact absurd rfl named

/-! ### Each change of spelling -/

private theorem mapM_changed {α β : Type} {f : α → Except Failure β} {x x' : α} (h : f x = f x')
    (before after : List α) :
    (before ++ x :: after).mapM f = (before ++ x' :: after).mapM f := by
  rw [List.mapM_append, List.mapM_append, List.mapM_cons, List.mapM_cons, h]

private theorem mapM_transitions (place : String) (ts : List Transition) :
    (ts.map Transition.toValue).mapM (Config.candidate place) =
      .ok (ts.map Transition.toValue) := by
  induction ts with
  | nil => rfl
  | cons t rest ih =>
    rw [List.map_cons, List.mapM_cons, ih]
    rfl

private theorem mapM_eventEntries (name : Value) {on : Entries}
    (h : ∀ e ∈ on, ∃ ts : List Transition, e.2 = tuple (ts.map Transition.toValue)) :
    on.mapM (Config.eventEntry name) = .ok on := by
  induction on with
  | nil => rfl
  | cons e rest ih =>
    obtain ⟨type, found⟩ := e
    obtain ⟨ts, rfl⟩ := h _ List.mem_cons_self
    rw [List.mapM_cons, ih fun e he => h e (List.mem_cons_of_mem _ he)]
    simp only [Config.eventEntry, Config.candidates, mapM_transitions]
    rfl

/-- The mapping of a ready-made object's parts is read as the object. -/
theorem Ready.readsAs {p : Place} {v : Value} {parts : Fields} (made : Ready p v)
    (has : v.parts? = some parts) (written : m.entries? = some parts.toEntries) :
    p.ReadsAs v m := by
  cases made with
  | transition t =>
    cases has
    intro place
    rw [candidate_eq written]
    rfl
  | invocation i done failed b onDone onError autoStart =>
    obtain ⟨src, _, _, _⟩ := i
    subst onDone onError autoStart
    cases has
    intro name
    rw [invocation_eq written]
    change _ = (do
      let onDone ← (done.map Transition.toValue).mapM
        (Config.candidate (name.text ++ ".invoke.on_done"))
      let onError ← (failed.map Transition.toValue).mapM
        (Config.candidate (name.text ++ ".invoke.on_error"))
      return Value.invocation src onDone onError (.bool b))
    rw [mapM_transitions, mapM_transitions]
    rfl
  | node n on invoke tags =>
    obtain ⟨events, entry, exit, call, marks⟩ := n
    cases has
    intro name
    have offered : (Config.onEntries name (map events) >>= (·.mapM (Config.eventEntry name))) =
        .ok events := by
      cases events with
      | nil => rfl
      | cons e rest => exact mapM_eventEntries name on
    have called : Config.invocation? name call = .ok call := by
      rcases invoke with rfl | ⟨i, rfl⟩ <;> rfl
    rw [node_eq written]
    change _ = (do
      let on ← Config.onEntries name (map events) >>= (·.mapM (Config.eventEntry name))
      let invoke ← Config.invocation? name call
      let tags ← distinct marks
      return Value.node on entry exit invoke tags)
    rw [offered, called, tags]
    rfl

/-- A name in a field of the place is in no other field. -/
theorem not_named {p : Place} {f g : Field} {name : String} (hf : f ∈ p.fields) (hg : g ∈ p.fields)
    (named : name ∈ f.names) (other : f ≠ g) : name ∉ g.names :=
  fun h => other (p.fields_apart f hf g hg name named h)

section

variable {p : Place} {f : Field} {name : String} {before after : Entries}

theorem agree_renamed {old new : String} {v : Value} (field : f ∈ p.fields) (this : old ∈ f.names)
    (that : new ∈ f.names) (only : ∀ n ∈ f.names, Value.field n (before ++ after) = none) :
    p.Agree (before ++ (str old, v) :: after) (before ++ (str new, v) :: after) := by
  intro g hg
  by_cases same : f = g
  · subst same
    rw [present_only this only, present_only that only]
    exact .refl _ _
  · rw [present_beside (not_named field hg this same),
      present_beside (not_named field hg that same)]
    exact .refl _ _

theorem agree_omitted (field : f ∈ p.fields) (named : f.names = [name]) (may : f.omissible = true)
    (absent : Value.field name (before ++ after) = none) :
    p.Agree (before ++ after) (before ++ (str name, null) :: after) := by
  have this : name ∈ f.names := by rw [named]; exact List.mem_singleton_self _
  intro g hg
  by_cases same : f = g
  · subst same
    have only : ∀ n ∈ f.names, Value.field n (before ++ after) = none := by
      rw [named]
      simpa using absent
    rw [present_only this only, named, ← field_eq, absent]
    unfold Field.Agrees
    split
    · exact .refl _ _
    · rw [if_pos may]; rfl
  · rw [present_beside (not_named field hg this same)]
    exact .refl _ _

theorem agree_under {q : Place} {v v' : Value} (field : f ∈ p.fields) (named : name ∈ f.names)
    (at' : f.under = some q) (alike : q.ReadsAs v v') :
    p.Agree (before ++ (str name, v) :: after) (before ++ (str name, v') :: after) := by
  intro g hg
  rcases present_changed g.names name v v' before after with same | ⟨there, first, second⟩
  · rw [same]
    exact .refl _ _
  · cases p.fields_apart f field g hg name named there
    rw [first, second]
    unfold Field.Agrees
    rw [at']
    exact alike

end

/-- A mapping that is read entry by entry, with one entry changed. -/
theorem readsAs_entry {p q : Place} {k v v' : Value} {before after : Entries}
    (each : p.entries? = some q) (alike : q.ReadsAs v v')
    (written : m.entries? = some (before ++ (k, v) :: after))
    (rewritten : m'.entries? = some (before ++ (k, v') :: after)) : p.ReadsAs m m' := by
  cases p <;> cases each
  · change m.entries?.map _ = m'.entries?.map _
    rw [written, rewritten]
    have stated : Config.stateEntry (k, v) = Config.stateEntry (k, v') := by
      simp only [Config.stateEntry, alike k]
    exact congrArg some (mapM_changed stated _ _)
  · intro name
    have offered : Config.eventEntry name (k, v) = Config.eventEntry name (k, v') := by
      simp only [Config.eventEntry, alike _]
    have onEntries_eq : ∀ {m : Value} {v : Value}, m.entries? = some (before ++ (k, v) :: after) →
        Config.onEntries name m = .ok (before ++ (k, v) :: after) := by
      intro m v h
      have true : m.truth = true := by
        rcases entries_kinds h with rfl | ⟨type, payload, rfl⟩
        · simp [truth]
        · rfl
      rw [Config.onEntries, if_pos true, h]
    rw [onEntries_eq written, onEntries_eq rewritten]
    exact mapM_changed offered _ _

/-- **Each change of spelling is read alike.** -/
theorem Respells.readsAs {p : Place} {v w : Value} (h : p.Respells v w) : p.ReadsAs v w := by
  induction h with
  | target written =>
    intro place
    rw [candidate_eq written]
    rfl
  | @single v w one held =>
    intro place
    have alone : Config.candidates place v = [v].mapM (Config.candidate place) := by
      rw [List.mapM_cons]
      cases v <;> first | rfl | cases one
    rcases held with rfl | rfl <;> exact alone
  | @lone v w one held =>
    have alone : Config.sequence v = .ok [v] := by
      rcases one with callable | ⟨s, rfl⟩
      · cases v <;> first | rfl | cases callable
      · rfl
    rcases held with rfl | rfl <;> exact alone
  | empty => exact fun _ => rfl
  | renamed _ _ field this that only written rewritten =>
    exact (agree_renamed field this that only).readsAs (List.ne_nil_of_mem field) written rewritten
  | omitted _ _ field named may absent written rewritten =>
    exact (agree_omitted field named may absent).readsAs
      (List.ne_nil_of_mem field) written rewritten
  | ready made has written => exact made.readsAs has written
  | under _ _ field named at' change written rewritten ih =>
    exact (agree_under field named at' ih).readsAs (List.ne_nil_of_mem field) written rewritten
  | entry _ _ each change written rewritten ih => exact readsAs_entry each ih written rewritten
  | listed before after change ih => exact fun place => mapM_changed (ih place) before after
  | tupled before after change ih => exact fun place => mapM_changed (ih place) before after

end Config.Place

/-- **Spellings of one machine**: configurations that any number of changes of spelling connects,
in either direction and wherever they are made, give the same machine under every validator, its
states and their event types in the same order, or are refused with the same message. -/
theorem Machine.create_respelt {config config' : Value}
    (h : Relation.EqvGen Config.Place.machine.Respells config config') (validator : Validator) :
    Machine.create config validator = Machine.create config' validator := by
  have read : Machine.ofValue config = Machine.ofValue config' := by
    induction h with
    | rel v w change => exact change.readsAs
    | refl v => rfl
    | symm v w _ ih => exact ih.symm
    | trans u v w _ _ first second => exact first.trans second
  unfold Machine.create
  rw [read]

namespace Lamp

open Config.Place

/-- What lights the lamp, and whether it may. -/
def light : Value := .function (.bench, 1) (some "light") (.host 1) []

def powered : Value := .function (.bench, 2) (some "powered") (.host 2) []

/-- A lamp that is switched on by one event, with the candidates for it, the state that is lit,
and more besides. -/
def lamp (go lit : Value) (more : Entries) : Value :=
  map ((str "initial", str "off") ::
    (str "states", map [(str "off", map [(str "on", map [(str "GO", go)])]), (str "lit", lit)]) ::
      more)

variable {go go' lit lit' : Value} {more : Entries}

theorem go_respelt (h : candidates.Respells go go') :
    machine.Respells (lamp go lit more) (lamp go' lit more) := by
  have offered : on.Respells (map [(str "GO", go)]) (map [(str "GO", go')]) :=
    .entry [] [] rfl h rfl rfl
  have off : state.Respells (map [(str "on", map [(str "GO", go)])])
      (map [(str "on", map [(str "GO", go')])]) :=
    .under (f := ⟨["on"], some on, true⟩) [] [] (by decide) (by decide) rfl offered rfl rfl
  exact .under (f := ⟨["states"], some states, false⟩) [_] more (by decide) (by decide) rfl
    (.entry [] [_] rfl off rfl rfl) rfl rfl

theorem lit_respelt (h : state.Respells lit lit') :
    machine.Respells (lamp go lit more) (lamp go lit' more) :=
  .under (f := ⟨["states"], some states, false⟩) [_] more (by decide) (by decide) rfl
    (.entry [_] [] rfl h rfl rfl) rfl rfl

/-- The candidate as a mapping, its guard under the shorter name. -/
def short : Value := map [(str "target", str "lit"), (str "actions", light), (str "cond", powered)]

/-- The candidate as a ready-made transition in a list. -/
def long : Value := list [.transition (str "lit") [light] powered]

theorem short_respelt :
    Relation.EqvGen machine.Respells (lamp short lit more) (lamp long lit more) := by
  -- The mapping is put in a list, its action in a tuple, and its guard under the longer name; that
  -- is the transition.
  have first : candidates.Respells short (list [short]) := .single rfl (.inl rfl)
  have second : candidates.Respells (list [short])
      (list [map [(str "target", str "lit"), (str "actions", tuple [light]),
        (str "cond", powered)]]) :=
    .listed [] []
      (.under (f := ⟨["actions"], some sequence, true⟩) [_] [_] (by decide) (by decide) rfl
      (.lone (.inl rfl) (.inr rfl)) rfl rfl)
  have third : candidates.Respells
      (list [map [(str "target", str "lit"), (str "actions", tuple [light]),
        (str "cond", powered)]])
      (list [map [(str "target", str "lit"), (str "actions", tuple [light]),
        (str "guard", powered)]]) :=
    .listed [] []
      (.renamed (f := ⟨["guard", "cond"], none, false⟩) [_, _] [] (by decide)
        (by decide) (by decide)
      (by simp [field, lookup]) rfl rfl)
  have fourth : candidates.Respells long
      (list [map [(str "target", str "lit"), (str "actions", tuple [light]),
        (str "guard", powered)]]) :=
    .listed [] [] (.ready (.transition ⟨str "lit", [light], powered⟩) rfl rfl)
  exact .trans _ _ _ (.rel _ _ (go_respelt first)) (.trans _ _ _ (.rel _ _ (go_respelt second))
    (.trans _ _ _ (.rel _ _ (go_respelt third)) (.symm _ _ (.rel _ _ (go_respelt fourth)))))

/-- Two spellings of the lamp, with the lit state and the context left out or written in full. -/
theorem respelt : Relation.EqvGen machine.Respells (lamp short .null [])
    (lamp long (map []) [(str "context", .null)]) := by
  refine .trans _ _ _ short_respelt (.trans _ _ _ (.rel _ _ (lit_respelt .empty)) (.rel _ _ ?_))
  exact .omitted (f := ⟨["context"], none, true⟩) [_, _] [] (by decide) rfl rfl
    (by simp [field, lookup]) rfl rfl

/-- The lamp is the same machine in both spellings, and the standard rules accept it. -/
theorem lamp_respelt_same : Relation.EqvGen machine.Respells (lamp short .null [])
    (lamp long (map []) [(str "context", .null)]) ∧
    Machine.create (lamp short .null []) .standard =
      Machine.create (lamp long (map []) [(str "context", .null)]) .standard ∧
    (Machine.create (lamp short .null []) .standard).isOk = true :=
  ⟨respelt, Machine.create_respelt respelt .standard, by decide +kernel⟩

end Lamp

end FlatMachine
