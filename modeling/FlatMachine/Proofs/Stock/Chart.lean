import FlatMachine.Proofs.Service.Story
import FlatMachine.Proofs.Stock.Form

/-! # Charts

A **`Chart`** is a machine as one would draw it: places with edges between them, a typed record
for a context, and for every action and every guard what it is meant to do to the record.
**`Chart.machine`** is the definition that it draws.

What a machine does, the chart says in its own terms.  Where a service stands is a **`Spot`**:
the name of its place, its record, a time that has passed, and its story.  **`Chart.Takes`** says
where an item leads it from there, **`Chart.Stops`** which spots it comes by on the way, and what
may halt it there. -/

namespace FlatMachine

/-! ### Drawing -/

/-- A way out of a place, or back to where it starts; without a target, it stays. -/
structure Edge (Act Guard : Type) where
  target : Option String
  actions : List Act
  guard : Option Guard

/-- What is awaited in a place, and the ways to go on from there. -/
structure Task (Act Guard : Type) where
  source : Value
  done : List (Edge Act Guard)
  error : List (Edge Act Guard)

/-- A place: what is tried on events of a type, what is done on entering, and perhaps a task. -/
structure Place (Act Guard : Type) where
  on : List (String × List (Edge Act Guard))
  entry : List Act
  task : Option (Task Act Guard)
  tags : List String

variable {ρ Act Guard : Type}

/-- The edge does not lead away from the place of that name. -/
def Edge.stays (edge : Edge Act Guard) (name : String) : Bool := edge.target.all (· == name)

/-- An edge that leads away leads to another place. -/
theorem Edge.aim_of_leaves {edge : Edge Act Guard} {name : String} (h : edge.stays name = false) :
    ∃ target, edge.target = some target ∧ target ≠ name := by
  unfold stays at h
  cases aim : edge.target with
  | none => rw [aim] at h; cases h
  | some target =>
    rw [aim] at h
    exact ⟨target, rfl, beq_eq_false_iff_ne.mp h⟩

/-- What is tried when the task of a place is over. -/
def Task.ends (task : Task Act Guard) (failed : Bool) : List (Edge Act Guard) :=
  if failed then task.error else task.done

/-- What is tried on an event of the type. -/
def Place.offers (place : Place Act Guard) (type : String) : List (Edge Act Guard) :=
  (place.on.lookup type).getD []

/-- All edges from the place. -/
def Place.edges (place : Place Act Guard) : List (Edge Act Guard) :=
  place.on.flatMap Prod.snd ++ place.task.elim [] fun task => task.done ++ task.error

/-- A machine with a typed record for a context.  Its actions and guards are callables that are
meant to do something to the record: an action may take time, and may fail, but not on entering a
place. -/
structure Chart (ρ Act Guard : Type) where
  title : Value
  start : String
  context : ρ
  places : List (String × Place Act Guard)
  shows : ρ → Value
  action : Act → Value
  guard : Guard → Value
  /-- what the action makes of a record, and the time by then -/
  does : Act → Event → ρ × Nat → ρ × Nat → Prop
  fails : Act → Event → ρ → Failure → Prop
  holds : Guard → ρ → Bool
  guarded : ∀ g, (guard g).isNull = false
  aims : ∀ p ∈ places, ∀ edge ∈ p.2.edges, ∀ target ∈ edge.target,
    (places.lookup target).isSome = true
  prompt : ∀ p ∈ places, ∀ a ∈ p.2.entry, ∀ e r f, ¬ fails a e r f
  opening : ∃ place, places.lookup start = some place ∧ place.entry = [] ∧ place.task = none

theorem mem_of_lookup {α : Type} {name : String} {a : α} {l : List (String × α)}
    (h : l.lookup name = some a) :
    (name, a) ∈ l := by
  obtain ⟨before, after, rfl, -⟩ := List.lookup_eq_some_iff.mp h
  exact List.mem_append_right _ List.mem_cons_self

theorem Place.mem_of_offers {place : Place Act Guard} {type : String} {edge : Edge Act Guard}
    (h : edge ∈ place.offers type) :
    ∃ edges, (type, edges) ∈ place.on ∧ edge ∈ edges := by
  unfold offers at h
  cases found : place.on.lookup type with
  | none => rw [found] at h; cases h
  | some edges =>
    rw [found] at h
    exact ⟨edges, mem_of_lookup found, h⟩

theorem Place.mem_edges_of_offers {place : Place Act Guard} {type : String} {edge : Edge Act Guard}
    (h : edge ∈ place.offers type) : edge ∈ place.edges := by
  obtain ⟨edges, listed, mem⟩ := mem_of_offers h
  exact List.mem_append_left _ (List.mem_flatMap.mpr ⟨_, listed, mem⟩)

theorem Place.mem_edges_of_ends {place : Place Act Guard} {task : Task Act Guard} {failed : Bool}
    {edge : Edge Act Guard} (ht : place.task = some task) (h : edge ∈ task.ends failed) :
    edge ∈ place.edges := by
  unfold edges
  rw [ht]
  refine List.mem_append_right _ (List.mem_append.mpr ?_)
  cases failed with
  | true => exact Or.inr h
  | false => exact Or.inl h

/-- All edges lead to places, if that is so when it is computed. -/
theorem Place.aims_of_all {places : List (String × Place Act Guard)}
    (h : (places.all fun p => p.2.edges.all fun edge =>
      edge.target.all fun target => (places.lookup target).isSome) = true) :
    ∀ p ∈ places, ∀ edge ∈ p.2.edges, ∀ target ∈ edge.target,
      (places.lookup target).isSome = true := by
  intro p hp edge he target ht
  have there := List.all_eq_true.mp (List.all_eq_true.mp h p hp) edge he
  rw [Option.mem_def.mp ht] at there
  exact there

namespace Chart

variable (c : Chart ρ Act Guard)

/-- The place of that name. -/
def place (name : String) : Option (Place Act Guard) := c.places.lookup name

def transition (edge : Edge Act Guard) : Transition :=
  ⟨edge.target.elim .null .str, edge.actions.map c.action, edge.guard.elim .null c.guard⟩

def candidates (edges : List (Edge Act Guard)) : List Value :=
  edges.map fun edge => (c.transition edge).toValue

def invocation (task : Task Act Guard) : Invocation :=
  ⟨task.source, c.candidates task.done, c.candidates task.error, .bool true⟩

def node (place : Place Act Guard) : Node where
  on := place.on.map fun p => (.str p.1, .tuple (c.candidates p.2))
  entry := place.entry.map c.action
  exit := []
  invoke := place.task.elim .null fun task => (c.invocation task).toValue
  tags := place.tags.map .str

/-- The machine that the chart draws. -/
def machine : Machine where
  id := c.title
  initial := .str c.start
  context := c.shows c.context
  states := c.places.map fun p => (.str p.1, (c.node p.2).toValue)

end Chart

/-- Names that are written as values are looked up like names. -/
theorem Value.lookup_names {α : Type} (name : String) (f : α → Value) (l : List (String × α)) :
    Value.lookup (.str name) (l.map fun p => (.str p.1, f p.2)) = (l.lookup name).map f := by
  induction l with
  | nil => rfl
  | cons p rest ih =>
    rw [List.map_cons, Value.lookup, Value.same_str, List.lookup_cons, ih]
    by_cases same : p.1 = name
    · rw [same, beq_self_eq_true]
      rfl
    · rw [beq_false_of_ne same, beq_false_of_ne fun e => same e.symm]
      rfl

namespace Chart

variable {c : Chart ρ Act Guard} {name target : String} {place : Place Act Guard}
  {edge : Edge Act Guard}

theorem lookup_states (c : Chart ρ Act Guard) (name : String) :
    Value.lookup (.str name) c.machine.states = (c.place name).map fun place =>
      (c.node place).toValue :=
  Value.lookup_names name (fun place => (c.node place).toValue) c.places

theorem node_of_place (h : c.place name = some place) :
    c.machine.node (.str name) = .ok (c.node place).toValue := by
  unfold Machine.node
  rw [Value.checkKey_str, lookup_states, h]
  rfl

theorem demand_of_place (h : c.place target = some place) :
    c.machine.demand (.str target) = .ok () := by
  unfold Machine.demand Machine.defines Value.hasKeyChecked Value.hasKey
  rw [Value.checkKey_str, lookup_states, h]
  rfl

theorem candidatesFor_node (place : Place Act Guard) (type : String) :
    (c.node place).candidatesFor type = c.candidates (place.offers type) := by
  unfold Node.candidatesFor Value.field node Place.offers
  rw [Value.lookup_names type fun edges => .tuple (c.candidates edges)]
  cases place.on.lookup type <;> rfl

theorem isInternal_transition (edge : Edge Act Guard) (name : String) :
    (c.transition edge).isInternal (.str name) = edge.stays name := by
  unfold Transition.isInternal transition Edge.stays
  cases edge.target with
  | none => rfl
  | some target => exact (Bool.false_or _).trans (Value.same_str target name)

theorem member_target (c : Chart ρ Act Guard) (aim : edge.target = some target) :
    (c.transition edge).toValue.member "target" = .ok (.str target) := by
  unfold transition
  rw [aim]
  rfl

theorem place_of_aim (hp : c.place name = some place) (he : edge ∈ place.edges)
    (ht : edge.target = some target) :
    ∃ there, c.place target = some there :=
  Option.isSome_iff_exists.mp (c.aims _ (mem_of_lookup hp) edge he target ht)

end Chart

/-! ### Moving -/

/-- Where a service stands: the name of its place, its record, a time that has passed, and its
story. -/
structure Spot (ρ : Type) where
  name : String
  record : ρ
  time : Nat
  story : List Chapter

namespace Spot

variable (x : Spot ρ)

/-- The story goes on. -/
def told (ch : Chapter) : Spot ρ := { x with story := ch :: x.story }

/-- The record is another, after some time. -/
def acted (y : ρ × Nat) : Spot ρ := { x with record := y.1, time := y.2 }

/-- The service goes on to another place. -/
def moved (target : String) : Spot ρ :=
  { x with name := target, story := .moved (.str x.name) (.str target) :: x.story }

/-- What actions see and change. -/
def state : ρ × Nat := (x.record, x.time)

end Spot

/-- What may halt the processing of an item. -/
inductive Hitch where
  /-- a hook, or want of fuel -/
  | disturbed
  /-- the failure of an action -/
  | failed (f : Failure)
  | other

/-- The hitch accounts for what halted the drain of the service. -/
def Hitch.Explains (i : Nat) (halt : Halt) (journal : List Entry) : Hitch → Prop
  | disturbed => Spoils i halt journal
  | failed f => halt = .raised f
  | other => True

namespace Chart

variable (c : Chart ρ Act Guard)

/-- What actions do, one after the other. -/
inductive Runs (e : Event) : List Act → ρ × Nat → ρ × Nat → Prop
  | done (y : ρ × Nat) : Runs e [] y y
  | more {a : Act} {rest : List Act} {y y' y'' : ρ × Nat} (here : c.does a e y y')
      (others : Runs e rest y' y'') :
      Runs e (a :: rest) y y''

/-- One of the actions fails. -/
inductive Fails (e : Event) : List Act → ρ × Nat → Failure → Prop
  | here {a : Act} {rest : List Act} {y : ρ × Nat} {f : Failure} (fails : c.fails a e y.1 f) :
  Fails e (a :: rest) y f
  | later {a : Act} {rest : List Act} {y y' : ρ × Nat} {f : Failure} (here : c.does a e y y')
      (others : Fails e rest y' f) : Fails e (a :: rest) y f

/-- The edge that is taken: the first one without a guard, or with one that holds. -/
def choice (r : ρ) (edges : List (Edge Act Guard)) : Option (Edge Act Guard) :=
  edges.find? fun edge => edge.guard.all (c.holds · r)

/-- Something is awaited in the place. -/
def Tasked (name : String) : Prop := ∃ place, c.place name = some place ∧ place.task.isSome = true

/-- The edge leads to another place, where nothing was done yet. -/
inductive Arrives (edge : Edge Act Guard) (seen : Event) (x : Spot ρ) : Spot ρ → Prop
  | mk {target : String} {y : ρ × Nat} (aim : edge.target = some target) (other : target ≠ x.name)
      (ran : c.Runs seen edge.actions x.state y) : Arrives edge seen x ((x.acted y).moved target)

/-- What is done on entering is done. -/
inductive Enters (e : Event) (x : Spot ρ) : Spot ρ → Prop
  | mk {place : Place Act Guard} {y : ρ × Nat} (there : c.place x.name = some place)
      (ran : c.Runs e place.entry x.state y) :
      Enters e x (x.acted y)

/-- The task is begun. -/
inductive Calls (x : Spot ρ) : Spot ρ → Prop
  | mk {place : Place Act Guard} {task : Task Act Guard} {context event access : Object} (t : Token)
      (there : c.place x.name = some place) (awaits : place.task = some task)
      (shown : context.value = c.shows x.record) :
      Calls x (x.told (.called t task.source [context, event, access]))

/-- Where the edge leads. -/
inductive Leads (edge : Edge Act Guard) (e seen : Event) (x : Spot ρ) : Spot ρ → Prop
  | inside {y : ρ × Nat} (stays : edge.stays x.name = true)
      (ran : c.Runs seen edge.actions x.state y) :
      Leads edge e seen x (x.acted y)
  | across {x' x'' : Spot ρ} (arrives : c.Arrives edge seen x x') (enters : c.Enters e x' x'')
      (idle : ¬ c.Tasked x''.name) :
      Leads edge e seen x x''
  | calling {x' x'' x''' : Spot ρ} (arrives : c.Arrives edge seen x x') (enters : c.Enters e x' x'')
      (calls : c.Calls x'' x''') :
      Leads edge e seen x x'''

/-- Where the service comes by as it takes the edge, and what may halt it there. -/
inductive Breaks (edge : Edge Act Guard) (e seen : Event) (x : Spot ρ) : Spot ρ → Hitch → Prop
  | disturbed : Breaks edge e seen x x .disturbed
  | failed {f : Failure} (fails : c.Fails seen edge.actions x.state f) :
      Breaks edge e seen x x (.failed f)
  | cancelling (leaves : edge.stays x.name = false) (tasked : c.Tasked x.name) :
      Breaks edge e seen x x .other
  | arrived {x' : Spot ρ} (arrives : c.Arrives edge seen x x') : Breaks edge e seen x x' .disturbed
  | entered {x' x'' : Spot ρ} (arrives : c.Arrives edge seen x x') (enters : c.Enters e x' x'') :
      Breaks edge e seen x x'' .other
  | called {x' x'' x''' : Spot ρ} (arrives : c.Arrives edge seen x x') (enters : c.Enters e x' x'')
      (calls : c.Calls x'' x''') :
      Breaks edge e seen x x''' .other

/-- An outcome is wanted, and the edge is taken on it. -/
structure Settles (x : Spot ρ) (o : Outcome) (edge : Edge Act Guard) (seen : Event) : Prop where
  wanted : calling x.story = some o.token
  valid : o.cancelled = false
  seen : o.event.withPayload [if o.failed then ("error", o.error) else ("data", o.data)] = .ok seen
  taken : ∃ place task, c.place x.name = some place ∧ place.task = some task ∧
    c.choice x.record (task.ends o.failed) = some edge

/-- The edge is taken on the item; what its actions see may be another event than the one that
enters a place. -/
inductive Chooses (x : Spot ρ) : Item → Edge Act Guard → Event → Event → Prop
  | event {e : Event} {place : Place Act Guard} {edge : Edge Act Guard}
      (there : c.place x.name = some place)
      (some : c.choice x.record (place.offers e.type) = some edge) : Chooses x (.event e) edge e e
  | outcome {o : Outcome} {edge : Edge Act Guard} {seen : Event}
      (settles : c.Settles x o edge seen) :
      Chooses x (.outcome o) edge o.event seen

/-- Where an item leads. -/
inductive Takes (x : Spot ρ) : Item → Spot ρ → Prop
  | ignored {e : Event} {place : Place Act Guard} (there : c.place x.name = some place)
      (none : c.choice x.record (place.offers e.type) = none) :
      Takes x (.event e) (x.told (.taken (.event e)))
  | dropped (o : Outcome) : Takes x (.outcome o) (x.told (.taken (.outcome o)))
  | led {item : Item} {edge : Edge Act Guard} {e seen : Event} {x' : Spot ρ}
      (chooses : Chooses c x item edge e seen)
      (leads : c.Leads edge e seen (x.told (.taken item)) x') : Takes x item x'

/-- Where the service comes by as it takes the item, and what may halt it there. -/
inductive Stops (x : Spot ρ) : Item → Spot ρ → Hitch → Prop
  | taken (item : Item) : Stops x item (x.told (.taken item)) .disturbed
  | guarding {e : Event} {place : Place Act Guard} {edge : Edge Act Guard}
      (there : c.place x.name = some place)
      (offered : edge ∈ place.offers e.type) (guarded : edge.guard.isSome = true) :
      Stops x (.event e) (x.told (.taken (.event e))) .other
  | settling (o : Outcome) : Stops x (.outcome o) (x.told (.taken (.outcome o))) .other
  | broken {item : Item} {edge : Edge Act Guard} {e seen : Event} {x' : Spot ρ} {hitch : Hitch}
      (chooses : Chooses c x item edge e seen)
      (breaks : c.Breaks edge e seen (x.told (.taken item)) x' hitch) : Stops x item x' hitch

variable {c}

theorem choice_cons (r : ρ) (edge : Edge Act Guard) (rest : List (Edge Act Guard)) :
    c.choice r (edge :: rest) =
      if edge.guard.all (c.holds · r) then some edge else c.choice r rest := by
  unfold choice
  rw [List.find?_cons]
  cases edge.guard.all (c.holds · r) <;> rfl

theorem mem_of_choice {r : ρ} {edges : List (Edge Act Guard)} {edge : Edge Act Guard}
    (h : c.choice r edges = some edge) :
    edge ∈ edges ∧ ∀ g ∈ edge.guard, c.holds g r = true := by
  refine ⟨List.mem_of_find?_eq_some h, fun g hg => ?_⟩
  have passed := List.find?_some h
  rw [Option.mem_def.mp hg] at passed
  exact passed

/-- No action of a place's entry fails. -/
theorem not_fails_entry {name : String} {place : Place Act Guard} (h : c.place name = some place)
    {e : Event} {y : ρ × Nat} {f : Failure} : ¬ c.Fails e place.entry y f := by
  have prompt : ∀ a ∈ place.entry, ∀ e r f, ¬ c.fails a e r f := c.prompt _ (mem_of_lookup h)
  generalize place.entry = entry at prompt
  intro fails
  induction fails with
  | here fails => exact prompt _ List.mem_cons_self _ _ _ fails
  | later _ _ ih => exact ih fun a ha => prompt a (List.mem_cons_of_mem _ ha)

end Chart

end FlatMachine
