import FlatMachine.Proofs.Service.IdleItems

/-! # The lifeline of a service

A service goes from state to state, and tells its hooks as it enters a state, as it exits one and
as it passes over to the next.  If a state has an invocation that starts by itself, its source is
called after the hooks were told that the state was entered.  All these calls, in order, are the
**`lifeline`** of the service.

* **`Leg.trace`**: what is told of one leg, from a state to the next; **`Machine.entrance`**:
  what of entering a state.
* **`Machine.Follows`**: the calls are those of the entrance to the initial state, and of legs of
  which each starts where the one before it ended. -/

namespace FlatMachine

/-! ### What is told -/

/-- What a callable is told of the course of a service: as a hook, of a moment, and what that is
about; as a source, to start. -/
inductive Told where
  | hook (m : Moment) (about : List Value)
  | source

/-- Callables with what they were told, in order. -/
abbrev Line := List (Value × Told)

/-- Of the arguments of a hook, the states and the event that the moment is about; the context is
none of them. -/
def Moment.about : Moment → List Object → List Value
  | transition, args => args.map (·.value)
  | _, args => (args.take 1).map (·.value)

/-- What the entry tells of the course of the service. -/
def Entry.told? (i : Nat) : Entry → Option (Value × Told)
  | called owner (.hook m) f args =>
    if owner = .service i ∧ m ≠ .error then some (f, .hook m (m.about args)) else none
  | called owner (.source _) f _ => if owner = .service i then some (f, .source) else none
  | _ => none

/-- The calls that tell of the course of the service. -/
def lifeline (i : Nat) (journal : List Entry) : Line := (journal.filterMap (Entry.told? i)).reverse

section Lifeline

variable {i : Nat} {e : Entry} {journal later : List Entry}

theorem Entry.deed?_of_told {x : Value × Told} (h : e.told? i = some x) : e.deed? = some i := by
  cases e with
  | called owner role f args =>
    refine deed?_called.mpr ?_
    cases role with
    | hook m =>
      obtain ⟨⟨owned, other⟩, -⟩ := Option.ite_none_right_eq_some.mp h
      exact ⟨owned, bne_iff_ne.mpr other⟩
    | source t => exact ⟨(Option.ite_none_right_eq_some.mp h).1, rfl⟩
    | _ => cases h
  | _ => cases h

theorem Entry.Acting.untold (h : e.Acting i) : e.told? i = none := by
  cases h with
  | action f args => rfl
  | quiet quiet =>
    cases quiet with
    | free free =>
      cases free with
      | error f args => exact if_neg fun h => h.2 rfl
      | _ => rfl
    | _ => rfl

theorem lifeline_cons (h : e.told? i = none) : lifeline i (e :: journal) = lifeline i journal := by
  unfold lifeline
  rw [List.filterMap_cons_none h]

theorem lifeline_told {x : Value × Told} (h : e.told? i = some x) :
    lifeline i (e :: journal) = lifeline i journal ++ [x] := by
  unfold lifeline
  rw [List.filterMap_cons_some h, List.reverse_cons]

theorem lifeline_append (others : ∀ e ∈ later, e.deed? ≠ some i) :
    lifeline i (later ++ journal) = lifeline i journal := by
  have untold : later.filterMap (Entry.told? i) = [] := by
    refine List.filterMap_eq_nil_iff.mpr fun e he => ?_
    cases told : e.told? i with
    | none => rfl
    | some x => exact absurd (Entry.deed?_of_told told) (others e he)
  unfold lifeline
  rw [List.filterMap_append, untold, List.nil_append]

end Lifeline

/-! ### What there is to tell -/

/-- What the hooks are told of a moment: each that defines its method, in order. -/
def heard (hooks : List Hook) (m : Moment) (about : List Value) : Line :=
  hooks.flatMap fun hook => (hook.method? m).toList.map (·, .hook m about)

namespace Machine

/-- The source that is called on entering a state: that of its invocation, if it has one that
starts by itself. -/
def source (m : Machine) (name : Value) : Except Failure (Option Value) := do
  let invocation ← (← m.node name).member "invoke"
  if invocation.isNull then return none
  if (← invocation.member "auto_start").truth then return some (← invocation.member
    "src") else return none

/-- What is told of entering a state: to the hooks that it is entered, and to its source to
start. -/
def entrance (m : Machine) (hooks : List Hook) (name : Value) : Line :=
  heard hooks .enter [name] ++ match m.source name with
    | .ok (some f) => [(f, .source)]
    | _ => []

theorem source_eq {m : Machine} {name n invocation : Value} (hn : m.node name = .ok n)
    (hi : n.member "invoke" = .ok invocation) : m.source name = (do
      if invocation.isNull then return none
      if (← invocation.member "auto_start").truth then return some (← invocation.member
        "src") else return none) := by
  unfold source
  rw [hn]
  show (n.member "invoke" >>= _) = _
  rw [hi]
  rfl

theorem entrance_of_source {m : Machine} {hooks : List Hook} {name : Value} {called : Option Value}
    (h : m.source name = .ok called) :
    m.entrance hooks name = heard hooks .enter [name] ++ called.toList.map (·, .source) := by
  unfold entrance
  rw [h]
  cases called <;> rfl

/-- States are nodes, and candidates are transitions. -/
structure Typed (m : Machine) : Prop where
  node : ∀ {name n}, m.node name = .ok n → ∃ node, Node.ofValue? n = some node
  candidate : ∀ {name item candidates}, m.offers name item = .ok candidates → ∀ v ∈ candidates,
    ∃ t : Transition, v = t.toValue

/-- What the standard rules find nothing in is typed. -/
theorem Checked.typed {m : Machine} (h : m.Checked) : m.Typed := by
  have covers {name n : Value} (hn : m.node name = .ok n) : m.Covers name := ⟨h, defines_of_node hn⟩
  refine ⟨fun {name n} hn => ?_, fun {name item candidates} offered v hv => ?_⟩
  · obtain ⟨node, hnode, -⟩ := (covers hn).node
    cases hnode.symm.trans hn
    exact ⟨node, rfl⟩
  · have admitted : m.Admits v := by
      cases item with
      | event e =>
        obtain ⟨node, hnode, rfl⟩ := offers_event offered
        obtain ⟨node', hnode', equips⟩ := (covers hnode).node
        have same : node = node' :=
          Option.some.inj (congrArg Node.ofValue? (Except.ok.inj (hnode.symm.trans hnode')))
        rw [same] at hv
        exact equips.on e.type v hv
      | outcome o =>
        obtain ⟨n, invocation, listed, hn, hi, hc, hl⟩ := offers_outcome offered
        have present : invocation.isNull = false := by
          cases invocation with
          | null => split at hc <;> cases hc
          | _ => rfl
        obtain ⟨ready, rfl, starts⟩ := (covers hn).invoke hn hi present
        split at hc <;> cases hc <;> cases hl
        · exact starts.onError v hv
        · exact starts.onDone v hv
    obtain ⟨t, ht, -⟩ := admitted
    exact ⟨t, ht⟩

end Machine

/-- A way from one state to the next, on an event. -/
structure Leg where
  source : Value
  target : Value
  event : Event

/-- What is told of a leg: that its source is exited, that it is passed over, and that its target
is entered. -/
def Leg.trace (m : Machine) (hooks : List Hook) (l : Leg) : Line :=
  heard hooks .exit [l.source] ++ heard hooks .transition [l.source, l.target, l.event.toValue] ++
    m.entrance hooks l.target

/-- Each leg starts where the one before it ended. -/
def Joined : Value → List Leg → Value → Prop
  | start, [], stop => start = stop
  | start, l :: rest, stop => l.source = start ∧ Joined l.target rest stop

theorem Joined.append {start : Value} {legs : List Leg} {l : Leg} (h : Joined start legs l.source) :
    Joined start (legs ++ [l]) l.target := by
  induction legs generalizing start with
  | nil => exact ⟨h.symm, rfl⟩
  | cons l' rest ih => exact ⟨h.1, ih h.2⟩

/-- The legs lead from the initial state to the one given, each to another state, and the line
tells of them. -/
structure Machine.Follows (m : Machine) (hooks : List Hook) (legs : List Leg) (name : Value)
    (line : Line) : Prop where
  joined : Joined m.initial legs name
  apart : m.Typed → ∀ l ∈ legs, l.target.same l.source = false
  told : line = m.entrance hooks m.initial ++ legs.flatMap (Leg.trace m hooks)

/-- The line is one of which the assertion holds, and then what was told. -/
def After (R : Line → Prop) (told line : Line) : Prop :=
  ∃ earlier, R earlier ∧ line = earlier ++ told

theorem After.append {R : Line → Prop} {told told' line : Line}
    (h : After (After R told) told' line) :
    After R (told ++ told') line := by
  obtain ⟨_, ⟨earlier, hr, rfl⟩, rfl⟩ := h
  exact ⟨earlier, hr, List.append_assoc _ _ _⟩

/-- The line tells of legs that lead from the initial state to the one given. -/
def Machine.Leads (m : Machine) (hooks : List Hook) (name : Value) (line : Line) : Prop :=
  ∃ legs, m.Follows hooks legs name line

/-- A leg that is told after a line that leads to its start makes a line that leads to its end. -/
theorem Machine.Leads.leg {m : Machine} {hooks : List Hook} {l : Leg} {line : Line}
    (apart : m.Typed → l.target.same l.source = false)
    (h : After (m.Leads hooks l.source) (l.trace m hooks) line) :
    m.Leads hooks l.target line := by
  obtain ⟨_, ⟨legs, joined, others, rfl⟩, rfl⟩ := h
  refine ⟨legs ++ [l], joined.append, fun typed => ?_, ?_⟩
  · exact List.forall_mem_append.mpr ⟨others typed, List.forall_mem_singleton.mpr (apart typed)⟩
  · rw [List.flatMap_append, List.flatMap_singleton, List.append_assoc]

end FlatMachine
