import FlatMachine.Machine.Check

/-! # What a check without findings says

A definition in which the standard rules find nothing, and whose invocations are ready-made ones,
is **`Checked`**. From the empty list of problems the lemmas here read off what the interpreter
of the definition relies on.

* **`Machine.Takes`**, **`Machine.Admits`**: a transition goes nowhere or to a state that is
  defined, its guard is absent or callable, and so are its actions.
* **`Machine.Starts`**, **`Machine.Equips`**: the same for an invocation with its source, and for
  a node with all that it holds.
* **`Machine.Covers.node`**: each state of a checked definition is under a key, with a node that is
  equipped. -/

namespace FlatMachine

/-- What is found under a key is under one of the keys. -/
theorem Value.mem_of_lookup {k v : Value} {entries : Value.Entries}
    (h : Value.lookup k entries = some v) :
    ∃ l, (l, v) ∈ entries := by
  induction entries with
  | nil => cases h
  | cons p rest ih =>
    obtain ⟨l, w⟩ := p
    unfold Value.lookup at h
    split at h
    · cases h; exact ⟨l, List.mem_cons_self⟩
    · obtain ⟨l', hl⟩ := ih h
      exact ⟨l', List.mem_cons_of_mem _ hl⟩

/-- What is made of a configuration is what it says, if that passes the check. -/
theorem Machine.create_eq_ok_iff {config : Value} {validator : Validator} {m : Machine} :
    Machine.create config validator = .ok m ↔ Machine.ofValue config = .ok m ∧
    validator.check m = .ok () := by
  unfold Machine.create
  cases said : Machine.ofValue config with
  | error f => exact ⟨nofun, fun h => nomatch h.1⟩
  | ok m' =>
    change (validator.check m' >>= fun _ => .ok m') = _ ↔ _
    constructor
    · intro made
      cases checked : validator.check m' with
      | error f => rw [checked] at made; cases made
      | ok u => rw [checked] at made; cases made; exact ⟨rfl, checked⟩
    · rintro ⟨⟨⟩, checked⟩
      rw [checked]
      rfl

theorem Machine.of_create {config : Value} {validator : Validator} {m m' : Machine}
    (said : Machine.ofValue config = .ok m') (made : Machine.create config validator = .ok m) :
    m = m' :=
  Except.ok.inj ((create_eq_ok_iff.mp made).1.symm.trans said)

theorem Machine.create_of_ok {config : Value} {validator : Validator} {m : Machine}
    (said : Machine.ofValue config = .ok m) (h : (Machine.create config validator).isOk = true) :
    Machine.create config validator = .ok m := by
  cases made : Machine.create config validator with
  | ok m' => rw [Machine.of_create said made]
  | error f => rw [made] at h; cases h

theorem Node.toValue_of_ofValue? {v : Value} {n : Node} (h : Node.ofValue? v = some n) :
    n.toValue = v := by
  cases v <;> cases h
  rfl

namespace Machine

variable {m : Machine}

/-- Everything that taking the transition calls or looks up is there. -/
structure Takes (m : Machine) (t : Transition) : Prop where
  target : t.target.isNull = true ∨ m.defines t.target = .ok true
  guard : t.guard.isNull = true ∨ t.guard.isCallable = true
  actions : ∀ a ∈ t.actions, a.isCallable = true

/-- The candidate is a transition that can be taken. -/
def Admits (m : Machine) (v : Value) : Prop := ∃ t : Transition, v = t.toValue ∧ m.Takes t

/-- The source of the invocation can be called, and its candidates can be taken. -/
structure Starts (m : Machine) (i : Invocation) : Prop where
  src : i.src.isCallable = true
  onDone : ∀ v ∈ i.onDone, m.Admits v
  onError : ∀ v ∈ i.onError, m.Admits v

/-- Everything that being in the state calls or looks up is there. -/
structure Equips (m : Machine) (n : Node) : Prop where
  on : ∀ type, ∀ v ∈ n.candidatesFor type, m.Admits v
  entry : ∀ a ∈ n.entry, a.isCallable = true
  exit : ∀ a ∈ n.exit, a.isCallable = true
  invoke : n.invoke = .null ∨ ∃ i : Invocation, n.invoke = i.toValue ∧ m.Starts i

/-- The standard rules find nothing, and every invocation is a ready-made one. -/
structure Checked (m : Machine) : Prop where
  problems : m.problems = .ok []
  invocations : ∀ entry ∈ m.states, ∀ n, Node.ofValue? entry.2 = some n →
    n.invoke = .null ∨ ∃ i : Invocation, n.invoke = i.toValue

/-- The definition is checked, and the name is one of its states. -/
structure Covers (m : Machine) (name : Value) : Prop where
  checked : m.Checked
  defined : m.defines name = .ok true

/-! ### Reading an empty list of findings -/

private theorem bind_ok {ε α β : Type} {x : Except ε α} {f : α → Except ε β} {b : β}
    (h : x >>= f = .ok b) :
    ∃ a, x = .ok a ∧ f a = .ok b := by
  cases x with
  | error e => cases h
  | ok a => exact ⟨a, rfl, h⟩

/-- If all that is collected is empty, nothing was found anywhere. -/
private theorem mapM_empty {ε α β : Type} {f : α → Except ε (List β)} {xs : List α}
    {yss : List (List β)} (h : xs.mapM f = .ok yss) (hn : yss.flatten = []) :
    ∀ x ∈ xs, f x = .ok [] := by
  induction xs generalizing yss with
  | nil => intro x hx; cases hx
  | cons y ys ih =>
    rw [List.mapM_cons] at h
    obtain ⟨a, ha, h⟩ := bind_ok h
    obtain ⟨rest, hr, h⟩ := bind_ok h
    cases h
    rw [List.flatten_cons, List.append_eq_nil_iff] at hn
    intro x hx
    rcases List.mem_cons.mp hx with rfl | hx
    · rw [ha, hn.1]
    · exact ih hr hn.2 x hx

theorem callable_of_actionProblems {place : String} {actions : List Value}
    (h : actionProblems place actions = []) :
    ∀ a ∈ actions, a.isCallable = true := by
  intro a ha
  unfold actionProblems at h
  rw [List.map_eq_nil_iff, List.filter_eq_nil_iff] at h
  simpa using h a ha

theorem guard_of_guardProblems {place : String} {guard : Value}
    (h : guardProblems place guard = []) :
    guard.isNull = true ∨ guard.isCallable = true := by
  unfold guardProblems at h
  split at h
  · rename_i hg
    simpa using hg
  · cases h

theorem target_of_targetProblems {place : String} {target : Value}
    (h : m.targetProblems place target = .ok []) :
    target.isNull = true ∨ m.defines target = .ok true := by
  unfold targetProblems at h
  split at h
  · exact Or.inl ‹_›
  · obtain ⟨defined, hd, h⟩ := bind_ok h
    cases defined with
    | true => exact Or.inr hd
    | false => cases h

theorem admits_of_candidateProblems {place : String} {v : Value}
    (h : m.candidateProblems place v = .ok []) :
    m.Admits v := by
  cases v with
  | transition target actions guard =>
    obtain ⟨ps, ht, h⟩ := bind_ok h
    have hn : ps ++ guardProblems place guard ++ actionProblems place actions = [] :=
      Except.ok.inj h
    rw [List.append_eq_nil_iff, List.append_eq_nil_iff] at hn
    obtain ⟨⟨rfl, hg⟩, ha⟩ := hn
    exact ⟨⟨target, actions, guard⟩, rfl, target_of_targetProblems ht, guard_of_guardProblems hg,
      callable_of_actionProblems ha⟩
  | _ => cases h

theorem admits_of_candidatesProblems {place : String} {candidates : List Value}
    (h : m.candidatesProblems place candidates = .ok []) : ∀ v ∈ candidates, m.Admits v := by
  obtain ⟨found, hf, h⟩ := bind_ok h
  intro v hv
  exact admits_of_candidateProblems (mapM_empty hf (Except.ok.inj h) v hv)

theorem starts_of_invokeProblems {name : String} {i : Invocation}
    (h : m.invokeProblems name i.toValue = .ok []) :
    m.Starts i := by
  rw [invokeProblems_toValue] at h
  obtain ⟨done, hd, h⟩ := bind_ok h
  obtain ⟨failed, hf, h⟩ := bind_ok h
  have hn := Except.ok.inj h
  rw [List.append_eq_nil_iff, List.append_eq_nil_iff] at hn
  obtain ⟨⟨hs, rfl⟩, rfl⟩ := hn
  refine ⟨?_, admits_of_candidatesProblems hd, admits_of_candidatesProblems hf⟩
  cases hc : i.src.isCallable with
  | true => rfl
  | false => rw [hc] at hs; cases hs

/-- What a node has for an event type was checked as an entry of its `on`. -/
theorem admits_of_onProblems {name : String} {n : Node} {found : List (List Problem)}
    (h : n.on.mapM (m.onProblems name) = .ok found) (hn : found.flatten = []) (type : String) :
    ∀ v ∈ n.candidatesFor type, m.Admits v := by
  intro v hv
  unfold Node.candidatesFor at hv
  split at hv
  · rename_i candidates hl
    obtain ⟨l, hmem⟩ := Value.mem_of_lookup hl
    obtain ⟨items, hi, hp⟩ := bind_ok (mapM_empty h hn _ hmem)
    cases hi
    exact admits_of_candidatesProblems hp v hv
  · cases hv

theorem equips_of_nodeProblems {name : String} {n : Node} (h : m.nodeProblems name n = .ok [])
    (hi : n.invoke = .null ∨ ∃ i : Invocation, n.invoke = i.toValue) : m.Equips n := by
  obtain ⟨on, ho, h⟩ := bind_ok h
  obtain ⟨invoke, hv, h⟩ := bind_ok h
  have hn := Except.ok.inj h
  rw [List.append_eq_nil_iff, List.append_eq_nil_iff, List.append_eq_nil_iff] at hn
  obtain ⟨⟨⟨hon, hentry⟩, hexit⟩, rfl⟩ := hn
  refine ⟨admits_of_onProblems ho hon, callable_of_actionProblems hentry,
    callable_of_actionProblems hexit, ?_⟩
  rcases hi with hi | ⟨i, hi⟩
  · exact Or.inl hi
  · rw [hi] at hv
    exact Or.inr ⟨i, hi, starts_of_invokeProblems hv⟩

namespace Checked

/-- The initial state is defined. -/
theorem initial (h : m.Checked) : m.defines m.initial = .ok true := by
  obtain ⟨defined, hd, hp⟩ := bind_ok h.problems
  cases defined with
  | true => exact hd
  | false =>
    obtain ⟨found, -, hp⟩ := bind_ok hp
    have hn := Except.ok.inj hp
    rw [List.append_eq_nil_iff, List.append_eq_nil_iff] at hn
    cases hn.1.2

theorem stateProblems (h : m.Checked) : ∀ entry ∈ m.states, m.stateProblems entry = .ok [] := by
  obtain ⟨defined, -, hp⟩ := bind_ok h.problems
  obtain ⟨found, hf, hp⟩ := bind_ok hp
  have hn := Except.ok.inj hp
  rw [List.append_eq_nil_iff] at hn
  exact mapM_empty hf hn.2

end Checked

/-- Under the key of a state of a checked definition there is a node, and the node is equipped. -/
theorem Covers.node {name : Value} (h : m.Covers name) :
    ∃ n : Node, m.node name = .ok n.toValue ∧ m.Equips n := by
  obtain ⟨⟨⟩, hk, hd⟩ := bind_ok h.defined
  obtain ⟨v, hl⟩ := Option.isSome_iff_exists.mp (Except.ok.inj hd)
  obtain ⟨l, hmem⟩ := Value.mem_of_lookup hl
  have hs := h.checked.stateProblems _ hmem
  have hi := h.checked.invocations _ hmem
  unfold Machine.stateProblems at hs
  cases hv : Node.ofValue? v with
  | none => rw [hv] at hs; cases hs
  | some n =>
    rw [hv] at hs
    refine ⟨n, ?_, equips_of_nodeProblems hs (hi n hv)⟩
    unfold Machine.node
    rw [hk, hl, ← Node.toValue_of_ofValue? hv]
    rfl

/-- The name under which a node is found is defined. -/
theorem defines_of_node {name n : Value} (h : m.node name = .ok n) : m.defines name = .ok true := by
  obtain ⟨⟨⟩, hk, h⟩ := bind_ok h
  unfold defines Value.hasKeyChecked
  rw [hk]
  cases hl : Value.lookup name m.states with
  | none => rw [hl] at h; cases h
  | some v =>
    show Except.ok (Value.lookup name m.states).isSome = _
    rw [hl]
    rfl

namespace Covers

variable {name n v : Value} {fs : List Value}

theorem entry (h : m.Covers name) (hn : m.node name = .ok n) (hv : n.member "entry" = .ok v)
    (hf : v.items = .ok fs) :
    ∀ f ∈ fs, f.isCallable = true := by
  obtain ⟨node, hnode, equips⟩ := h.node
  cases hnode.symm.trans hn
  cases hv
  cases hf
  exact equips.entry

theorem exit (h : m.Covers name) (hn : m.node name = .ok n) (hv : n.member "exit" = .ok v)
    (hf : v.items = .ok fs) :
    ∀ f ∈ fs, f.isCallable = true := by
  obtain ⟨node, hnode, equips⟩ := h.node
  cases hnode.symm.trans hn
  cases hv
  cases hf
  exact equips.exit

/-- What is under the live state is an invocation that can be started, if it is one at all. -/
theorem invoke (h : m.Covers name) (hn : m.node name = .ok n) (hv : n.member "invoke" = .ok v)
    (present : v.isNull = false) : ∃ i : Invocation, v = i.toValue ∧ m.Starts i := by
  obtain ⟨node, hnode, equips⟩ := h.node
  cases hnode.symm.trans hn
  cases hv
  rcases equips.invoke with hnull | ready
  · rw [hnull] at present
    cases present
  · exact ready

end Covers

namespace Admits

variable {v a : Value} {fs : List Value}

theorem actions (h : m.Admits v) (ha : v.member "actions" = .ok a) (hf : a.items = .ok fs) :
    ∀ f ∈ fs, f.isCallable = true := by
  obtain ⟨t, rfl, takes⟩ := h
  cases ha
  cases hf
  exact takes.actions

/-- An admitted candidate that leaves the state leads to one that is defined. -/
theorem target {current : Value} (h : m.Admits v)
    (external : ∀ t, Transition.ofValue? v = some t → t.isInternal current = false)
    (ha : v.member "target" = .ok a) :
    m.defines a = .ok true := by
  obtain ⟨t, rfl, takes⟩ := h
  have ht := external t rfl
  unfold Transition.isInternal at ht
  rw [Bool.or_eq_false_iff] at ht
  cases ha
  rcases takes.target with hnull | hdef
  · rw [ht.1] at hnull
    cases hnull
  · exact hdef

end Admits

end Machine
end FlatMachine
