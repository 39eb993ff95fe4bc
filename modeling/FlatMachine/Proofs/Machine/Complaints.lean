import FlatMachine.Proofs.Machine.Defects

/-! # What a check complains of

A definition has no defect just if it is **`Machine.Consistent`**: there are states, the initial
one is among them, and each is a node with all that it needs (**`Machine.Furnishes`**).  So the
complaints about a legible definition are exact (**`Machine.complaints_exact`**): one for each
condition that is violated, in the order of the places, and none if the definition is consistent. -/

namespace FlatMachine
namespace Machine

/-- Whatever is called for a node can be called, and whatever leads somewhere leads to a state. -/
structure Furnishes (m : Machine) (n : Node) : Prop where
  on : ∀ entry ∈ n.on, ∀ cs, entry.2.items = .ok cs → ∀ c ∈ cs, m.Admits c
  entry : ∀ f ∈ n.entry, f.isCallable = true
  exit : ∀ f ∈ n.exit, f.isCallable = true
  invoke : ∀ i : Invocation, n.invoke = i.toValue → m.Starts i

/-- A definition with states, of which the initial one is one, and each of which is a node with all
that it needs. -/
structure Consistent (m : Machine) : Prop where
  states : m.states ≠ []
  initial : m.defines m.initial = .ok true
  nodes : ∀ entry ∈ m.states, ∃ n : Node, entry.2 = n.toValue ∧ m.Furnishes n

section Consistency

variable {m : Machine}

theorem defines_iff {name : Value} (key : name.isKey = true) :
    m.defines name = .ok true ↔ ¬ m.Lacks name := by
  obtain ⟨defined, hd, lacks⟩ := defines_eq (m := m) key
  rw [hd, lacks]
  simp

/-- No condition on a candidate is violated just if it can be taken. -/
theorem admits_iff (place : String) {v : Value} (aimed : v.Aimed) :
    m.Admits v ↔ ∀ a p, ¬ m.Spoils place v a p := by
  constructor
  · rintro ⟨t, rfl, takes⟩ a p spoils
    cases spoils with
    | sort other => cases other
    | target this present lacks =>
      cases this
      rcases takes.target with null | defined
      · exact present (Value.isNull_iff.mp null)
      · exact (defines_iff (aimed t rfl)).mp defined lacks
    | guard this present uncallable =>
      cases this
      rcases takes.guard with null | callable
      · exact present (Value.isNull_iff.mp null)
      · rw [callable] at uncallable
        cases uncallable
    | action this there uncallable =>
      cases this
      rw [takes.actions _ (List.mem_of_getElem? there)] at uncallable
      cases uncallable
  · intro fine
    cases this : Transition.ofValue? v with
    | none => exact (fine _ _ (.sort this)).elim
    | some t =>
      refine ⟨t, by cases v <;> cases this; rfl, ?_, ?_, fun f hf => ?_⟩
      · rw [Value.isNull_iff, Classical.or_iff_not_imp_left, defines_iff (aimed t this)]
        exact fun present lacks => fine _ _ (.target this present lacks)
      · rw [Value.isNull_iff, Classical.or_iff_not_imp_left, ← Bool.not_eq_false]
        exact fun present uncallable => fine _ _ (.guard this present uncallable)
      · obtain ⟨k, there⟩ := List.mem_iff_getElem?.mp hf
        rw [← Bool.not_eq_false]
        exact fun uncallable => fine _ _ (.action this there uncallable)

/-- No condition on any of the candidates is violated just if all of them can be taken. -/
theorem admits_all_iff (place : String) {cs : List Value} (aimed : ∀ c ∈ cs, c.Aimed) :
    (∀ c ∈ cs, m.Admits c) ↔ ∀ k a p, ¬ m.SpoilsOne place cs k a p := by
  constructor
  · rintro admits k a p ⟨v, there, spoils⟩
    have mem := List.mem_of_getElem? there
    exact (admits_iff place (aimed v mem)).mp (admits v mem) a p spoils
  · intro fine c hc
    obtain ⟨k, there⟩ := List.mem_iff_getElem?.mp hc
    exact (admits_iff place (aimed c hc)).mpr fun a p spoils => fine k a p ⟨c, there, spoils⟩

/-- No condition on a node is violated just if the node has all that it needs. -/
theorem furnishes_iff {s : Nat} (name : Value) {n : Node}
    (there : m.states[s]? = some (name, n.toValue)) (legible : n.Legible) :
    m.Furnishes n ↔ ∀ spot p, spot.state? = some s → ¬ m.Violates spot p := by
  have invoked {i : Invocation} (invoke : n.invoke = i.toValue) := (invoke ▸ legible.invoke).toValue
  constructor
  · intro furnished spot p here violates
    rcases (violates_node_iff there).mp ⟨here, violates⟩ with
      ((⟨type, event, offered, cs, c, a, at', items, -, spoils⟩ | ⟨k, f, at', uncallable, -, -⟩) |
      ⟨k, f, at', uncallable, -, -⟩) | ⟨i, invoke,
        ⟨uncallable, -, -⟩ | ⟨c, a, -, spoils⟩ | ⟨c, a, -, spoils⟩⟩
    · have mem := List.mem_of_getElem? at'
      obtain ⟨cs', items', aimed⟩ := legible.on _ mem
      cases items.symm.trans items'
      exact (admits_all_iff _ aimed).mp (furnished.on _ mem cs items) c a p spoils
    · rw [furnished.entry f (List.mem_of_getElem? at')] at uncallable
      cases uncallable
    · rw [furnished.exit f (List.mem_of_getElem? at')] at uncallable
      cases uncallable
    · rw [(furnished.invoke i invoke).src] at uncallable
      cases uncallable
    · exact (admits_all_iff _ (invoked invoke).1).mp (furnished.invoke i invoke).onDone c a p spoils
    · exact (admits_all_iff _ (invoked invoke).2).mp
        (furnished.invoke i invoke).onError c a p spoils
  · intro fine
    refine ⟨fun entry he cs items => ?_, fun f hf => ?_, fun f hf => ?_, fun i invoke =>
      ⟨?_, ?_, ?_⟩⟩
    · obtain ⟨cs', items', aimed⟩ := legible.on entry he
      cases items.symm.trans items'
      obtain ⟨type, at'⟩ := List.mem_iff_getElem?.mp he
      exact (admits_all_iff _ aimed).mpr fun c a p spoils =>
        fine _ _ rfl (.on there at' items spoils)
    · obtain ⟨k, at'⟩ := List.mem_iff_getElem?.mp hf
      rw [← Bool.not_eq_false]
      exact fun uncallable => fine _ _ rfl (.entry there at' uncallable)
    · obtain ⟨k, at'⟩ := List.mem_iff_getElem?.mp hf
      rw [← Bool.not_eq_false]
      exact fun uncallable => fine _ _ rfl (.exit there at' uncallable)
    · rw [← Bool.not_eq_false]
      exact fun uncallable => fine _ _ rfl (.source there invoke uncallable)
    · exact (admits_all_iff _ (invoked invoke).1).mpr fun c a p spoils =>
        fine _ _ rfl (.onDone there invoke spoils)
    · exact (admits_all_iff _ (invoked invoke).2).mpr fun c a p spoils =>
        fine _ _ rfl (.onError there invoke spoils)

/-- No condition is violated just if the definition is consistent. -/
theorem consistent_iff (legible : m.Legible) : m.Consistent ↔ ∀ spot p, ¬ m.Violates spot p := by
  constructor
  · intro consistent spot p violates
    cases this : spot.state? with
    | none =>
      cases violates with
      | states none => exact consistent.states none
      | initial lacks => exact (defines_iff legible.initial).mp consistent.initial lacks
      | _ => cases this
    | some s =>
      have there : ∃ entry, m.states[s]? = some entry := by
        cases violates <;> cases this <;> exact ⟨_, ‹_›⟩
      obtain ⟨⟨name, v⟩, there⟩ := there
      have mem := List.mem_of_getElem? there
      obtain ⟨n, rfl, furnished⟩ := consistent.nodes _ mem
      exact (furnishes_iff name there (legible.nodes _ mem n rfl)).mp furnished spot p this violates
  · intro fine
    refine ⟨fun none => fine _ _ (.states none), ?_, fun entry he => ?_⟩
    · rw [defines_iff legible.initial]
      exact fun lacks => fine _ _ (.initial lacks)
    · obtain ⟨s, there⟩ := List.mem_iff_getElem?.mp he
      cases this : Node.ofValue? entry.2 with
      | none => exact (fine _ _ (.state there this)).elim
      | some n =>
        have node := (Node.toValue_of_ofValue? this).symm
        refine ⟨n, node, (furnishes_iff (s := s) entry.1 ?_ (legible.nodes entry he n this)).mpr
          fun spot p _ => fine spot p⟩
        rw [there, ← node]

end Consistency

/-- The complaints about a definition are those at the spots where a condition is violated, in
the order of the spots, one for each: of the whole first, then of the states in order, and of
each state its candidates by event type, its entry and exit actions, the source of its
invocation, and the candidates of that.  So there are none just if the definition is consistent. -/
theorem complaints_exact {m : Machine} (legible : m.Legible) (invocations : ∀ entry ∈ m.states, ∀ n,
      Node.ofValue? entry.2 = some n → n.invoke = .null ∨ ∃ i : Invocation, n.invoke = i.toValue) :
    (∃ defects : List (Spot × Problem), complaintsAbout m.toValue =
      .ok (defects.map fun d => d.2.text) ∧
      (∀ spot p, (spot, p) ∈ defects ↔ m.Violates spot p) ∧ defects.Pairwise fun d d' =>
        d.1.address < d'.1.address) ∧
    (complaintsAbout m.toValue = .ok [] ↔ m.Consistent) := by
  obtain ⟨found, hp, defects, rfl, mem, sorted⟩ := finds_problems legible invocations
  have complaints : complaintsAbout m.toValue = .ok (defects.map fun d => d.2.text) := by
    rw [complaintsAbout_toValue]
    simp only [Validator.complaints, hp]
    exact congrArg Except.ok (List.map_map ..)
  refine ⟨⟨defects, complaints, mem, sorted⟩, ?_⟩
  rw [complaints, consistent_iff legible, Except.ok.injEq, List.map_eq_nil_iff]
  constructor
  · rintro rfl spot p violates
    cases (mem spot p).mpr violates
  · exact fun fine => List.eq_nil_iff_forall_not_mem.mpr fun d hd =>
      fine d.1 d.2 ((mem d.1 d.2).mp hd)

end Machine

/-! ### A wreck -/

namespace Wreck

/-- A transition that leads nowhere, and whose guard and action cannot be called. -/
def broken : Transition := ⟨.str "nowhere", [.int 1], .str "no"⟩

def invocation : Invocation := ⟨.null, [], [broken.toValue], .bool true⟩

def hull : Node :=
  ⟨[(.str "GO", .tuple [.int 5, broken.toValue])], [.str "x"], [], invocation.toValue, []⟩

def machine : Machine where
  id := .str "wreck"
  initial := .str "afloat"
  context := .null
  states := [(.str "hull", hull.toValue), (.str "mast", .int 3)]

def complaints : List String := ["Initial state 'afloat' is not defined.",
  "hull.on['GO']: expected a Transition, got int.",
  "hull.on['GO']: target 'nowhere' is not defined.",
  "hull.on['GO']: guard is not callable.", "hull.on['GO']: action 1 is not callable.",
  "hull.entry: action 'x' is not callable.", "hull.invoke: src is not callable.",
  "hull.invoke.on_error: target 'nowhere' is not defined.",
  "hull.invoke.on_error: guard is not callable.",
  "hull.invoke.on_error: action 1 is not callable.", "State 'mast' must be a StateNode, got int."]

theorem aimed : ∀ c ∈ [.int 5, broken.toValue], Value.Aimed c := by
  intro c hc t this
  rcases List.mem_cons.mp hc with rfl | hc
  · cases this
  · cases List.mem_singleton.mp hc
    cases this
    rfl

theorem legible : machine.Legible where
  initial := rfl
  nodes := by
    intro entry he n this
    rcases List.mem_cons.mp he with rfl | he
    · cases this
      refine ⟨fun entry he => ?_,
        .inr ⟨⟨_, rfl⟩, ⟨_, rfl, [], rfl, by simp⟩, _, rfl, _, rfl, fun c hc => ?_⟩⟩
      · cases List.mem_singleton.mp he
        exact ⟨_, rfl, aimed⟩
      · exact aimed c (List.mem_cons_of_mem _ hc)
    · cases List.mem_singleton.mp he
      cases this

theorem invocations : ∀ entry ∈ machine.states, ∀ n, Node.ofValue? entry.2 = some n →
    n.invoke = .null ∨ ∃ i : Invocation, n.invoke = i.toValue := by
  intro entry he n this
  rcases List.mem_cons.mp he with rfl | he
  · cases this
    exact .inr ⟨invocation, rfl⟩
  · cases List.mem_singleton.mp he
    cases this

/-- Everything that is wrong with the wreck is told, in order. -/
theorem wreck_complaints_listed : ∃ defects : List (Machine.Spot × Problem),
    (defects.map fun d => d.2.text) = complaints ∧
    (∀ spot p, (spot, p) ∈ defects ↔ machine.Violates spot p) ∧
    (defects.Pairwise fun d d' => d.1.address < d'.1.address) ∧ ¬ machine.Consistent := by
  obtain ⟨⟨defects, told, mem, sorted⟩, sound⟩ := Machine.complaints_exact legible invocations
  have all : Machine.complaintsAbout machine.toValue = .ok complaints := by rfl
  refine ⟨defects, Except.ok.inj (told.symm.trans all), mem, sorted, fun consistent => ?_⟩
  cases all.symm.trans (sound.mpr consistent)

end Wreck

end FlatMachine
