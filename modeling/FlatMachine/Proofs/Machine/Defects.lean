import FlatMachine.Proofs.Machine.Checked

/-! # The defects of a definition

A definition is checked at many places: the states as a whole, the initial state, what is under
each name, each candidate with its target, its guard and each of its actions, and so on.  A
**`Machine.Spot`** is such a place, and **`Machine.Violates`** says which condition is violated
there, with one constructor for each condition.

* **`Machine.Legible`**: what is read in checking the definition is there, and what is looked up
  can be.
* **`Machine.Lists`**: findings that are those at the spots where there is one to be told, in the
  order of the spots and one for each.  Every part of the check lists what is wrong in the part
  of the definition that it looks at, so the check as a whole lists what is wrong with a legible
  definition (**`Machine.finds_problems`**). -/

namespace FlatMachine

/-! ### What can be checked -/

/-- The target of a candidate can be looked up, if it is a transition. -/
def Value.Aimed (v : Value) : Prop := ∀ t, Transition.ofValue? v = some t → t.target.isKey = true

/-- The value holds candidates that can be checked. -/
def Value.Offers (v : Value) : Prop := ∃ cs, v.items = .ok cs ∧ ∀ c ∈ cs, c.Aimed

/-- The value is null, or it has the members of an invocation, with candidates that can be
checked. -/
def Value.Invokes (v : Value) : Prop := v = .null ∨ (∃ src, v.member "src" = .ok src) ∧
  (∃ done, v.member "on_done" = .ok done ∧ done.Offers) ∧
  ∃ failed, v.member "on_error" = .ok failed ∧ failed.Offers

/-- All that is read of the node in checking it is there. -/
structure Node.Legible (n : Node) : Prop where
  on : ∀ entry ∈ n.on, entry.2.Offers
  invoke : n.invoke.Invokes

theorem Invocation.toValue_inj {i j : Invocation} (h : i.toValue = j.toValue) : i = j := by
  simpa using congrArg Invocation.ofValue? h

theorem Node.toValue_inj {n n' : Node} (h : n.toValue = n'.toValue) : n = n' := by
  simpa using congrArg Node.ofValue? h

/-- What is read of a ready-made invocation is the invocation. -/
theorem Value.Invokes.toValue {i : Invocation} (h : i.toValue.Invokes) :
    (∀ c ∈ i.onDone, c.Aimed) ∧ ∀ c ∈ i.onError, c.Aimed := by
  rcases h with null | ⟨-, ⟨done, hd, cs, items, aimed⟩, failed, hf, cs', items', aimed'⟩
  · cases null
  · cases hd
    cases hf
    cases items
    cases items'
    exact ⟨aimed, aimed'⟩

namespace Machine

/-- All that is read of the definition in checking it is there, and what is looked up can be. -/
structure Legible (m : Machine) : Prop where
  initial : m.initial.isKey = true
  nodes : ∀ entry ∈ m.states, ∀ n, Node.ofValue? entry.2 = some n → n.Legible

/-! ### Conditions and where they are violated -/

/-- What a condition on a candidate is about, in the order in which the conditions are looked at. -/
inductive Aspect where
  | sort
  | target
  | guard
  | action (n : Nat)

/-- Where a condition may be violated.  States, event types, candidates and actions are counted. -/
inductive Spot where
  | states
  | initial
  | state (s : Nat)
  | on (s type c : Nat) (a : Aspect)
  | entry (s n : Nat)
  | exit (s n : Nat)
  | source (s : Nat)
  | onDone (s c : Nat) (a : Aspect)
  | onError (s c : Nat) (a : Aspect)

def Aspect.address : Aspect → List Nat
  | sort => [0]
  | target => [1]
  | guard => [2]
  | action n => [3, n]

/-- Spots are ordered by their addresses as words are in a dictionary. -/
def Spot.address : Spot → List Nat
  | states => [0]
  | initial => [1]
  | state s => [2, s]
  | on s type c a => [2, s, 0, type] ++ c :: a.address
  | entry s n => [2, s, 1, n]
  | exit s n => [2, s, 2, n]
  | source s => [2, s, 3]
  | onDone s c a => [2, s, 4] ++ c :: a.address
  | onError s c a => [2, s, 5] ++ c :: a.address

/-- No state goes by the name. -/
def Lacks (m : Machine) (name : Value) : Prop := ∀ entry ∈ m.states, entry.1.same name = false

/-- A condition on the candidate is violated, and this is what is told of it. -/
inductive Spoils (m : Machine) (place : String) (v : Value) : Aspect → Problem → Prop where
  | sort (other : Transition.ofValue? v = none) :
      Spoils m place v .sort (.notTransition place v.typeName)
  | target {t : Transition} (this : Transition.ofValue? v = some t) (present : t.target ≠ .null)
      (lacks : m.Lacks t.target) :
      Spoils m place v .target (.targetUndefined place t.target.shown)
  | guard {t : Transition} (this : Transition.ofValue? v = some t) (present : t.guard ≠ .null)
      (uncallable : t.guard.isCallable = false) :
      Spoils m place v .guard (.guardNotCallable place)
  | action {t : Transition} {n : Nat} {f : Value} (this : Transition.ofValue? v = some t)
      (there : t.actions[n]? = some f)
      (uncallable : f.isCallable = false) :
      Spoils m place v (.action n) (.actionNotCallable place f.shown)

/-- A condition on one of the candidates, counted, is violated. -/
def SpoilsOne (m : Machine) (place : String) (cs : List Value) (c : Nat) (a : Aspect)
    (p : Problem) : Prop :=
  ∃ v, cs[c]? = some v ∧ m.Spoils place v a p

/-- A condition on the definition is violated at the spot, and this is what is told of it. -/
inductive Violates (m : Machine) : Spot → Problem → Prop where
  | states (none : m.states = []) : Violates m .states .noStates
  | initial (lacks : m.Lacks m.initial) : Violates m .initial (.initialUndefined m.initial.shown)
  | state {s : Nat} {name v : Value} (there : m.states[s]? = some (name, v))
      (other : Node.ofValue? v = none) :
      Violates m (.state s) (.notNode name.shown v.typeName)
  | on {s type c : Nat} {a : Aspect} {name event offered : Value} {n : Node} {cs : List Value}
      {p : Problem}
      (there : m.states[s]? = some (name, n.toValue)) (entry : n.on[type]? = some (event, offered))
      (items : offered.items = .ok cs)
      (spoils : m.SpoilsOne (name.text ++ ".on[" ++ event.shown ++ "]") cs c a p) :
      Violates m (.on s type c a) p
  | entry {s k : Nat} {name f : Value} {n : Node} (there : m.states[s]? = some (name, n.toValue))
      (action : n.entry[k]? = some f) (uncallable : f.isCallable = false) :
      Violates m (.entry s k) (.actionNotCallable (name.text ++ ".entry") f.shown)
  | exit {s k : Nat} {name f : Value} {n : Node} (there : m.states[s]? = some (name, n.toValue))
      (action : n.exit[k]? = some f) (uncallable : f.isCallable = false) :
      Violates m (.exit s k) (.actionNotCallable (name.text ++ ".exit") f.shown)
  | source {s : Nat} {name : Value} {n : Node} {i : Invocation}
      (there : m.states[s]? = some (name, n.toValue))
      (invoke : n.invoke = i.toValue) (uncallable : i.src.isCallable = false) :
      Violates m (.source s) (.sourceNotCallable (name.text ++ ".invoke"))
  | onDone {s c : Nat} {a : Aspect} {name : Value} {n : Node} {i : Invocation} {p : Problem}
      (there : m.states[s]? = some (name, n.toValue)) (invoke : n.invoke = i.toValue)
      (spoils : m.SpoilsOne (name.text ++ ".invoke.on_done") i.onDone c a p) :
      Violates m (.onDone s c a) p
  | onError {s c : Nat} {a : Aspect} {name : Value} {n : Node} {i : Invocation} {p : Problem}
      (there : m.states[s]? = some (name, n.toValue)) (invoke : n.invoke = i.toValue)
      (spoils : m.SpoilsOne (name.text ++ ".invoke.on_error") i.onError c a p) :
      Violates m (.onError s c a) p

/-! ### Findings in order -/

/-- The findings are those at the spots where the relation has one, in the order of the spots,
one for each. -/
def Lists (R : Spot → Problem → Prop) (found : List Problem) : Prop :=
  ∃ defects : List (Spot × Problem), found = defects.map Prod.snd ∧
    (∀ spot p, (spot, p) ∈ defects ↔ R spot p) ∧
    defects.Pairwise fun d d' => d.1.address < d'.1.address

/-- A part of the check finds what it has to. -/
def Finds (R : Spot → Problem → Prop) (x : Except Failure (List Problem)) : Prop :=
  ∃ found, x = .ok found ∧ Lists R found

/-- Whatever the first relation has stands before whatever the second has. -/
def Before (R R' : Spot → Problem → Prop) : Prop :=
  ∀ spot p spot' p', R spot p → R' spot' p' → spot.address < spot'.address

namespace Lists

variable {R R' : Spot → Problem → Prop} {found found' : List Problem}

theorem congr (h : Lists R found) (same : ∀ spot p, R spot p ↔ R' spot p) : Lists R' found := by
  obtain ⟨defects, eq, mem, sorted⟩ := h
  exact ⟨defects, eq, fun spot p => (mem spot p).trans (same spot p), sorted⟩

theorem nil (none : ∀ spot p, ¬ R spot p) : Lists R [] := by
  refine ⟨[], rfl, fun spot p => ?_, .nil⟩
  simp [none]

/-- One condition is looked at. -/
theorem one (c : Prop) [Decidable c] (spot : Spot) (p : Problem) :
    Lists (fun spot' p' => ¬ c ∧ spot' = spot ∧ p' = p) (if c then [] else [p]) := by
  split
  · exact .nil fun _ _ h => h.1 ‹c›
  · refine ⟨[(spot, p)], rfl, fun spot' p' => ?_, List.pairwise_singleton _ _⟩
    simp_all

theorem append (h : Lists R found) (h' : Lists R' found') (before : Before R R') :
    Lists (fun spot p => R spot p ∨ R' spot p) (found ++ found') := by
  obtain ⟨defects, rfl, mem, sorted⟩ := h
  obtain ⟨defects', rfl, mem', sorted'⟩ := h'
  refine ⟨defects ++ defects', by
    simp, fun spot p => ?_, List.pairwise_append.mpr ⟨sorted, sorted', ?_⟩⟩
  · rw [List.mem_append, mem, mem']
  · rintro ⟨spot, p⟩ hd ⟨spot', p'⟩ hd'
    exact before _ _ _ _ ((mem _ _).mp hd) ((mem' _ _).mp hd')

end Lists

/-- Checking one item after the other finds the defects of each, in the order of the items. -/
theorem Finds.each {α : Type} (xs : List α) {f : α → Except Failure (List Problem)}
    {R : Nat → α → Spot → Problem → Prop} (h : ∀ k v, xs[k]? = some v → Finds (R k v) (f v))
    (before : ∀ k l v v', k < l → Before (R k v) (R l v')) :
    ∃ founds, xs.mapM f = .ok founds ∧
    Lists (fun spot p => ∃ k v, xs[k]? = some v ∧ R k v spot p) founds.flatten := by
  induction xs generalizing R with
  | nil => exact ⟨[], rfl, .nil (by simp)⟩
  | cons x rest ih =>
    obtain ⟨first, hf, listed⟩ := h 0 x rfl
    obtain ⟨founds, hr, others⟩ :=
      ih (R := fun k => R (k + 1)) (fun k v there => h (k + 1) v there) fun k l v v' hk =>
      before (k + 1) (l + 1) v v' (by omega)
    refine ⟨first :: founds, by rw [List.mapM_cons, hf, hr]; rfl, ?_⟩
    rw [List.flatten_cons]
    refine (listed.append others ?_).congr fun spot p => ?_
    · rintro spot p spot' p' here ⟨k, v, -, there⟩
      exact before 0 (k + 1) x v (by omega) _ _ _ _ here there
    · constructor
      · rintro (here | ⟨k, v, there, hp⟩)
        · exact ⟨0, x, rfl, here⟩
        · exact ⟨k + 1, v, there, hp⟩
      · rintro ⟨_ | k, v, there, hp⟩
        · cases there
          exact .inl hp
        · exact .inr ⟨k, v, there, hp⟩

/-! ### Candidates -/

section Candidates

variable {m : Machine} (place : String)

/-- Actions are looked at one after the other. -/
theorem lists_actions (at' : Nat → Spot) (mono : ∀ k l, k < l → (at' k).address < (at' l).address)
    (actions : List Value) :
    Lists (fun spot p => ∃ k f, actions[k]? = some f ∧ f.isCallable = false ∧ spot = at' k ∧
      p = .actionNotCallable place f.shown) (actionProblems place actions) := by
  have flat : actionProblems place actions =
      (actions.map fun f => if f.isCallable =
        true then [] else [Problem.actionNotCallable place f.shown]).flatten := by
    induction actions with
    | nil => rfl
    | cons f rest ih =>
      rw [List.map_cons, List.flatten_cons, ← ih]
      unfold actionProblems
      cases hf : f.isCallable <;> simp [hf]
  obtain ⟨founds, hm, listed⟩ := Finds.each actions
    (f := fun f =>
      .ok (if f.isCallable = true then [] else [Problem.actionNotCallable place f.shown]))
    (R := fun k f spot p => ¬ f.isCallable = true ∧ spot = at' k ∧
      p = .actionNotCallable place f.shown)
    (fun k f _ => ⟨_, rfl, .one _ _ _⟩) fun k l f f' hk => by
      rintro _ _ _ _ ⟨-, rfl, -⟩ ⟨-, rfl, -⟩
      exact mono k l hk
  rw [flat]
  cases hm.symm.trans (List.mapM_pure (m := Except Failure))
  simpa using listed

theorem defines_eq {name : Value} (key : name.isKey = true) :
    ∃ defined, m.defines name = .ok defined ∧ (m.Lacks name ↔ ¬ defined = true) := by
  have checked : Value.checkKey name = .ok () := by
    unfold Value.checkKey
    rw [Option.isNone_iff_eq_none.mp key]
  refine ⟨Value.hasKey name m.states, ?_, ?_⟩
  · unfold defines Value.hasKeyChecked
    rw [checked]
    rfl
  · unfold Lacks Value.hasKey
    generalize m.states = states
    induction states with
    | nil => simp [Value.lookup]
    | cons entry rest ih =>
      obtain ⟨l, v⟩ := entry
      unfold Value.lookup
      cases hs : l.same name <;> simp_all

variable (at' : Aspect → Spot) {v : Value} {t : Transition}

theorem finds_target (this : Transition.ofValue? v = some t) (key : t.target.isKey = true) :
    Finds (fun spot p => spot = at' .target ∧ m.Spoils place v .target p)
      (m.targetProblems place t.target) := by
  unfold targetProblems
  cases null : t.target.isNull with
  | true =>
    refine ⟨[], rfl, .nil fun spot p h => ?_⟩
    obtain ⟨-, spoils⟩ := h
    cases spoils with
    | target this' present =>
      cases this.symm.trans this'
      exact present (Value.isNull_iff.mp null)
  | false =>
    have present : t.target ≠ .null := fun h => by rw [h] at null; cases null
    obtain ⟨defined, hd, lacks⟩ := defines_eq (m := m) key
    refine ⟨if defined = true then [] else [.targetUndefined place t.target.shown], by
      rw [hd]; rfl, ?_⟩
    refine (Lists.one _ (at' .target) _).congr fun spot p => ?_
    constructor
    · rintro ⟨undefined, rfl, rfl⟩
      exact ⟨rfl, .target this present (lacks.mpr undefined)⟩
    · rintro ⟨rfl, spoils⟩
      cases spoils with
      | target this' _ undefined =>
        cases this.symm.trans this'
        exact ⟨lacks.mp undefined, rfl, rfl⟩

theorem lists_guard (this : Transition.ofValue? v = some t) :
    Lists (fun spot p => spot = at' .guard ∧ m.Spoils place v .guard p)
      (guardProblems place t.guard) := by
  have fails : (¬ (t.guard.isNull || t.guard.isCallable) = true) ↔ t.guard ≠ .null ∧
      t.guard.isCallable = false := by
    rw [Bool.or_eq_true, not_or, Value.isNull_iff, Bool.not_eq_true]
  refine (Lists.one _ (at' .guard) _).congr fun spot p => ?_
  rw [fails]
  constructor
  · rintro ⟨⟨present, uncallable⟩, rfl, rfl⟩
    exact ⟨rfl, .guard this present uncallable⟩
  · rintro ⟨rfl, spoils⟩
    cases spoils with
    | guard this' present uncallable =>
      cases this.symm.trans this'
      exact ⟨⟨present, uncallable⟩, rfl, rfl⟩

/-- What is told of a candidate stands at the spots of the candidate, which follow the order of
its aspects. -/
theorem finds_candidate (aimed : v.Aimed)
    (mono : ∀ a b : Aspect, a.address < b.address → (at' a).address < (at' b).address) :
    Finds (fun spot p => ∃ a, spot = at' a ∧ m.Spoils place v a p)
      (m.candidateProblems place v) := by
  unfold candidateProblems
  cases this : Transition.ofValue? v with
  | none =>
    refine ⟨_, rfl, (Lists.one False (at' .sort) (.notTransition place v.typeName)).congr
      fun spot p => ?_⟩
    constructor
    · rintro ⟨-, rfl, rfl⟩
      exact ⟨_, rfl, .sort this⟩
    · rintro ⟨a, rfl, spoils⟩
      cases spoils with
      | sort => exact ⟨not_false, rfl, rfl⟩
      | target other | guard other | action other => cases this.symm.trans other
  | some t =>
    obtain ⟨found, ht, target⟩ := finds_target (m := m) place at' this (aimed t this)
    have guard := lists_guard (m := m) place at' this
    have actions := lists_actions place (fun k => at' (.action k))
      (fun k l hk => mono _ _ (by simpa [Aspect.address, List.cons_lt_cons_iff] using hk)) t.actions
    refine ⟨found ++ guardProblems place t.guard ++ actionProblems place t.actions, ?_,
      ((target.append guard ?_).append actions ?_).congr fun spot p => ?_⟩
    · simp only [ht]
      rfl
    · rintro _ _ _ _ ⟨rfl, -⟩ ⟨rfl, -⟩
      exact mono _ _ (by simp [Aspect.address, List.cons_lt_cons_iff])
    · rintro _ _ _ _ (⟨rfl, -⟩ | ⟨rfl, -⟩) ⟨k, f, -, -, rfl, -⟩ <;>
        exact mono _ _ (by simp [Aspect.address, List.cons_lt_cons_iff])
    · constructor
      · rintro ((⟨rfl, spoils⟩ | ⟨rfl, spoils⟩) | ⟨k, f, there, uncallable, rfl, rfl⟩)
        · exact ⟨_, rfl, spoils⟩
        · exact ⟨_, rfl, spoils⟩
        · exact ⟨_, rfl, .action this there uncallable⟩
      · rintro ⟨a, rfl, spoils⟩
        cases spoils with
        | sort other => cases this.symm.trans other
        | target this' present lacks => exact .inl (.inl ⟨rfl, .target this' present lacks⟩)
        | guard this' present uncallable => exact .inl (.inr ⟨rfl, .guard this' present uncallable⟩)
        | action this' there uncallable =>
          cases this.symm.trans this'
          exact .inr ⟨_, _, there, uncallable, rfl, rfl⟩

/-- The candidates are counted in one part of the address. -/
theorem finds_candidates {cs : List Value} (above : List Nat) (at' : Nat → Aspect → Spot)
    (address : ∀ c a, (at' c a).address = above ++ c :: a.address) (aimed : ∀ v ∈ cs, v.Aimed) :
    Finds (fun spot p => ∃ c a, spot = at' c a ∧ m.SpoilsOne place cs c a p)
      (m.candidatesProblems place cs) := by
  obtain ⟨founds, hm, listed⟩ := Finds.each cs (f := m.candidateProblems place)
    (R := fun c v spot p => ∃ a, spot = at' c a ∧ m.Spoils place v a p)
    (fun c v there => finds_candidate place (at' c) (aimed v (List.mem_of_getElem? there))
      fun a b hab => by
      rw [address, address]
      exact List.append_left_lt (List.cons_lt_cons_iff.mpr (.inr ⟨rfl, hab⟩)))
    fun c d v v' hcd => by
      rintro _ _ _ _ ⟨a, rfl, -⟩ ⟨b, rfl, -⟩
      rw [address, address]
      exact List.append_left_lt (List.cons_lt_cons_iff.mpr (.inl hcd))
  refine ⟨founds.flatten, ?_, listed.congr fun spot p => ?_⟩
  · unfold candidatesProblems
    rw [hm]
    rfl
  · constructor
    · rintro ⟨c, v, there, a, rfl, spoils⟩
      exact ⟨c, a, rfl, v, there, spoils⟩
    · rintro ⟨c, a, rfl, v, there, spoils⟩
      exact ⟨c, v, there, a, rfl, spoils⟩

end Candidates

/-! ### States -/

/-- The state that the spot belongs to. -/
def Spot.state? : Spot → Option Nat
  | states | initial => none
  | state s | on s .. | entry s _ | exit s _ | source s | onDone s .. | onError s .. => some s

theorem Spot.address_of_state? {spot : Spot} {s : Nat} (h : spot.state? = some s) :
    ∃ below, spot.address = 2 :: s :: below := by
  cases spot <;> cases h <;> exact ⟨_, rfl⟩

section States

variable {m : Machine} {s : Nat} {name : Value} {n : Node}

/-- What is wrong with the candidates of a node by event type. -/
theorem finds_on (name : Value) (legible : ∀ entry ∈ n.on, entry.2.Offers) :
    ∃ founds, n.on.mapM (m.onProblems name.text) = .ok founds ∧
    Lists (fun spot p => ∃ type event offered cs c a,
      n.on[type]? = some (event, offered) ∧ offered.items = .ok cs ∧ spot = .on s type c a ∧
        m.SpoilsOne (name.text ++ ".on[" ++ event.shown ++ "]") cs c a p) founds.flatten := by
  obtain ⟨founds, hm, listed⟩ := Finds.each n.on (f := m.onProblems name.text)
    (R := fun type entry spot p => ∃ cs c a, entry.2.items = .ok cs ∧ spot = .on s type c a ∧
      m.SpoilsOne (name.text ++ ".on[" ++ entry.1.shown ++ "]") cs c a p)
    (fun type entry there => by
      obtain ⟨cs, items, aimed⟩ := legible entry (List.mem_of_getElem? there)
      obtain ⟨found, hf, listed⟩ :=
        finds_candidates (m := m) (name.text ++ ".on[" ++ entry.1.shown ++ "]")
        [2, s, 0, type] (.on s type) (fun c a => rfl) aimed
      refine ⟨found, ?_, listed.congr fun spot p => ?_⟩
      · unfold onProblems
        rw [items]
        exact hf
      · constructor
        · rintro ⟨c, a, rfl, spoils⟩
          exact ⟨cs, c, a, items, rfl, spoils⟩
        · rintro ⟨cs', c, a, items', rfl, spoils⟩
          cases items.symm.trans items'
          exact ⟨c, a, rfl, spoils⟩)
    fun type type' entry entry' ht => by
      rintro _ _ _ _ ⟨cs, c, a, -, rfl, -⟩ ⟨cs', c', a', -, rfl, -⟩
      simp [Spot.address, List.cons_lt_cons_iff, ht]
  refine ⟨founds, hm, listed.congr fun spot p => ?_⟩
  constructor
  · rintro ⟨type, ⟨event, offered⟩, there, cs, c, a, items, rfl, spoils⟩
    exact ⟨type, event, offered, cs, c, a, there, items, rfl, spoils⟩
  · rintro ⟨type, event, offered, cs, c, a, there, items, rfl, spoils⟩
    exact ⟨type, (event, offered), there, cs, c, a, items, rfl, spoils⟩

/-- What is wrong with the invocation of a node, if it has one. -/
theorem finds_invoke (name : Value) (legible : n.invoke.Invokes)
    (invocation : n.invoke = .null ∨ ∃ i : Invocation, n.invoke = i.toValue) :
    Finds (fun spot p => ∃ i : Invocation, n.invoke = i.toValue ∧
      ((i.src.isCallable = false ∧ spot = .source s ∧
        p = .sourceNotCallable (name.text ++ ".invoke")) ∨
        (∃ c a, spot = .onDone s c a ∧
          m.SpoilsOne (name.text ++ ".invoke.on_done") i.onDone c a p) ∨
        ∃ c a, spot = .onError s c a ∧
        m.SpoilsOne (name.text ++ ".invoke.on_error") i.onError c a p))
      (m.invokeProblems name.text n.invoke) := by
  rcases invocation with null | ⟨i, this⟩
  · refine ⟨[], by rw [null]; rfl, .nil fun spot p => ?_⟩
    rintro ⟨i, this, -⟩
    cases null.symm.trans this
  · rw [this] at legible
    obtain ⟨done, failed⟩ := legible.toValue
    have source :=
      Lists.one (i.src.isCallable = true) (.source s) (.sourceNotCallable (name.text ++ ".invoke"))
    obtain ⟨found, hd, listed⟩ := finds_candidates (m := m) (name.text ++ ".invoke.on_done")
      [2, s, 4] (.onDone s) (fun c a => rfl) done
    obtain ⟨found', he, listed'⟩ := finds_candidates (m := m) (name.text ++ ".invoke.on_error")
      [2, s, 5] (.onError s) (fun c a => rfl) failed
    refine ⟨_, by
      rw [this, invokeProblems_toValue, hd, he]; rfl,
        ((source.append listed ?_).append listed' ?_).congr fun spot p => ?_⟩
    · rintro _ _ _ _ ⟨-, rfl, -⟩ ⟨c, a, rfl, -⟩
      simp [Spot.address, List.cons_lt_cons_iff]
    · rintro _ _ _ _ (⟨-, rfl, -⟩ | ⟨c, a, rfl, -⟩)
        ⟨c', a', rfl, -⟩ <;> simp [Spot.address, List.cons_lt_cons_iff]
    · rw [or_assoc, Bool.not_eq_true]
      constructor
      · exact fun found => ⟨i, this, found⟩
      · rintro ⟨i', this', found⟩
        cases Invocation.toValue_inj (this.symm.trans this')
        exact found

/-- All that may be violated under a name with a node. -/
theorem violates_node_iff (there : m.states[s]? = some (name, n.toValue)) {spot : Spot}
    {p : Problem} :
    spot.state? = some s ∧ m.Violates spot p ↔
      (((∃ type event offered cs c a, n.on[type]? = some (event, offered) ∧ offered.items = .ok cs ∧
          spot = .on s type c a ∧
          m.SpoilsOne (name.text ++ ".on[" ++ event.shown ++ "]") cs c a p) ∨
        ∃ k f, n.entry[k]? = some f ∧ f.isCallable = false ∧ spot = .entry s k ∧
          p = .actionNotCallable (name.text ++ ".entry") f.shown) ∨
        ∃ k f, n.exit[k]? = some f ∧ f.isCallable = false ∧ spot = .exit s k ∧
          p = .actionNotCallable (name.text ++ ".exit") f.shown) ∨
        ∃ i : Invocation, n.invoke = i.toValue ∧
          ((i.src.isCallable = false ∧ spot = .source s ∧
            p = .sourceNotCallable (name.text ++ ".invoke")) ∨
            (∃ c a, spot = .onDone s c a ∧
              m.SpoilsOne (name.text ++ ".invoke.on_done") i.onDone c a p) ∨
            ∃ c a, spot = .onError s c a ∧
            m.SpoilsOne (name.text ++ ".invoke.on_error") i.onError c a p) := by
  have here {n' : Node} {name' : Value} (there' : m.states[s]? = some (name', n'.toValue)) :
      name' = name ∧ n' = n := by
    obtain ⟨rfl, same⟩ := Prod.mk.inj (Option.some.inj (there.symm.trans there'))
    exact ⟨rfl, (Node.toValue_inj same).symm⟩
  constructor
  · rintro ⟨this, violates⟩
    cases violates with
    | states | initial => cases this
    | state there' other =>
      cases this
      cases there.symm.trans there'
      cases other
    | on there' at' items spoils =>
      cases this
      obtain ⟨rfl, rfl⟩ := here there'
      exact .inl (.inl (.inl ⟨_, _, _, _, _, _, at', items, rfl, spoils⟩))
    | entry there' at' uncallable =>
      cases this
      obtain ⟨rfl, rfl⟩ := here there'
      exact .inl (.inl (.inr ⟨_, _, at', uncallable, rfl, rfl⟩))
    | exit there' at' uncallable =>
      cases this
      obtain ⟨rfl, rfl⟩ := here there'
      exact .inl (.inr ⟨_, _, at', uncallable, rfl, rfl⟩)
    | source there' invoke uncallable =>
      cases this
      obtain ⟨rfl, rfl⟩ := here there'
      exact .inr ⟨_, invoke, .inl ⟨uncallable, rfl, rfl⟩⟩
    | onDone there' invoke spoils =>
      cases this
      obtain ⟨rfl, rfl⟩ := here there'
      exact .inr ⟨_, invoke, .inr (.inl ⟨_, _, rfl, spoils⟩)⟩
    | onError there' invoke spoils =>
      cases this
      obtain ⟨rfl, rfl⟩ := here there'
      exact .inr ⟨_, invoke, .inr (.inr ⟨_, _, rfl, spoils⟩)⟩
  · rintro (((⟨type, event, offered, cs, c, a, at', items, rfl, spoils⟩ | ⟨k, f, at', uncallable,
      rfl, rfl⟩) | ⟨k, f, at', uncallable, rfl, rfl⟩) | ⟨i, invoke,
      ⟨uncallable, rfl, rfl⟩ | ⟨c, a, rfl, spoils⟩ | ⟨c, a, rfl, spoils⟩⟩)
    · exact ⟨rfl, .on there at' items spoils⟩
    · exact ⟨rfl, .entry there at' uncallable⟩
    · exact ⟨rfl, .exit there at' uncallable⟩
    · exact ⟨rfl, .source there invoke uncallable⟩
    · exact ⟨rfl, .onDone there invoke spoils⟩
    · exact ⟨rfl, .onError there invoke spoils⟩

/-- What is wrong with a node. -/
theorem finds_node (there : m.states[s]? = some (name, n.toValue)) (legible : n.Legible)
    (invocation : n.invoke = .null ∨ ∃ i : Invocation, n.invoke = i.toValue) :
    Finds (fun spot p => spot.state? = some s ∧ m.Violates spot p)
      (m.nodeProblems name.text n) := by
  obtain ⟨on, hon, offered⟩ := finds_on (m := m) (s := s) name legible.on
  obtain ⟨invoke, hi, invoked⟩ := finds_invoke (m := m) (s := s) name legible.invoke invocation
  have entry := lists_actions (name.text ++ ".entry") (.entry s)
    (fun k l hk => by simpa [Spot.address, List.cons_lt_cons_iff] using hk) n.entry
  have exit := lists_actions (name.text ++ ".exit") (.exit s)
    (fun k l hk => by simpa [Spot.address, List.cons_lt_cons_iff] using hk) n.exit
  refine ⟨on.flatten ++ actionProblems (name.text ++ ".entry") n.entry ++
    actionProblems (name.text ++ ".exit") n.exit ++
    invoke, ?_, (((offered.append entry ?_).append exit ?_).append invoked ?_).congr fun spot p =>
      (violates_node_iff there).symm⟩
  · simp only [nodeProblems, hon, hi]
    rfl
  · rintro _ _ _ _ ⟨type, event, offered, cs, c, a, -, -, rfl, -⟩ ⟨k, f, -, -, rfl, -⟩
    simp [Spot.address, List.cons_lt_cons_iff]
  · rintro _ _ _ _ (⟨type, event, offered, cs, c, a, -, -, rfl, -⟩ | ⟨k, f, -, -, rfl, -⟩)
      ⟨l, f', -, -, rfl, -⟩ <;>
      simp [Spot.address, List.cons_lt_cons_iff]
  · rintro _ _ _ _
      ((⟨type, event, offered, cs, c, a, -, -, rfl, -⟩ | ⟨k, f, -, -, rfl, -⟩) | ⟨k, f,
        -, -, rfl, -⟩)
      ⟨i, -, ⟨-, rfl, -⟩ | ⟨c', a', rfl, -⟩ | ⟨c', a', rfl, -⟩⟩ <;> simp [Spot.address,
        List.cons_lt_cons_iff]

/-- What is wrong under one name. -/
theorem finds_state {v : Value} (there : m.states[s]? = some (name, v))
    (legible : ∀ n, Node.ofValue? v = some n → n.Legible)
    (invocation : ∀ n, Node.ofValue? v = some n → n.invoke = .null ∨ ∃ i : Invocation, n.invoke =
      i.toValue) :
    Finds (fun spot p => spot.state? = some s ∧ m.Violates spot p) (m.stateProblems (name, v)) := by
  unfold stateProblems
  cases this : Node.ofValue? v with
  | none =>
    -- Where there is no node, nothing is told of one.
    have alone {n : Node} {name' : Value} (there' : m.states[s]? = some (name', n.toValue)) :
        False := by
      cases there.symm.trans there'
      cases this
    refine ⟨_, rfl, (Lists.one False (.state s) (.notNode name.shown v.typeName)).congr
      fun spot p => ?_⟩
    constructor
    · rintro ⟨-, rfl, rfl⟩
      exact ⟨rfl, .state there this⟩
    · rintro ⟨here, violates⟩
      cases violates with
      | states | initial => cases here
      | state there' other =>
        cases here
        cases there.symm.trans there'
        exact ⟨not_false, rfl, rfl⟩
      | on there' | entry there' | exit there' | source there' | onDone there' | onError there' =>
        cases here
        exact (alone there').elim
  | some n =>
    cases Node.toValue_of_ofValue? this
    exact finds_node there (legible n this) (invocation n this)

/-- What is wrong with the definition: of the whole first, then of the states in order. -/
theorem finds_problems (legible : m.Legible)
    (invocations : ∀ entry ∈ m.states, ∀ n, Node.ofValue? entry.2 = some n →
    n.invoke = .null ∨ ∃ i : Invocation, n.invoke = i.toValue) : Finds m.Violates m.problems := by
  obtain ⟨founds, hm, listed⟩ := Finds.each m.states (f := m.stateProblems)
    (R := fun s _ spot p => spot.state? = some s ∧ m.Violates spot p)
    (fun s entry there => finds_state there (legible.nodes entry (List.mem_of_getElem? there))
      (invocations entry (List.mem_of_getElem? there)))
    fun s s' _ _ hs => by
      rintro spot _ spot' _ ⟨here, -⟩ ⟨there, -⟩
      obtain ⟨below, this⟩ := Spot.address_of_state? here
      obtain ⟨below', that⟩ := Spot.address_of_state? there
      rw [this, that]
      simp [List.cons_lt_cons_iff, hs]
  obtain ⟨defined, hd, lacks⟩ := defines_eq legible.initial
  have empty : Lists (fun spot p => m.states = [] ∧ spot = .states ∧ p = .noStates)
      (if m.states.isEmpty then [.noStates] else []) := by
    have one := Lists.one (¬ m.states = []) .states .noStates
    simpa [List.isEmpty_iff] using one
  have initial := Lists.one (defined = true) .initial (.initialUndefined m.initial.shown)
  refine ⟨_, by
    rw [problems, hd, hm]; rfl, ((empty.append initial ?_).append listed ?_).congr fun spot p => ?_⟩
  · rintro _ _ _ _ ⟨-, rfl, -⟩ ⟨-, rfl, -⟩
    simp [Spot.address, List.cons_lt_cons_iff]
  · rintro _ _ spot _ (⟨-, rfl, -⟩ | ⟨-, rfl, -⟩) ⟨s, entry, -, here, -⟩ <;>
    · obtain ⟨below, this⟩ := Spot.address_of_state? here
      rw [this]
      simp [Spot.address, List.cons_lt_cons_iff]
  · constructor
    · rintro ((⟨none, rfl, rfl⟩ | ⟨undefined, rfl, rfl⟩) | ⟨s, entry, there, here, violates⟩)
      · exact .states none
      · exact .initial (lacks.mpr undefined)
      · exact violates
    · intro violates
      cases violates with
      | states none => exact .inl (.inl ⟨none, rfl, rfl⟩)
      | initial absent => exact .inl (.inr ⟨lacks.mp absent, rfl, rfl⟩)
      | state there other => exact .inr ⟨_, _, there, rfl, .state there other⟩
      | on there at' items spoils => exact .inr ⟨_, _, there, rfl, .on there at' items spoils⟩
      | entry there at' uncallable => exact .inr ⟨_, _, there, rfl, .entry there at' uncallable⟩
      | exit there at' uncallable => exact .inr ⟨_, _, there, rfl, .exit there at' uncallable⟩
      | source there invoke uncallable =>
        exact .inr ⟨_, _, there, rfl, .source there invoke uncallable⟩
      | onDone there invoke spoils => exact .inr ⟨_, _, there, rfl, .onDone there invoke spoils⟩
      | onError there invoke spoils => exact .inr ⟨_, _, there, rfl, .onError there invoke spoils⟩

end States

end Machine
end FlatMachine
