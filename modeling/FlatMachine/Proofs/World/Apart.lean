import FlatMachine.Proofs.Service.Alongside
import FlatMachine.Proofs.World.Advances

/-! # A service in two worlds, with others and without

What concerns a service are its entry among the services, its awaitables, what waits in the event
loop because of them, its subscriptions and what it wrote.  **`World.Shares`** relates a world in
which several services are at work to one in which all this is the same for one of them and
nothing concerns others, except for what was there when they parted (**`Ground`**).

**`World.Move`** lists in which ways a service changes the world.  A move of the service is made
in both worlds (**`World.Move.own`**), and a move of another one in the first world only
(**`World.Move.other`**). -/

namespace FlatMachine

/-- What is agreed on before services part: which callback a listener of a name has, which names
are known already, and which subscriptions have been made. -/
structure Ground where
  callback : String → Option Value
  known : List String
  subscriptions : List (Nat × Listener)

/-- The listener of a name. -/
def Ground.listener (G : Ground) (name : String) : Listener := ⟨name, G.callback name⟩

/-- A callback that may be given with a name; it does not count if the name is known already. -/
def Ground.Allows (G : Ground) (name : String) (callback : Option Value) : Prop :=
  callback = G.callback name ∨ name ∈ G.known

/-- The listeners are those that their names stand for, the known ones among them. -/
structure Ground.Names (G : Ground) (listeners : List Listener) : Prop where
  meant : ∀ listener ∈ listeners, listener = G.listener listener.name
  known : ∀ name ∈ G.known, ∃ listener ∈ listeners, listener.name = name

/-- What waits for its turn does so because of the awaitable. -/
def Ready.awaitable : Ready → AwaitableId
  | step a .. | complete _ a => a

/-- What is ready waits on behalf of the service. -/
def Ready.Of (k : Nat) : Ready → Prop
  | step a .. => a.1 = .service k
  | complete waiter a => a.1 = .service k ∧ waiter.service = k

theorem Ready.Of.owner {k : Nat} {r : Ready} (h : r.Of k) : r.awaitable.1 = .service k := by
  cases r with
  | step a pauses body args => exact h
  | complete waiter a => exact h.1

/-- Those who wait for the awaitable do so on behalf of the service. -/
def Awaitable.Of (k : Nat) : Awaitable → Prop
  | coroutine .. => True
  | future _ waiters => ∀ waiter ∈ waiters, waiter.service = k

/-- The service did it. -/
def Entry.isBy (i : Nat) (e : Entry) : Bool := e.owner? == some (.service i)

/-- Whoever waits for an awaitable of a service does so on behalf of that service. -/
def World.Tidy (w : World) : Prop := ∀ k n x, w.awaitables.lookup (.service k, n) = some x → x.Of k

/-- What concerns the service is the same in both worlds, and nothing in the second world
concerns another one that was not agreed on before. -/
structure World.Shares (G : Ground) (i : Nat) (w v : World) : Prop where
  there : i < w.services.length
  service : w.services[i]? = v.services[i]?
  awaitables : ∀ n, w.awaitables.lookup (.service i, n) = v.awaitables.lookup (.service i, n)
  ready : v.ready = w.ready.filter fun r => decide (r.awaitable.1 = .service i)
  futures : v.futures = w.futures.filter fun a => decide (a.1 = .service i)
  subscriptions : ∃ later, w.subscriptions = G.subscriptions ++ later ∧
    v.subscriptions = G.subscriptions ++ later.filter fun p => decide (p.1 = i)
  journal : v.journal.filter (Entry.isBy i) = w.journal.filter (Entry.isBy i)
  names : G.Names w.listeners ∧ G.Names v.listeners
  awaited : w.Tidy
  turns : ∀ r ∈ w.ready, ∃ k, r.Of k
  made : ∀ a ∈ w.futures, ∃ k, a.1 = Owner.service k

/-- What a service does to the world, piece by piece. -/
inductive World.Move (k : Nat) : (World → World) → Prop where
  | change (f : Service → Service) : Move k (·.change k f)
  | note (e : Entry) (own : e.Of k) : Move k (·.noted e)
  | source (t : Token) : Move k fun w => { w with sourceCalls := w.sourceCalls ++ [(k, t)] }
  | set (n : Nat) (x : Awaitable) (own : x.Of k) : Move k (·.setAwaitable (.service k, n) x)
  | make (n : Nat) (x : Awaitable) (own : x.Of k) :
      Move k fun w => { w with awaitables := w.awaitables ++ [((.service k, n), x)] }
  | future (n : Nat) : Move k fun w => { w with futures := w.futures ++ [(.service k, n)] }
  | queue (rs : List Ready) (own : ∀ r ∈ rs, r.Of k) : Move k fun w =>
    { w with ready := w.ready ++ rs }
  | subscribe (listener : Listener) : Move k fun w =>
    { w with subscriptions := w.subscriptions ++ [(k, listener)] }

namespace World.Move

variable {G : Ground} {i k : Nat} {m : World → World} {w v : World}

/-- Nobody but the event loop itself says whether it runs. -/
theorem looping (h : Move k m) (w : World) : (m w).looping = w.looping := by cases h <;> rfl

/-- A tidy world stays so when an awaitable is set whose waiters are those of its service. -/
theorem awaited_set (h : w.Tidy) {n : Nat} {x : Awaitable} (own : x.Of k) :
    (w.setAwaitable (.service k, n) x).Tidy := by
  intro k' n' x' found
  rw [lookup_setAwaitable] at found
  split at found
  · rename_i same
    obtain ⟨rfl, rfl⟩ : k' = k ∧ n' = n := by simpa using same
    obtain ⟨_, -, rfl⟩ := Option.map_eq_some_iff.mp found
    exact own
  · exact h k' n' x' found

/-- A tidy world stays so when an awaitable is made whose waiters are those of its service. -/
theorem awaited_make (h : w.Tidy) {n : Nat} {x : Awaitable} (own : x.Of k) :
    World.Tidy { w with awaitables := w.awaitables ++ [((.service k, n), x)] } := by
  intro k' n' x' found
  change (w.awaitables ++ [((Owner.service k, n), x)]).lookup (.service k', n') = some x' at found
  rw [List.lookup_append] at found
  cases old : w.awaitables.lookup (.service k', n') with
  | some y =>
    rw [old] at found
    exact h k' n' x' (old.trans found)
  | none =>
    rw [old, Option.none_or, List.lookup_cons] at found
    split at found
    · rename_i same
      obtain ⟨rfl, rfl⟩ : k' = k ∧ n' = n := by simpa using same
      exact Option.some.inj found ▸ own
    · cases found

/-- A move of the service is made in both worlds. -/
theorem own (h : Move i m) (shares : w.Shares G i v) : (m w).Shares G i (m v) := by
  cases h with
  | change f =>
    refine { shares with there := ?_, service := ?_ }
    · exact (List.length_modify f w.services i).symm ▸ shares.there
    · rw [change_services, change_services, shares.service]
  | note e own =>
    refine { shares with journal := ?_ }
    show List.filter _ (e :: v.journal) = List.filter _ (e :: w.journal)
    rw [List.filter_cons, List.filter_cons, shares.journal]
  | source t => exact { shares with }
  | set n x own =>
    refine { shares with awaitables := fun n' => ?_, awaited := awaited_set shares.awaited own }
    rw [lookup_setAwaitable, lookup_setAwaitable, shares.awaitables]
  | make n x own =>
    refine { shares with awaitables := fun n' => ?_, awaited := awaited_make shares.awaited own }
    rw [List.lookup_append, List.lookup_append, shares.awaitables]
  | future n =>
    refine { shares with futures := ?_, made := fun a mem => ?_ }
    · rw [List.filter_append, ← shares.futures, List.filter_cons_of_pos (by simp)]
      rfl
    · obtain mem | mem := List.mem_append.mp mem
      · exact shares.made a mem
      · exact ⟨i, by rw [List.mem_singleton.mp mem]⟩
  | queue rs own =>
    refine { shares with ready := ?_, turns := fun r mem => ?_ }
    · have all : rs.filter (fun r => decide (r.awaitable.1 = .service i)) = rs :=
        List.filter_eq_self.mpr fun r mem => decide_eq_true (own r mem).owner
      rw [List.filter_append, ← shares.ready, all]
    · exact (List.mem_append.mp mem).elim (shares.turns r) fun mem => ⟨i, own r mem⟩
  | subscribe listener =>
    obtain ⟨later, hw, hv⟩ := shares.subscriptions
    refine { shares with subscriptions := ⟨later ++ [(i, listener)], ?_, ?_⟩ }
    · show w.subscriptions ++ [(i, listener)] = _
      rw [hw, List.append_assoc]
    · show v.subscriptions ++ [(i, listener)] = _
      rw [hv, List.filter_append, List.append_assoc, List.filter_cons_of_pos (by simp)]
      rfl

/-- A move of another one makes no difference. -/
theorem other (h : Move k m) (hk : k ≠ i) (shares : w.Shares G i v) : (m w).Shares G i v := by
  cases h with
  | change f =>
    refine { shares with there := ?_, service := ?_ }
    · exact (List.length_modify f w.services k).symm ▸ shares.there
    · rw [change_ne w f hk, shares.service]
  | note e own =>
    refine { shares with journal := ?_ }
    have foreign : ¬ e.isBy i = true :=
      fun by_ => hk (Owner.service.inj (own _ (eq_of_beq by_))).symm
    show _ = List.filter _ (e :: w.journal)
    rw [List.filter_cons_of_neg foreign, shares.journal]
  | source t => exact { shares with }
  | set n x own =>
    refine { shares with awaitables := fun n' => ?_, awaited := awaited_set shares.awaited own }
    rw [lookup_setAwaitable, if_neg (by simpa using fun same => absurd same.symm hk),
      shares.awaitables]
  | make n x own =>
    refine { shares with awaitables := fun n' => ?_, awaited := awaited_make shares.awaited own }
    have foreign : ((Owner.service i, n') == (.service k, n)) = false := by
      simpa using fun same => absurd same.symm hk
    rw [List.lookup_append, List.lookup_cons, foreign, ← shares.awaitables]
    exact Option.or_none
  | future n =>
    refine { shares with futures := ?_, made := fun a mem => ?_ }
    · rw [List.filter_append, ← shares.futures, List.filter_cons_of_neg (by simpa using hk)]
      exact (List.append_nil _).symm
    · obtain mem | mem := List.mem_append.mp mem
      · exact shares.made a mem
      · exact ⟨k, by rw [List.mem_singleton.mp mem]⟩
  | queue rs own =>
    refine { shares with ready := ?_, turns := fun r mem => ?_ }
    · have none : rs.filter (fun r => decide (r.awaitable.1 = .service i)) = [] :=
        List.filter_eq_nil_iff.mpr fun r mem => by simpa [(own r mem).owner] using hk
      rw [List.filter_append, ← shares.ready, none, List.append_nil]
    · exact (List.mem_append.mp mem).elim (shares.turns r) fun mem => ⟨k, own r mem⟩
  | subscribe listener =>
    obtain ⟨later, hw, hv⟩ := shares.subscriptions
    refine { shares with subscriptions := ⟨later ++ [(k, listener)], ?_, ?_⟩ }
    · show w.subscriptions ++ [(k, listener)] = _
      rw [hw, List.append_assoc]
    · rw [hv, List.filter_append, List.filter_cons_of_neg (by simpa using hk), List.filter_nil,
        List.append_nil]

end World.Move
end FlatMachine
