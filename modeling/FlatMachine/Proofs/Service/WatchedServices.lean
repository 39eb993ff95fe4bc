import FlatMachine.Proofs.Service.Alongside
import FlatMachine.Proofs.World.Advances
import FlatMachine.Proofs.World.Meets

/-! # What an assertion about some services outlasts

Callbacks may do to a service whatever they can ask for, and to other services as well.  An
assertion about some services **watches** them (**`Engine.Watches`**) if it outlasts all that
does not concern them, and what callbacks may ask them for.  What else callbacks do makes no
difference then, however far their calls of other services go.

What a callback may ask for can be restricted (**`Prog.Asks`**).  If a callback is called that
may ask for more, nothing is claimed from there on: the assertion is a bond of the world with
itself (**`Bond.alone`**), which a journal with such a call puts an end to.

* **`Engine.Watches.exec`**: so a program keeps to the bond, if it asks for what is allowed.
* **`Engine.watches_ofBook`**: so do all callbacks of a book, by induction on the fuel. -/

namespace FlatMachine

/-! ### What is allowed -/

/-- The effect may concern the service in a way that is not the same for all services. -/
def Effect.Concerns (i : Nat) : Effect → Prop
  | .send owner _ => owner = .service i
  | .start j | .stop j | .cancelInvocation j _ | .subscribe j _ => j = i
  | .unsubscribe _ => True
  | _ => False

/-- Whatever the replies are, the program asks for what is allowed only. -/
def Prog.Asks {α : Type} (allowed : Effect → Prop) : Prog α → Prop
  | .done _ | .fail _ => True
  | .pending next => ∀ c, (next c).Asks allowed
  | .write _ next => next.Asks allowed
  | .ask r next => allowed r ∧ ∀ x, (next x).Asks allowed
  | .handle r next => allowed r ∧ ∀ x, (next x).Asks allowed

/-- Every program asks only for what is allowed, if everything is allowed. -/
theorem Prog.asks_any {α : Type} (p : Prog α) : p.Asks fun _ => True := by
  induction p with
  | done | fail => trivial
  | pending next ih => exact ih
  | write o next ih => exact ih
  | ask r next ih => exact ⟨trivial, ih⟩
  | handle r next ih => exact ⟨trivial, ih⟩

/-- Whatever has a callback called, the service has no part in it. -/
def Role.isLoose : Role → Bool
  | nested | body => true
  | _ => false

/-- The service which the entry is about, unless it may be written on anybody's account: what is
logged and accepted, what a callback or the event loop calls, and what the definition lacks. -/
def Entry.concern? : Entry → Option Nat
  | called (.service i) role .. => if role.isLoose then none else some i
  | notified i .. | taken i _ | exited i _ | moved i .. | activated i .. | attached i .. | retired i
    _ | revoked i _
  | cancelled i _ | published i _ | began i | ended i _ => some i
  | _ => none

theorem Entry.concern?_called {owner : Owner} {role : Role} {f : Value}
    {args : List Object} {i : Nat} :
    (called owner role f args).concern? = some i ↔ owner = .service i ∧ role.isLoose = false := by
  cases owner with
  | bench => exact ⟨nofun, fun h => nomatch h.1⟩
  | service j =>
    show (if role.isLoose = true then none else some j) = some i ↔ _
    cases role.isLoose <;> simp

theorem Entry.owner?_of_concern? {e : Entry} {i : Nat} (h : e.concern? = some i) :
    e.owner? = some (.service i) := by
  cases e with
  | called owner role f args => exact congrArg some (concern?_called.mp h).1
  | _ => cases h <;> rfl

/-! ### What is beside the services -/

namespace World

/-- Somebody waits for the awaitable, settled or not. -/
def Waits (w : World) (waiter : Waiter) (a : AwaitableId) : Prop :=
  ∃ settled waiters, w.awaitables.lookup a = some (.future settled waiters) ∧ waiter ∈ waiters

/-- Nothing happened to a service, nothing was written, and nobody began to wait. -/
structure Sideways (w w' : World) : Prop where
  services : w'.services = w.services
  journal : w'.journal = w.journal
  points : w'.points = w.points
  settings : w'.settings = w.settings
  waits : ∀ {waiter a}, w'.Waits waiter a → w.Waits waiter a

namespace Sideways

variable {w w' : World} {a : AwaitableId}

theorem plain (services : w'.services = w.services) (journal : w'.journal = w.journal)
    (points : w'.points = w.points) (settings : w'.settings = w.settings)
    (awaitables : w'.awaitables = w.awaitables) : w.Sideways w' :=
  ⟨services, journal, points, settings, fun h => by unfold Waits; rwa [← awaitables]⟩

theorem refl (w : World) : w.Sideways w := plain rfl rfl rfl rfl rfl

/-- An awaitable that nobody waits for is made. -/
theorem added {x : Awaitable}
    (fresh : ∀ settled waiters, x = .future settled waiters → waiters = []) :
    w.Sideways { w with awaitables := w.awaitables ++ [(a, x)] } := by
  refine ⟨rfl, rfl, rfl, rfl, fun {waiter b} ⟨settled, waiters, found, mem⟩ => ?_⟩
  change (w.awaitables ++ [(a, x)]).lookup b = _ at found
  rw [List.lookup_append] at found
  cases before : w.awaitables.lookup b with
  | some y =>
    rw [before] at found
    exact ⟨settled, waiters, before.trans found, mem⟩
  | none =>
    rw [before, Option.none_or, List.lookup_cons] at found
    split at found
    · rw [fresh settled waiters (Option.some.inj found)] at mem
      cases mem
    · cases found

/-- An awaitable became another one, for which nobody waits who did not wait for it before. -/
theorem set {x y : Awaitable} {ready : List Ready} (found : w.awaitables.lookup a = some x)
    (fewer : ∀ settled waiters, y = .future settled waiters → ∀ waiter ∈ waiters,
      w.Waits waiter a) :
    w.Sideways { w.setAwaitable a y with ready } := by
  refine ⟨rfl, rfl, rfl, rfl, fun {waiter b} ⟨settled, waiters, found', mem⟩ => ?_⟩
  change (w.setAwaitable a y).awaitables.lookup b = _ at found'
  rw [lookup_setAwaitable] at found'
  split at found'
  · rename_i same
    subst same
    rw [found] at found'
    exact fewer settled waiters (Option.some.inj found') waiter mem
  · exact ⟨settled, waiters, found', mem⟩

theorem settleAwaitable (w : World) (a : AwaitableId) (settlement : Settlement) :
    w.Sideways ((Run.settleAwaitable a settlement).run w).2 := by
  unfold Run.settleAwaitable
  rw [Run.run_bind, Run.run_get]
  dsimp only
  cases found : w.awaitables.lookup a with
  | none => exact .refl w
  | some x =>
    obtain _ | ⟨_ | settled, waiters⟩ := x
    · exact .refl w
    · refine .set found ?_
      rintro settled waiters' ⟨⟩ waiter mem
      exact ⟨none, waiters, found, mem⟩
    · exact .refl w

theorem schedule (w : World) (i : Nat) (a : AwaitableId) :
    w.Sideways ((Run.schedule i a).run w).2 := by
  unfold Run.schedule
  rw [Run.run_bind]
  cases hs : w.services[i]? with
  | none => rw [Run.run_service_none hs]; exact .refl w
  | some s =>
    rw [Run.run_service hs]
    dsimp only
    rw [Run.run_bind, Run.run_get]
    dsimp only
    split
    · cases found : w.awaitables.lookup a with
      | none => exact .refl w
      | some x =>
        obtain ⟨pauses, body, args⟩ | _ := x
        · refine .set found ?_
          rintro settled waiters ⟨⟩ waiter mem
          cases mem
        · exact .refl w
    · exact .refl w

theorem listenerNamed (w : World) (name : String) (callback : Option Value) :
    w.Sideways ((Run.listenerNamed name callback).run w).2 := by
  unfold Run.listenerNamed
  rw [Run.run_bind, Run.run_get]
  dsimp only
  cases w.listeners.find? (·.name = name) with
  | some listener => exact .refl w
  | none => exact .plain rfl rfl rfl rfl rfl

end Sideways

end World

/-! ### One world alone -/

/-- A world is tied to itself as long as an assertion holds of it. -/
def Bond.alone (K : World → Prop) (spent : List Entry → Prop)
    (rise : ∀ {e journal}, spent journal → spent (e :: journal)) :
    Bond where
  ties w v := v = w ∧ K w
  spent := spent
  rise := rise

section Alone

open Run

variable {K : World → Prop} {spent : List Entry → Prop}
  {rise : ∀ {e journal}, spent journal → spent (e :: journal)} {α : Type} {x : Run α}

theorem Run.Matches.alone {φ : World → Prop} (grows : x.Grows)
    (h : ∀ w, K w → φ w → K (x.run w).2) :
    Matches (Bond.alone K spent rise) (fun w v => (Bond.alone K spent rise).ties w v ∧ φ w) x
      fun _ => (Bond.alone K spent rise).ties := by
  refine ⟨grows, fun w v hw => .inr ?_⟩
  obtain ⟨⟨rfl, hw⟩, also⟩ := hw
  have kept := h v hw also
  generalize x.run v = out at kept
  obtain ⟨halt | a, v'⟩ := out
  · exact .error ⟨rfl, kept⟩
  · exact .ok ⟨rfl, kept⟩

theorem Run.Mirrors.alone (grows : x.Grows) (h : Respects K x) :
    Mirrors (Bond.alone K spent rise) x :=
  (Matches.alone (φ := fun _ => True) grows fun _ hw _ => h.run hw).pre fun _ _ hw => ⟨hw, trivial⟩

/-- The assertion holds when the computation is done, or it put an end to the bond. -/
theorem Run.Mirrors.keeps (h : Mirrors (Bond.alone K spent rise) x) {w : World} (hw : K w) :
    spent (x.run w).2.journal ∨ K (x.run w).2 := by
  refine (h.either w w ⟨rfl, hw⟩).imp id fun alike => ?_
  generalize x.run w = out at alike
  cases alike with
  | ok tied => exact tied.2
  | error tied => exact tied.2

end Alone

/-! ### Watching services -/

namespace Engine

open Run

/-- The assertion outlasts what does not concern the services it is about, and what they may be
asked for. -/
structure Watches (g : Engine) (own : Nat → Prop) (allowed : Effect → Prop)
    (K : World → Prop) : Prop where
  aside : ∀ {w w'}, w.Sideways w' → K w → K w'
  waits : ∀ {w i t e} a, g.Launched i t e a w → K w → K ((whenSettled a ⟨i, t, e⟩).run w).2
  noted : ∀ {w e}, (∀ i, own i → e.concern? ≠ some i) → K w → K (w.noted e)
  others : ∀ {w j f}, ¬ own j → K w → K (w.change j f)
  supplied : ∀ {w i} n, own i → K w → K (w.change i fun s => { s with supply := n })
  asked : ∀ {i} owner r, own i → r.Concerns i → allowed r → Respects K (g.answer owner r)

namespace Watches

variable {book : Book} {n : Nat} {own : Nat → Prop} {allowed : Effect → Prop} {K : World → Prop}
  {spent : List Entry → Prop} {rise : ∀ {e journal}, spent journal → spent (e :: journal)}

theorem sideways {g : Engine} (h : g.Watches own allowed K) {α : Type} {x : Run α}
    (hx : ∀ w : World, w.Sideways (x.run w).2) :
    Respects K x := .ofRun fun w => h.aside (hx w)

theorem mint {g : Engine} (h : g.Watches own allowed K) (owner : Owner) :
    Respects K (mint owner) := by
  cases owner with
  | bench =>
    exact .look fun v => .bind (fun _ => h.aside (.plain rfl rfl rfl rfl rfl)) fun _ => .pure
  | service j =>
    refine .peek fun s => .bind (fun w hw => ?_) fun _ => .pure
    by_cases hj : own j
    · exact h.supplied _ hj hw
    · exact h.others hj hw

theorem currentSnapshot {g : Engine} (h : g.Watches own allowed K) (j : Nat) (changed : Bool) :
    Respects K (currentSnapshot j changed) := by
  have node : Respects K (node j) := by
    refine .peek fun s => ?_
    unfold lookUp
    split
    · exact .pure
    · exact .bind (fun _ => h.noted fun _ _ => nofun) fun _ => .fail
  exact .bind node fun _ => .bind .member fun _ => .peek fun _ => .bind (h.mint _) fun _ => .pure

theorem addAwaitable {g : Engine} (h : g.Watches own allowed K) (owner : Owner) {x : Awaitable}
    (fresh : ∀ settled waiters, x = .future settled waiters → waiters = []) :
    Respects K (addAwaitable owner x) :=
  .bind (h.mint owner) fun _ => .bind (fun _ => h.aside (.added fresh)) fun _ => .pure

/-- What is called on somebody's account, as long as it asks for what is allowed. -/
def Called (book : Book) (n : Nat) (own : Nat → Prop) (B : Bond) : Prop :=
  ∀ owner role f args c, (∀ i, own i → (Entry.called owner role f args).concern? ≠ some i) →
    Mirrors B (do Run.note (.called owner role f args); (ofBook book n).call owner f args c)

theorem Called.matches {B : Bond} (hc : Called book n own B) {j : Nat} (hj : ¬ own j)
    (role : Role) (f : Value) (args : List Object) (c : Option Context) :
    Matches B B.ties
      (do Run.note (.called (.service j) role f args); (ofBook book n).call (.service j) f args c)
      fun _ w v => B.ties w v ∧ True := by
  refine Twins.post (hc _ role f args c fun i hi concern => hj ?_) fun _ _ _ tied => ⟨tied, trivial⟩
  cases Entry.owner?_of_concern? concern
  exact hi

variable (h : (ofBook book n).Watches own allowed K)
  (hc : Called book n own (Bond.alone K spent rise))
include h

theorem noted_other {j : Nat} (hj : ¬ own j) {w v : World} {e : Entry} (of : e.Of j)
    (tied : (Bond.alone K spent rise).ties w v) :
    (Bond.alone K spent rise).ties (w.noted e) (v.noted e) := by
  refine ⟨congrArg (·.noted e) tied.1, h.noted (fun i hi concern => hj ?_) tied.2⟩
  cases of _ (Entry.owner?_of_concern? concern)
  exact hi

include hc

/-- Whatever other services do matches. -/
theorem wholly {j : Nat} (hj : ¬ own j) :
    (ofBook book n).Wholly (Bond.alone K spent rise) j fun _ => True where
  noted := fun of _ => h.noted_other hj of
  announced := fun sn tied =>
    h.noted_other hj (e := .published j sn) (fun _ owner => (Option.some.inj owner).symm)
    ⟨by rw [tied.1], h.others hj tied.2⟩
  called := fun role f args c hr => (hc.matches hj role f args c).post fun _ _ _ tied =>
    ⟨tied.1, fun _ _ _ _ _ => trivial⟩
  dismissed := dismiss_echoes (Bond.finds_of_same fun _ _ tied => by rw [tied.1])
      (fun of _ => h.noted_other hj of) fun role f args c _ =>
        hc.matches hj role f args c
  bound := rfl
  sourced := fun {w v} t tied =>
    ⟨by rw [tied.1], h.aside (w := w) (.plain rfl rfl rfl rfl rfl) tied.2⟩
  schedule := fun a => by
    have scheduled : Respects K (schedule j a) := h.sideways fun w => .schedule w j a
    exact (Mirrors.alone ((wholly_void book n j).schedule a).grows scheduled).matches.pre
      fun _ _ hw => hw.1
  whenSettled := fun a t e => by
    have waits :
        ∀ w, K w → (ofBook book n).Launched j t e a w → K ((whenSettled a ⟨j, t, e⟩).run w).2 :=
      fun _ hw launched => h.waits a launched hw
    exact (Matches.alone ((wholly_void book n j).whenSettled a t e).grows waits).pre fun _ _ hw =>
      ⟨hw.1.1, hw.2⟩
  grows := grows_call book n
  same := fun _ _ tied => by rw [tied.1]
  changed := fun _ tied => ⟨by rw [tied.1], h.others hj tied.2⟩

omit hc in
/-- What an effect does that neither calls anything nor asks a service for anything. -/
theorem respects_answer (owner : Owner) {r : Effect}
    (quiet : ∀ j, ¬ r.Concerns j) (call : ∀ f args, r ≠ .call f args) :
    Respects K ((ofBook book n).answer owner r) := by
  cases r with
  | log label values => exact fun _ => h.noted fun _ _ => nofun
  | call f args => exact absurd rfl (call f args)
  | send sender event =>
    cases sender with
    | service j => exact absurd rfl (quiet j)
    | bench => exact fun _ => h.aside (.plain rfl rfl rfl rfl rfl)
  | start j | stop j | subscribe j | cancelInvocation j => exact absurd rfl (quiet j)
  | unsubscribe => exact absurd trivial (quiet 0)
  | isActive j t => exact .peek fun _ => .pure
  | liveState j => exact .bind (h.currentSnapshot j false) fun _ => .pure
  | state j => exact .peek fun _ => .pure
  | status j => exact .peek fun _ => .pure
  | future =>
    refine .bind (h.addAwaitable owner fun _ _ same => ?_) fun _ =>
      .bind (fun _ => h.aside (.plain rfl rfl rfl rfl rfl)) fun _ => .pure
    cases same
    rfl
  | settle a settlement => exact .discard (h.sideways fun w => .settleAwaitable w a settlement)
  | sharedFuture m =>
    refine .look fun v => ?_
    split
    · exact .pure
    · exact .fail
  | coroutine pauses body args => exact h.addAwaitable owner nofun
  | now =>
    refine .lookNow fun v hv => .bind (Q := fun _ => K)
      (.modify fun _ _ => h.aside (w := v) (.plain rfl rfl rfl rfl rfl) hv) fun _ => ?_
    exact .pure fun _ => id
  | origin => exact .bind (h.mint owner) fun _ => .pure

theorem answer (owner : Owner) (r : Effect) (may : allowed r) :
    Mirrors (Bond.alone K spent rise) ((ofBook book n).answer owner r) := by
  have grows : Grows ((ofBook book n).answer owner r) :=
    ((Bond.void_open.opens (Bond.void_open.calls book n)).answer owner r).grows
  have own_or (j : Nat) (concerns : r.Concerns j)
      (other : ¬ own j → Mirrors (Bond.alone K spent rise) ((ofBook book n).answer owner r)) :
      Mirrors (Bond.alone K spent rise) ((ofBook book n).answer owner r) := by
    by_cases hj : own j
    · exact .alone grows (h.asked owner r hj concerns may)
    · exact other hj
  cases r with
  | call f args =>
    show Mirrors _ ((ofBook book n).invoke owner .nested f args)
    rw [invoke_eq]
    exact .bind (hc owner .nested f args none fun i _ concern =>
      nomatch (Entry.concern?_called.mp concern).2) fun _ => .pure
  | send sender event =>
    cases sender with
    | service j => exact own_or j rfl fun hj => (h.wholly hc hj).send event
    | bench => exact .alone grows (h.respects_answer owner nofun nofun)
  | start j => exact own_or j rfl fun hj => (h.wholly hc hj).start .null
  | stop j => exact own_or j rfl fun hj => (h.wholly hc hj).stop
  | cancelInvocation j t => exact own_or j rfl fun hj => (h.wholly hc hj).reflects.revoke t
  | subscribe j name =>
    refine own_or j rfl fun hj => .alone grows ?_
    refine .bind (h.sideways fun w => .listenerNamed w name none) fun listener => .discard ?_
    refine .bind (.discard .service) fun _ => .look fun v =>
      .bind (fun _ => h.others hj) fun _ => ?_
    exact .bind (fun _ => h.aside (.plain rfl rfl rfl rfl rfl)) fun _ => .pure
  | unsubscribe m =>
    by_cases some : ∃ j, own j
    · obtain ⟨j, hj⟩ := some
      exact .alone grows (h.asked owner _ hj trivial may)
    · refine .alone grows (.look fun v => ?_)
      split
      · exact fun _ => h.others fun hj => some ⟨_, hj⟩
      · exact .fail
  | _ => exact .alone grows (h.respects_answer owner (fun _ => nofun) nofun)

/-- A program keeps to the bond, if it asks for what is allowed. -/
theorem exec (owner : Owner) {α : Type} {p : Prog α} (asks : p.Asks allowed) (c : Option Context) :
    Mirrors (Bond.alone K spent rise) ((ofBook book n).exec owner p c) := by
  have grows_mint : Grows (Run.mint owner) :=
    ((Bond.void_open.opens (Bond.void_open.calls book n)).mint owner).grows
  induction p generalizing c with
  | done a => exact .pure
  | fail f => exact .fail
  | pending next ih =>
    cases c with
    | none => exact .fail
    | some c => exact ih c (asks c) (some c)
  | write o next ih =>
    cases c with
    | none => exact .fail
    | some c =>
      exact .bind (.bind (Mirrors.alone grows_mint (h.mint owner)) fun _ => .pure) fun c =>
        ih asks (some c)
  | ask r next ih => exact .bind (h.answer hc owner r asks.1) fun reply => ih reply (asks.2 reply) c
  | handle r next ih =>
    exact .bind (Echoes.attempt (h.answer hc owner r asks.1)) fun reply => ih reply (asks.2 reply) c

end Watches

/-- By induction on the fuel: callbacks keep to the bond, unless one is called that asks for more
than is allowed. -/
theorem watches_ofBook {book : Book} {own : Nat → Prop} {allowed : Effect → Prop} {K : World → Prop}
    {spent : List Entry → Prop} {rise : ∀ {e journal}, spent journal → spent (e :: journal)}
    (h : ∀ n, (∀ owner f args c, (book f args).Asks allowed →
      Mirrors (Bond.alone K spent rise) ((ofBook book n).call owner f args c)) →
      (ofBook book n).Watches own allowed K)
    (strays : ∀ {w owner role f args}, K w → ¬ (book f args).Asks allowed →
      spent (.called owner role f args :: w.journal))
    (n : Nat) (owner : Owner) (f : Value) (args : List Object) (c : Option Context)
    (asks : (book f args).Asks allowed) :
    Mirrors (Bond.alone K spent rise) ((ofBook book n).call owner f args c) := by
  induction n generalizing owner f args c with
  | zero => exact .throw
  | succ n ih =>
    have watches := h n fun owner f args c => ih owner f args c
    refine watches.exec (fun owner role f args c loose => ?_) owner asks c
    by_cases asks : (book f args).Asks allowed
    · refine .bind (Twins.note fun _ _ tied => ⟨by rw [tied.1], watches.noted loose tied.2⟩)
        fun _ => ?_
      exact ih owner f args c asks
    · exact Twins.ended (fun _ _ tied => strays tied.2 asks) (grows_call book n _ _ _ _)

end Engine

end FlatMachine
