import FlatMachine.Proofs.Service.Registration
import FlatMachine.Proofs.World.Apart

/-! # Callbacks that keep to their service

A callback keeps to a service if it asks for what concerns that service only (**`Prog.Within`**):
it may do to the service whatever can be done to one, read it, make and settle awaitables of its
own, log, and call what keeps to the service in turn.  The clock and the futures of others are
out of its reach.

A bond hosts a service (**`Bond.Hosts`**) if it ties worlds in which the service finds the same,
and they stay tied when it moves.  Then all that the service does matches, as long as its
callbacks keep to it (**`Bond.Hosts.wholly`**), and so do its turns in the event loop
(**`Bond.Hosts.turn`**). -/

namespace FlatMachine

/-- The effect concerns the service only.  A listener is named as agreed, and a subscription is
known by its number if it was made before. -/
def Effect.Own (G : Ground) (k : Nat) : Effect → Prop
  | .log .. | .origin => True
  | .send owner _ => owner = .service k
  | .start i | .stop i | .isActive i _ | .cancelInvocation i _ | .liveState i | .state
    i | .status i => i = k
  | .subscribe i name => i = k ∧ G.Allows name none
  | .unsubscribe n => ∃ listener, G.subscriptions[n]? = some (k, listener)
  | .settle a _ => a.1 = .service k
  | .call .. | .future | .coroutine .. | .sharedFuture _ | .now => False

/-- The program keeps to the service, and so does what it calls; its result satisfies `ends`. -/
inductive Prog.Within (G : Ground) (book : Book) (k : Nat) :
    (Value → Prop) → Prog Object → Prop where
  | done {ends : Value → Prop} {o : Object} (h : ends o.value) : Within G book k ends (.done o)
  | fail {ends : Value → Prop} (f : Failure) : Within G book k ends (.fail f)
  | pending {ends : Value → Prop} {next : Context → Prog Object}
      (rest : ∀ c, Within G book k ends (next c)) :
      Within G book k ends (.pending next)
  | write {ends : Value → Prop} {o : Object} {next : Prog Object}
      (rest : Within G book k ends next) :
      Within G book k ends (.write o next)
  | ask {ends : Value → Prop} {r : Effect} {next : r.Reply → Prog Object} (own : r.Own G k)
      (rest : ∀ x, Within G book k ends (next x)) : Within G book k ends (.ask r next)
  | future {ends : Value → Prop} {next : AwaitableId → Prog Object}
      (rest : ∀ n, Within G book k ends (next (.service k, n))) :
      Within G book k ends (.ask .future next)
  | coroutine {ends : Value → Prop} {pauses : Nat} {body : Value} {args : List Object}
      {next : AwaitableId → Prog Object} (rest : ∀ n, Within G book k ends (next (.service k, n))) :
      Within G book k ends (.ask (.coroutine pauses body args) next)
  | call {ends result : Value → Prop} {f : Value} {args : List Object} {next : Object → Prog Object}
      (called : Within G book k result (book f args))
      (rest : ∀ o, result o.value → Within G book k ends (next o)) :
      Within G book k ends (.ask (.call f args) next)
  | handle {ends : Value → Prop} {r : Effect} {next : Except Failure r.Reply → Prog Object}
      (own : r.Own G k)
      (rest : ∀ x, Within G book k ends (next x)) : Within G book k ends (.handle r next)
  | handleFuture {ends : Value → Prop} {next : Except Failure AwaitableId → Prog Object}
      (rest : ∀ x, (∀ a, x = .ok a → a.1 = .service k) → Within G book k ends (next x)) :
      Within G book k ends (.handle .future next)
  | handleCoroutine {ends : Value → Prop} {pauses : Nat} {body : Value} {args : List Object}
      {next : Except Failure AwaitableId → Prog Object}
      (rest : ∀ x, (∀ a, x = .ok a → a.1 = .service k) → Within G book k ends (next x)) :
      Within G book k ends (.handle (.coroutine pauses body args) next)
  | handleCall {ends result : Value → Prop} {f : Value} {args : List Object}
      {next : Except Failure Object → Prog Object} (called : Within G book k result (book f args))
      (rest : ∀ x, (∀ o, x = .ok o → result o.value) → Within G book k ends (next x)) :
      Within G book k ends (.handle (.call f args) next)

/-- What a service may expect of a result: a source returns an awaitable of the service, if it
returns one at all. -/
def Role.ends (k : Nat) : Role → Value → Prop
  | .source _ => Yields (·.1 = .service k)
  | _ => fun _ => True

/-- The service finds the same in worlds that are tied, and they stay tied when it moves; when it
calls what does not keep to it, the bond is spent. -/
structure Bond.Hosts (G : Ground) (book : Book) (k : Nat) (B : Bond) : Prop where
  moves : ∀ {m : World → World} {w v}, World.Move k m → B.ties w v → B.ties (m w) (m v)
  same : ∀ {w v}, B.ties w v → w.services[k]? = v.services[k]?
  looping : ∀ {w v}, B.ties w v → w.looping = v.looping
  awaited : ∀ {w v} n, B.ties w v →
    w.awaitables.lookup (.service k, n) = v.awaitables.lookup (.service k, n)
  waiters : ∀ {w v n x}, B.ties w v → w.awaitables.lookup (.service k, n) = some x → x.Of k
  named : ∀ {name callback}, G.Allows name callback →
    Run.Matches B B.ties (Run.listenerNamed name callback) fun listener w v => B.ties w v ∧
    listener = G.listener name
  early : ∀ {w v} {n : Nat} {listener}, G.subscriptions[n]? = some (k, listener) → B.ties w v →
    w.subscriptions[n]? = some (k, listener) ∧ v.subscriptions[n]? = some (k, listener)
  strays : ∀ {role f args}, role ≠ .nested → ¬ (book f args).Within G book k (role.ends k) →
    ∀ journal, B.spent (.called (.service k) role f args :: journal)

namespace Bond.Hosts

open Run Engine

variable {G : Ground} {book : Book} {k : Nat} {B : Bond}

/-! ### Moves of a service -/

theorem change (h : B.Hosts G book k) {f : Service → Service} : Mirrors B (update k f) :=
  Twins.update fun _ _ tied => h.moves (.change f) tied

theorem note (h : B.Hosts G book k) {e : Entry} (own : e.Of k) : Mirrors B (Run.note e) :=
  Twins.note fun _ _ tied => h.moves (.note e own) tied

theorem own (h : B.Hosts G book k) {e : Entry} (he : e.owner? = some (.service k)) :
    Mirrors B (Run.note e) :=
  h.note fun _ owner => Option.some.inj (owner.symm.trans he)

theorem settleAwaitable (h : B.Hosts G book k) (n : Nat) (settlement : Settlement) :
    Mirrors B (settleAwaitable (.service k, n) settlement) := by
  refine Twins.ofGrows (aside_settleAwaitable _ _).grows fun w v tied => ?_
  unfold Run.settleAwaitable
  rw [run_bind, run_bind, run_get, run_get]
  dsimp only
  rw [← h.awaited n tied]
  cases found : w.awaitables.lookup (Owner.service k, n) with
  | none => exact .ok tied
  | some x =>
    obtain _ | ⟨_ | settled, waiters⟩ := x
    · exact .ok tied
    · have own : ∀ waiter ∈ waiters, waiter.service = k := h.waiters tied found
      refine .ok (h.moves (.queue _ fun r mem => ?_)
        (h.moves (.set n (.future (some settlement) waiters) own) tied))
      obtain ⟨waiter, waits, rfl⟩ := List.mem_map.mp mem
      exact ⟨rfl, own waiter waits⟩
    · exact .ok tied

theorem whenSettled (h : B.Hosts G book k) (n : Nat) (t : Token) (e : Event) :
    Mirrors B (whenSettled (.service k, n) ⟨k, t, e⟩) := by
  refine Twins.ofGrows (aside_whenSettled _ _).grows fun w v tied => ?_
  unfold Run.whenSettled
  rw [run_bind, run_bind, run_get, run_get]
  dsimp only
  rw [← h.awaited n tied]
  cases found : w.awaitables.lookup (Owner.service k, n) with
  | none => exact .error tied
  | some x =>
    obtain _ | ⟨settled, waiters⟩ := x
    · exact .error tied
    have own : ∀ waiter ∈ waiters ++ [⟨k, t, e⟩], waiter.service = k := by
      intro waiter mem
      obtain mem | mem := List.mem_append.mp mem
      · exact h.waiters tied found waiter mem
      · rw [List.mem_singleton.mp mem]
    cases settled with
    | none => exact .ok (h.moves (.set n (.future none _) own) tied)
    | some settlement =>
      refine .ok (h.moves (.queue [_] fun r mem => ?_)
        (h.moves (.set n (.future (some settlement) _) own) tied))
      rw [List.mem_singleton.mp mem]
      exact ⟨rfl, rfl⟩

theorem schedule (h : B.Hosts G book k) (n : Nat) : Mirrors B (schedule k (.service k, n)) := by
  refine Bond.peek (fun _ _ => h.same) fun s =>
    Twins.ofGrows (aside_scheduling s.ownLoop _).grows fun w v tied => ?_
  rw [run_bind, run_bind, run_get, run_get]
  dsimp only
  rw [← h.awaited n tied, ← h.looping tied]
  by_cases free : (w.looping || s.ownLoop) = true
  · rw [if_pos free, if_pos free]
    cases found : w.awaitables.lookup (Owner.service k, n) with
    | none => exact .error tied
    | some x =>
      obtain ⟨pauses, body, args⟩ | _ := x
      · refine .ok
          (h.moves (.queue [_] fun r mem => ?_) (h.moves (.set n (.future none []) nofun) tied))
        rw [List.mem_singleton.mp mem]
        exact rfl
      · exact .ok tied
  · rw [if_neg free, if_neg free]
    exact .error tied

theorem mint (h : B.Hosts G book k) : Mirrors B (mint (.service k)) :=
  Bond.peek (fun _ _ => h.same) fun _ => Echoes.bind h.change fun _ => .pure

/-- What is made is an awaitable of the service. -/
theorem addAwaitable (h : B.Hosts G book k) {x : Awaitable} (own : x.Of k) :
    Matches B B.ties (addAwaitable (.service k) x) fun a w v => B.ties w v ∧ a.1 = .service k := by
  refine .bind h.mint.matches fun n => .bind (Q := fun _ => B.ties) ?_ fun _ =>
    .pure fun _ _ tied => ⟨tied, rfl⟩
  exact .modify (fun _ => .same rfl rfl rfl) fun _ _ tied => h.moves (.make n x own) tied

theorem addFuture (h : B.Hosts G book k) :
    Matches B B.ties (addFuture (.service k)) fun a w v => B.ties w v ∧ a.1 = .service k := by
  refine .bind (h.addAwaitable (x := .future none []) nofun) fun a => ?_
  obtain ⟨owner, n⟩ := a
  refine .bind (Q := fun _ w v => B.ties w v ∧ owner = .service k)
    (.modify (fun _ => .same rfl rfl rfl) ?_) fun _ => .pure fun _ _ => id
  rintro w v ⟨tied, rfl⟩
  exact ⟨h.moves (.future n) tied, rfl⟩

/-- A listener is registered with the service, under whatever number. -/
theorem subscribe (h : B.Hosts G book k) {name : String} {callback : Option Value}
    (allowed : G.Allows name callback) :
    Mirrors B (do discard (Run.subscribe k (← listenerNamed name callback))) := by
  refine Twins.bind (h.named allowed) fun listener => .ofGrows ?_ fun w v hw => ?_
  · rw [discard_eq]
    exact (grows_subscribe k listener).bind fun _ => World.Precedes.refl
  · rw [run_discard, run_discard]
    cases hs : w.services[k]? with
    | none =>
      rw [run_subscribe_none hs, run_subscribe_none ((h.same hw.1).symm.trans hs)]
      exact .error hw.1
    | some s =>
      rw [run_subscribe_found hs, run_subscribe_found ((h.same hw.1).symm.trans hs)]
      exact .ok (h.moves (.subscribe listener) (h.moves (.change _) hw.1))

/-- A subscription made before is removed. -/
theorem unsubscribe (h : B.Hosts G book k) {n : Nat} {listener : Listener}
    (early : G.subscriptions[n]? = some (k, listener)) : Mirrors B (Run.unsubscribe n) := by
  refine Twins.ofGrows (grows_unsubscribe n) fun w v tied => ?_
  obtain ⟨hw, hv⟩ := h.early early tied
  rw [run_unsubscribe hw, run_unsubscribe hv]
  exact .ok (h.moves (.change _) tied)

/-! ### Programs of a service -/

/-- Effects that concern the service only match, given that what is done to the service does. -/
theorem answer (h : B.Hosts G book k) {g : Engine} (whole : g.Wholly B k (·.1 = .service k))
    {r : Effect} (own : r.Own G k) :
    Mirrors B (g.answer (.service k) r) := by
  cases r with
  | log label values => exact h.own rfl
  | send owner event =>
    obtain rfl := own
    exact whole.send event
  | start i =>
    obtain rfl := own
    exact whole.start .null
  | stop i =>
    obtain rfl := own
    exact whole.stop
  | subscribe i name =>
    obtain ⟨rfl, allowed⟩ := own
    exact h.subscribe allowed
  | unsubscribe n =>
    obtain ⟨listener, early⟩ := own
    exact h.unsubscribe early
  | isActive i t =>
    obtain rfl := own
    exact whole.peek fun _ => .pure
  | cancelInvocation i t =>
    obtain rfl := own
    exact whole.reflects.revoke t
  | liveState i =>
    obtain rfl := own
    exact .bind (whole.reflects.currentSnapshot false) fun _ => .pure
  | state i =>
    obtain rfl := own
    exact whole.peek fun _ => .pure
  | status i =>
    obtain rfl := own
    exact whole.peek fun _ => .pure
  | settle a settlement =>
    obtain ⟨owner, n⟩ := a
    obtain rfl := own
    exact .discard (h.settleAwaitable n settlement)
  | origin => exact .bind h.mint fun _ => .pure
  | call | future | coroutine | sharedFuture | now => cases own

/-- What is called returns what its program does. -/
theorem answer_call (h : B.Hosts G book k) {result : Value → Prop} {f : Value}
    {args : List Object} {n : Nat}
    (called : ∀ m < n, (∀ l ≤ m, (ofBook book l).Wholly B k (·.1 = .service k)) →
      Matches B B.ties ((ofBook book m).exec (.service k) (book f args) none) fun r w v =>
        B.ties w v ∧ result r.1.value)
    (whole : ∀ m ≤ n, (ofBook book m).Wholly B k (·.1 = .service k)) :
    Matches B B.ties ((ofBook book n).answer (.service k) (.call f args)) fun o w v =>
      B.ties w v ∧ result o.value := by
  refine .bind (h.own rfl).matches fun _ => ?_
  refine .bind (Q := fun r w v => B.ties w v ∧ result r.1.value) ?_ fun r => .pure fun _ _ => id
  cases n with
  | zero => exact .throw fun _ _ => id
  | succ n => exact called n (Nat.lt_succ_self n) fun m hm => whole m (Nat.le_succ_of_le hm)

/-- A result has the property, and a failure need not. -/
theorem attempt_has {α : Type} {φ : α → Prop} {x : Run α}
    (hx : Matches B B.ties x fun a w v => B.ties w v ∧ φ a) :
    Matches B B.ties (Run.attempt x) fun r w v => B.ties w v ∧ ∀ a, r = .ok a → φ a := by
  refine Twins.attempt (hx.post fun a w v holds => ⟨holds.1, fun b same => ?_⟩) fun f w v tied =>
    ⟨tied, nofun⟩
  cases same
  exact holds.2

/-- By induction on what keeping to the service is; a call leads to an engine with less fuel. -/
theorem exec (h : B.Hosts G book k) {ends : Value → Prop} {p : Prog Object}
    (within : p.Within G book k ends) {n : Nat}
    (whole : ∀ m ≤ n, (ofBook book m).Wholly B k (·.1 = .service k)) (c : Option Context) :
    Matches B B.ties ((ofBook book n).exec (.service k) p c) fun r w v =>
      B.ties w v ∧ ends r.1.value := by
  induction within generalizing n c with
  | done ends => exact .pure fun _ _ tied => ⟨tied, ends⟩
  | fail f => exact .fail fun _ _ => id
  | pending rest ih =>
    cases c with
    | none => exact .fail fun _ _ => id
    | some c => exact ih c whole (some c)
  | write rest ih =>
    cases c with
    | none => exact .fail fun _ _ => id
    | some c =>
      exact .bind ((whole n (Nat.le_refl n)).reflects.adopt _).matches fun c => ih whole (some c)
  | ask own rest ih =>
    exact .bind (h.answer (whole n (Nat.le_refl n)) own).matches fun x => ih x whole c
  | future rest ih =>
    refine .bind h.addFuture fun a => .given (grows_exec book n _ _ c) fun ha => ?_
    obtain ⟨owner, m⟩ := a
    obtain rfl := ha
    exact ih m whole c
  | @coroutine ends pauses body args next rest ih =>
    refine .bind (h.addAwaitable (x := .coroutine pauses body args) trivial) fun a => ?_
    refine .given (grows_exec book n _ _ c) fun ha => ?_
    obtain ⟨owner, m⟩ := a
    obtain rfl := ha
    exact ih m whole c
  | @call ends result f args next called rest ihc ihr =>
    have nested := h.answer_call (fun m _ whole => ihc whole none) whole
    exact .bind nested fun o => .given (grows_exec book n _ _ c) fun ho => ihr o ho whole c
  | handle own rest ih =>
    exact .bind (h.answer (whole n (Nat.le_refl n)) own).attempt.matches fun x => ih x whole c
  | handleFuture rest ih =>
    exact .bind (attempt_has h.addFuture) fun x => .given (grows_exec book n _ _ c) fun hx =>
      ih x hx whole c
  | @handleCoroutine ends pauses body args next rest ih =>
    refine .bind (attempt_has (h.addAwaitable (x := .coroutine pauses body args) trivial))
      fun x => ?_
    exact .given (grows_exec book n _ _ c) fun hx => ih x hx whole c
  | @handleCall ends result f args next called rest ihc ihr =>
    have nested := h.answer_call (fun m _ whole => ihc whole none) whole
    exact .bind (attempt_has nested) fun x => .given (grows_exec book n _ _ c) fun hx =>
      ihr x hx whole c

/-- Whatever is done to the service matches, by induction on the fuel. -/
theorem wholly (h : B.Hosts G book k) (n : Nat) :
    (ofBook book n).Wholly B k (·.1 = .service k) := by
  induction n using Nat.strongRecOn with
  | ind n ih =>
  have called (role : Role) (f : Value) (args : List Object) (c : Option Context)
      (hr : role ≠ .nested) :
      Matches B B.ties
        (do Run.note (.called (.service k) role f args); (ofBook book n).call (.service k) f args c)
        fun r w v => B.ties w v ∧ ∀ t, role = .source t → Yields (·.1 = .service k) r.1.value := by
    by_cases within : (book f args).Within G book k (role.ends k)
    · refine .bind (h.own rfl).matches fun _ => ?_
      cases n with
      | zero => exact .throw fun _ _ => id
      | succ n =>
        refine (h.exec within (fun m hm => ih m (Nat.lt_succ_of_le hm)) c).post fun r w v done =>
          ⟨done.1, ?_⟩
        rintro t rfl
        exact done.2
    · exact Twins.ended (fun w _ _ => h.strays hr within w.journal) (grows_call book n _ f args c)
  have noted {w v : World} {e : Entry} (own : e.Of k) (tied : B.ties w v) :=
    h.moves (.note e own) tied
  have own (sn : Snapshot) : (Entry.published k sn).Of k :=
    fun _ owner => (Option.some.inj owner).symm
  refine {
    noted := fun own _ => noted own
    announced := fun sn tied => noted (own sn) (h.moves (.change _) tied)
    called := fun role f args c hr => called role f args c (Role.ne_nested hr)
    dismissed :=
      dismiss_echoes (Bond.finds_of_same fun _ _ => h.same) (fun own _ => noted own) called
    bound := rfl
    sourced := fun t tied => h.moves (.source t) tied
    schedule := fun a => ?_
    whenSettled := fun a t e => ?_
    grows := grows_call book n
    same := fun _ _ => h.same
    changed := fun _ tied => h.moves (.change _) tied }
  · refine .given ((wholly_void book 0 k).schedule a).grows fun ha => ?_
    obtain ⟨owner, m⟩ := a
    obtain rfl := ha
    exact h.schedule m
  · have grows := ((wholly_void book 0 k).whenSettled a t e).grows
    refine Twins.pre (.given grows fun ha => ?_) fun _ _ hw => hw.1
    obtain ⟨owner, m⟩ := a
    obtain rfl := ha
    exact h.whenSettled m t e

/-! ### Turns of a service -/

/-- The turn of what waits on behalf of the service matches. -/
theorem turn (h : B.Hosts G book k) (fuel : Nat) {r : Ready} (hr : r.Of k) :
    Mirrors B ((ofBook book fuel).turn r) := by
  have whole := h.wholly fuel
  cases r with
  | step a pauses body args =>
    obtain ⟨owner, n⟩ := a
    obtain rfl := hr
    cases pauses with
    | succ pauses =>
      refine Twins.modify (fun _ => .same rfl rfl rfl) fun _ _ tied =>
        h.moves (.queue [_] fun r mem => ?_) tied
      rw [List.mem_singleton.mp mem]
      exact rfl
    | zero =>
      refine .bind
        (.tryCatch (.bind (whole.reflects.invoke _ _ _ rfl) fun _ => .pure) nofun fun halt => ?_)
        fun settlement => .discard (h.settleAwaitable n settlement)
      cases halt with
      | raised f => exact .pure
      | exhausted => exact .throw
  | complete waiter a =>
    obtain ⟨owner, n⟩ := a
    obtain ⟨rfl, rfl⟩ := hr
    refine .look (fun w v tied => by rw [h.awaited n tied]) fun u => ?_
    split
    · refine .tryCatch (whole.deliver _ _ _ _) nofun fun halt => ?_
      cases halt with
      | raised f => exact h.note nofun
      | exhausted => exact .throw
    · exact .pure

end Bond.Hosts
end FlatMachine
