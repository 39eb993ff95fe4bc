import FlatMachine.Proofs.Service.Turns

/-! # A service alone

What becomes of a service does not depend on the others, however their calls and completions are
interleaved with its own, as long as callbacks keep to the service that calls them.

* **`World.alone`**: of a history, what concerns one service.  A turn of the event loop does if
  it is a turn of that service.  A subscription or a future that a command names by number has
  another number if those of others are not made.
* **`World.Accords.step`**: a command leaves a service that is not alone and one that is with the
  same.
* **`World.runs_apart`**: so does any history.  All that is in the service is the same at the
  end, and all that it wrote, called and told is the same in the same order, also if others fail. -/

namespace FlatMachine

/-- The place at which an item is found, if of those that come after the first ones only some are
left. -/
def place {α : Type} (first : Nat) (left : α → Bool) (xs : List α) (n : Nat) : Nat :=
  min n first + ((xs.take n).drop first).countP left

theorem place_zero {α : Type} (left : α → Bool) (xs : List α) (n : Nat) :
    place 0 left xs n = (xs.take n).countP left := by
  unfold place
  rw [Nat.min_zero, Nat.zero_add, List.drop_zero]

/-- An item that is left is found after those before it that are left. -/
theorem getElem?_filter {α : Type} {left : α → Bool} {xs : List α} {n : Nat} {x : α}
    (hx : xs[n]? = some x) (h : left x = true) :
    (xs.filter left)[(xs.take n).countP left]? = some x := by
  induction xs generalizing n with
  | nil => cases hx
  | cons y rest ih =>
    cases n with
    | zero =>
      cases hx
      rw [List.filter_cons_of_pos h]
      rfl
    | succ n =>
      have found := ih (n := n) hx
      rw [List.take_succ_cons, List.countP_cons]
      by_cases hy : left y = true
      · rw [List.filter_cons_of_pos hy, if_pos hy]
        exact found
      · rw [List.filter_cons_of_neg hy, if_neg hy]
        exact found

/-- Among items of which the first ones are left in any case, one that is left is found at its
**`place`**. -/
theorem getElem?_place {α : Type} {left : α → Bool} {first later : List α} {n : Nat} {x : α}
    (hx : (first ++ later)[n]? = some x) (h : left x = true) :
    (first ++ later.filter left)[place first.length left (first ++ later) n]? = some x := by
  unfold place
  by_cases hn : n < first.length
  · have early : ((first ++ later).take n).drop first.length = [] :=
      List.drop_eq_nil_of_le (Nat.le_trans (List.length_take_le n _) (Nat.le_of_lt hn))
    rw [early, Nat.min_eq_left (Nat.le_of_lt hn)]
    exact (List.getElem?_append_left hn).trans ((List.getElem?_append_left hn).symm.trans hx)
  · have hn : first.length ≤ n := Nat.le_of_not_lt hn
    rw [List.getElem?_append_right hn] at hx
    rw [List.take_append, List.take_of_length_le hn, List.drop_left, Nat.min_eq_right hn,
      List.getElem?_append_right (Nat.le_add_right _ _), Nat.add_sub_cancel_left]
    exact getElem?_filter hx h

/-- The service that a command names. -/
def Command.service? : Command → Option Nat
  | start i _ | stop i | send i _ | subscribe i .. | cancelInvocation i _ => some i
  | create .. | unsubscribe _ | settle .. | turn | flush => none

/-- Listeners are named as agreed. -/
def Command.Allowed (G : Ground) : Command → Prop
  | subscribe _ name callback => G.Allows name callback
  | _ => True

namespace World

/-- What is left of a command for a service that is alone; so many subscriptions were made
before. -/
def share (early i : Nat) (w : World) (c : Command) : List Command :=
  match c with
  | .start k _ | .stop k | .send k _ | .subscribe k .. | .cancelInvocation k _ =>
    if k = i then [c] else []
  | .unsubscribe n =>
    if w.subscriptions[n]?.any fun p => decide (p.1 = i) then
      [.unsubscribe (place early (fun p => decide (p.1 = i)) w.subscriptions n)]
    else []
  | .settle n settlement =>
    if w.futures[n]?.any fun a => decide (a.1 = .service i) then
      [.settle (place 0 (fun a => decide (a.1 = .service i)) w.futures n) settlement]
    else []
  | .turn => if w.ready.head?.any fun r => decide (r.awaitable.1 = .service i) then [.turn] else []
  | .flush => [.flush]
  | .create .. => []

/-- What is left of a history for a service that is alone. -/
def alone (g : Engine) (early i : Nat) : World → List Command → List Command
  | _, [] => []
  | w, c :: rest => w.share early i c ++ alone g early i ((g.obey c).run w).2 rest

/-- The fuel suffices for every command of a history. -/
def lasts (g : Engine) : World → List Command → Bool
  | _, [] => true
  | w, c :: rest =>
    (match ((g.obey c).run w).1 with
      | .error .exhausted => false
      | _ => true) && lasts g ((g.obey c).run w).2 rest

end World

open Run

section

variable {G : Ground} {book : Book} {i k : Nat} {w v : World}

/-! ### Commands -/

theorem Run.discard_bind {α β : Type} (x : Run α) (f : α → Run β) :
    discard (x >>= f) = x >>= fun a => discard (f a) := by
  unfold Functor.discard
  simp only [LawfulFunctor.map_const, Function.comp_apply, map_bind]

theorem Run.run_discard_snd {α : Type} (x : Run α) (w : World) :
    ((discard x).run w).2 = (x.run w).2 := by
  rw [run_discard]
  generalize x.run w = out
  obtain ⟨halt | a, w'⟩ := out <;> rfl

theorem Run.run_unsubscribe_none {n : Nat} (found : w.subscriptions[n]? = none) :
    (unsubscribe n).run w = (.error (.raised (.missingIndex "list")), w) := by
  unfold unsubscribe
  rw [run_bind, run_get]
  dsimp only
  rw [found]
  rfl

theorem Run.run_settleFuture {n : Nat} {settlement : Settlement} {a : AwaitableId}
    (found : w.futures[n]? = some a) :
    (settleFuture n settlement).run w = (settleAwaitable a settlement).run w := by
  unfold settleFuture
  rw [run_bind, run_get]
  dsimp only
  rw [found]

theorem Run.run_settleFuture_none {n : Nat} {settlement : Settlement}
    (found : w.futures[n]? = none) :
    (settleFuture n settlement).run w = (.ok false, w) := by
  unfold settleFuture
  rw [run_bind, run_get]
  dsimp only
  rw [found]
  rfl

/-- A command that names a service matches, but for the number of a subscription. -/
theorem Bond.Hosts.obey {B : Bond} (h : B.Hosts G book k) (fuel : Nat) {c : Command}
    (hc : c.service? = some k) (allowed : c.Allowed G) :
    Mirrors B (discard ((Engine.ofBook book fuel).obey c)) := by
  have whole := h.wholly fuel
  cases c with
  | start j override =>
    cases hc
    exact .discard (whole.start override)
  | stop j =>
    cases hc
    exact .discard whole.stop
  | send j event =>
    cases hc
    exact .discard (whole.send event)
  | cancelInvocation j t =>
    cases hc
    exact .discard (whole.reflects.revoke t)
  | subscribe j name callback =>
    cases hc
    show Mirrors B (discard (listenerNamed name callback >>= Run.subscribe k))
    rw [Run.discard_bind]
    exact h.subscribe allowed
  | create | unsubscribe | settle | turn | flush => cases hc

namespace World.Accords

variable {fuel : Nat}

/-- A command that names a service. -/
theorem named (accords : w.Accords G i v) {c : Command} (hc : c.service? = some k)
    (allowed : c.Allowed G)
    (kept : ¬ Strayed G book (((Engine.ofBook book fuel).obey c).run w).2.journal) :
    (((Engine.ofBook book fuel).obey c).run w).2.Accords G i
      (v.after (.ofBook book fuel) (w.share G.subscriptions.length i c)) := by
  have shared : w.share G.subscriptions.length i c = if k = i then [c] else [] := by
    cases c <;> cases hc <;> rfl
  rw [shared]
  rw [← run_discard_snd] at kept ⊢
  split
  · rename_i own
    subst own
    have obeyed := (accords.both (Bond.sharing_hosts.obey fuel hc allowed) kept).2
    rw [run_discard_snd _ v] at obeyed
    exact obeyed
  · rename_i other
    exact accords.only ((Bond.beside_hosts other).obey fuel hc allowed) kept

theorem share_unsubscribe {early n : Nat} {found : Option (Nat × Listener)}
    (h : w.subscriptions[n]? = found) :
    w.share early i (.unsubscribe n) = if found.any fun p => decide (p.1 = i) then
      [.unsubscribe (place early (fun p => decide (p.1 = i)) w.subscriptions n)] else [] := by
  rw [← h]
  rfl

theorem share_settle {early n : Nat} {settlement : Settlement} {found : Option AwaitableId}
    (h : w.futures[n]? = found) :
    w.share early i (.settle n settlement) = if found.any fun a => decide (a.1 = .service i) then
      [.settle (place 0 (fun a => decide (a.1 = .service i)) w.futures n) settlement] else [] := by
  rw [← h]
  rfl

theorem share_turn {early : Nat} {ready : List Ready} (h : w.ready = ready) :
    w.share early i .turn =
    if ready.head?.any fun r => decide (r.awaitable.1 = .service i) then [.turn] else [] := by
  rw [← h]
  rfl

/-- A subscription is named by its number. -/
theorem unsubscribe (accords : w.Accords G i v) (n : Nat) :
    ((Run.unsubscribe n).run w).2.Accords G i
      (v.after (.ofBook book fuel) (w.share G.subscriptions.length i (.unsubscribe n))) := by
  obtain ⟨shares, loops⟩ := accords
  obtain ⟨later, hw, hv⟩ := shares.subscriptions
  cases found : w.subscriptions[n]? with
  | none =>
    rw [share_unsubscribe found, run_unsubscribe_none found]
    exact ⟨shares, loops⟩
  | some p =>
    obtain ⟨k, listener⟩ := p
    rw [share_unsubscribe found, run_unsubscribe found, Option.any_some]
    by_cases own : k = i
    · subst own
      rw [if_pos (decide_eq_true rfl)]
      rw [hw] at found
      have found' :
          v.subscriptions[place G.subscriptions.length
            (fun p => decide (p.1 = k)) w.subscriptions n]? =
            some (k, listener) := by
        rw [hv, hw]
        exact getElem?_place found (decide_eq_true rfl)
      show World.Accords G k _ ((Run.unsubscribe _).run v).2
      rw [run_unsubscribe found']
      exact ⟨(Move.change _).own shares, loops⟩
    · rw [if_neg (by simpa using own)]
      exact ⟨(Move.change _).other own shares, loops⟩

/-- A future is named by its number. -/
theorem settle (accords : w.Accords G i v) (n : Nat) (settlement : Settlement)
    (kept : ¬ Strayed G book ((settleFuture n settlement).run w).2.journal) :
    ((settleFuture n settlement).run w).2.Accords G i
      (v.after (.ofBook book fuel) (w.share G.subscriptions.length i (.settle n settlement))) := by
  cases found : w.futures[n]? with
  | none =>
    rw [share_settle found, run_settleFuture_none found]
    exact accords
  | some a =>
    obtain ⟨k, ha⟩ := accords.1.made a (List.mem_of_getElem? found)
    obtain ⟨owner, m⟩ := a
    obtain rfl : owner = .service k := ha
    rw [run_settleFuture found] at kept ⊢
    rw [share_settle found, Option.any_some]
    by_cases own : k = i
    · subst own
      rw [if_pos (decide_eq_true rfl)]
      have found' : v.futures[place 0 (fun a => decide (a.1 = .service k)) w.futures n]? =
          some (.service k, m) := by
        rw [accords.1.futures, place_zero]
        exact getElem?_filter found (decide_eq_true rfl)
      show World.Accords G k _ ((settleFuture _ settlement).run v).2
      rw [run_settleFuture found']
      exact (accords.both (Bond.sharing_hosts.settleAwaitable m settlement) kept).2
    · rw [if_neg (by simpa using own)]
      exact accords.only ((Bond.beside_hosts own).settleAwaitable m settlement) kept

/-- A service that is made is another one. -/
theorem create (accords : w.Accords G i v) (config : Value) (validator : Validator)
    (hooks : List Hook) (ownLoop : Bool)
    (kept : ¬ Strayed G book ((Run.create config validator hooks ownLoop).run w).2.journal) :
    ((Run.create config validator hooks ownLoop).run w).2.Accords G i v := by
  rcases run_create_refused config validator hooks ownLoop w with ⟨f, refused⟩ | ⟨m, made, copied⟩
  · rwa [refused]
  · rw [run_create_made made copied] at kept ⊢
    obtain ⟨shares, loops⟩ := accords
    have others :
        World.Accords G i { w with services := w.services ++ [.blank m hooks ownLoop] } v := by
      refine ⟨{ shares with there := ?_, service := ?_ }, loops⟩
      · rw [List.length_append]
        exact Nat.lt_add_right _ shares.there
      · rw [List.getElem?_append_left shares.there, shares.service]
    have hosts : (Bond.beside G book i v v.looping).Hosts G book w.services.length :=
      Bond.beside_hosts (Nat.ne_of_gt shares.there)
    have whole := hosts.wholly 0
    refine World.Accords.only others ?_ kept
    refine .bind (whole.reflects.adopt _) fun c =>
      .bind (whole.update fun _ => ⟨rfl, .refl _⟩) fun _ => ?_
    exact .bind (whole.reflects.currentSnapshot false) fun sn =>
      .bind (whole.update fun _ => ⟨rfl, .refl _⟩) fun _ => .pure

/-- One turn of the event loop. -/
theorem turn (accords : w.Accords G i v)
    (kept : ¬ Strayed G book ((onLoop (Engine.ofBook book fuel).takeTurn).run w).2.journal)
    (enough : ((onLoop (Engine.ofBook book fuel).takeTurn).run w).1 ≠ .error .exhausted) :
    ((onLoop (Engine.ofBook book fuel).takeTurn).run w).2.Accords G i
      (v.after (.ofBook book fuel) (w.share G.subscriptions.length i .turn)) := by
  have inside := accords.looped true
  have kept' :
      ¬ Strayed G book
        ((Engine.ofBook book fuel).takeTurn.run { w with looping := true }).2.journal := by
    rw [run_onLoop] at kept
    generalize (Engine.ofBook book fuel).takeTurn.run { w with looping := true } = out at kept
    obtain ⟨halt | more, w'⟩ := out <;> exact kept
  cases hw : w.ready with
  | nil =>
    rw [share_turn hw, run_onLoop, run_takeTurn_idle (w := { w with looping := true }) hw]
    exact accords
  | cons r rest =>
    rw [share_turn hw, List.head?_cons, Option.any_some]
    by_cases own : r.awaitable.1 = .service i
    · have turned := inside.ownTurn hw own kept'
      rw [if_pos (decide_eq_true own)]
      show World.Accords G i _ ((onLoop (Engine.ofBook book fuel).takeTurn).run v).2
      rw [run_onLoop, run_onLoop]
      generalize (Engine.ofBook book fuel).takeTurn.run { w with looping := true } = out,
        (Engine.ofBook book fuel).takeTurn.run { v with looping := true } = out' at turned
      obtain ⟨r, w'⟩ := out
      obtain ⟨r', v'⟩ := out'
      obtain ⟨rfl, turned⟩ := turned
      obtain halt | more := r
      · exact turned
      · rw [accords.2]
        exact turned.looped _
    · have turned := inside.otherTurn hw own kept'
      have ended := (Engine.ofBook book fuel).ends_takeTurn { w with looping := true } trivial
      rw [if_neg (by simpa using own)]
      rw [run_onLoop] at enough ⊢
      generalize (Engine.ofBook book fuel).takeTurn.run { w with looping := true } =
        out at turned ended enough
      obtain ⟨halt | more, w'⟩ := out
      · exact absurd (congrArg Except.error ended) enough
      · exact ⟨{ turned.1 with }, accords.2⟩

/-- A command leaves the service with the same, whether it is alone or not. -/
theorem step (accords : w.Accords G i v) {c : Command} (allowed : c.Allowed G)
    (kept : ¬ Strayed G book (((Engine.ofBook book fuel).obey c).run w).2.journal)
    (enough : (((Engine.ofBook book fuel).obey c).run w).1 ≠ .error .exhausted) :
    (((Engine.ofBook book fuel).obey c).run w).2.Accords G i
      (v.after (.ofBook book fuel) (w.share G.subscriptions.length i c)) := by
  cases c with
  | create config validator hooks ownLoop =>
    exact accords.create config validator hooks ownLoop kept
  | unsubscribe n => exact accords.unsubscribe n
  | settle n settlement => exact accords.settle n settlement kept
  | turn => exact accords.turn kept enough
  | flush => exact accords.flush kept enough
  | start | stop | send | subscribe | cancelInvocation => exact accords.named rfl allowed kept

/-- A history that the fuel suffices for leaves the service with the same, whether it is alone or
not. -/
theorem after (accords : w.Accords G i v) {history : List Command}
    (allowed : ∀ c ∈ history, c.Allowed G)
    (kept : ¬ Strayed G book (w.after (.ofBook book fuel) history).journal)
    (enough : w.lasts (.ofBook book fuel) history = true) :
    (w.after (.ofBook book fuel) history).Accords G i
      (v.after (.ofBook book fuel)
        (w.alone (.ofBook book fuel) G.subscriptions.length i history)) := by
  induction history generalizing w v with
  | nil => exact accords
  | cons c rest ih =>
    obtain ⟨enough, lasts⟩ := Bool.and_eq_true_iff.mp enough
    have written :=
      (World.grows_after book fuel rest (((Engine.ofBook book fuel).obey c).run w).2).journal
    have kept' : ¬ Strayed G book (((Engine.ofBook book fuel).obey c).run w).2.journal :=
      fun strayed => kept ((Bond.sharing G book i).grown strayed written)
    have stepped := accords.step (allowed c List.mem_cons_self) kept' fun exhausted => by
      rw [exhausted] at enough
      cases enough
    rw [after_cons, alone, after_append]
    exact ih stepped (fun c mem => allowed c (List.mem_cons_of_mem _ mem)) kept lasts

end World.Accords

namespace World

/-- What has been agreed on when services part here, given what names stand for. -/
def ground (w : World) (callback : String → Option Value) : Ground where
  callback
  known := w.listeners.map (·.name)
  subscriptions := w.subscriptions

/-- No service has begun to wait for anything. -/
structure Unawaited (w : World) : Prop where
  awaitables : w.awaitables = []
  futures : w.futures = []
  ready : w.ready = []

theorem Unawaited.accords {callback : String → Option Value} (h : w.Unawaited)
    (there : i < w.services.length)
    (named : ∀ listener ∈ w.listeners, listener.callback = callback listener.name) :
    w.Accords (w.ground callback) i w := by
  have names : (w.ground callback).Names w.listeners := by
    refine ⟨fun listener mem => ?_, fun name known => ?_⟩
    · show listener = ⟨listener.name, callback listener.name⟩
      rw [← named listener mem]
    · exact List.mem_map.mp known
  refine ⟨⟨there, rfl, fun _ => rfl, ?_, ?_, ⟨[], ?_, ?_⟩, rfl, ⟨names, names⟩, ?_, ?_, ?_⟩, rfl⟩
  · rw [h.ready]
    rfl
  · rw [h.futures]
    rfl
  · exact (List.append_nil _).symm
  · exact (List.append_nil _).symm
  · intro k n x found
    rw [h.awaitables] at found
    cases found
  · intro r mem
    rw [h.ready] at mem
    cases mem
  · intro a mem
    rw [h.futures] at mem
    cases mem

/-- Services are at work together, and callbacks keep to the service that calls them.  At the end
of any history, each service is what it would be if it had been alone and only its own commands
and turns had been there, in the same order; and all that it wrote is the same, in the same
order: what it called, with which arguments, and whom it notified of what. -/
theorem runs_apart (book : Book) (fuel : Nat) (callback : String → Option Value)
    {w₀ : World} {i : Nat} (there : i < w₀.services.length) (unawaited : w₀.Unawaited)
    (named : ∀ listener ∈ w₀.listeners, listener.callback = callback listener.name)
    {history : List Command} (allowed : ∀ c ∈ history, c.Allowed (w₀.ground callback))
    (enough : w₀.lasts (.ofBook book fuel) history = true)
    (within : ∀ k role f args,
      .called (.service k) role f args ∈ (w₀.after (.ofBook book fuel) history).journal →
      role ≠ .nested → (book f args).Within (w₀.ground callback) book k (role.ends k)) :
    let g := Engine.ofBook book fuel
    let w := w₀.after g history
    let v := w₀.after g (w₀.alone g w₀.subscriptions.length i history)
    v.services[i]? = w.services[i]? ∧
    v.journal.filter (Entry.isBy i) = w.journal.filter (Entry.isBy i) := by
  intro g w v
  have kept : ¬ Strayed (w₀.ground callback) book w.journal := by
    rintro ⟨k, role, f, args, mem, hr, strays⟩
    exact strays (within k role f args mem hr)
  have accords : w.Accords (w₀.ground callback) i v :=
    (unawaited.accords there named).after allowed kept enough
  exact ⟨accords.1.service.symm, accords.1.journal⟩

end World

end

/-! ### Two swings -/

namespace Swing

/-- Two swings of one machine, with a listener each. -/
def pair : World :=
  (World.start true).after (.ofBook book 5) [.create machine.toValue .standard [] true,
  .create machine.toValue .standard [] true, .subscribe 0 "left" none, .subscribe 1 "right" none]

/-- While one goes and comes back, the other falls, which fails; then what they have waited for
is settled. -/
def together :
    List Command := [.start 0 .null, .start 1 .null, .send 0 (.str "GO"), .send 1 (.str "FALL"),
  .subscribe 1 "below" none, .send 0 (.str "BACK"), .subscribe 0 "above" none, .unsubscribe 3,
  .settle 1 (.value .null),
  .settle 2 (.value .null), .turn, .flush, .stop 1, .stop 0]

/-- The callbacks of a swing. -/
def isCallback : Value → Bool
  | .function .own none (.host 0) [] | .function .own none (.host 1)
    [] | .function .own none (.host 2) [] => true
  | _ => false

/-- The callbacks of a swing keep to the service that calls them. -/
theorem callback_within (G : Ground) (k : Nat) (role : Role) {f : Value} {args : List Object}
    (h : isCallback f = true) :
    (book f args).Within G book k (role.ends k) := by
  have nothing : role.ends k .null := by
    cases role <;> try trivial
    exact fun _ _ read => nomatch read
  unfold isCallback at h
  split at h
  · refine .future fun n => .done ?_
    cases role <;> try trivial
    intro a cancel read
    cases read
    rfl
  · exact .fail _
  · exact .done nothing
  · cases h

theorem pair_unawaited : pair.Unawaited where
  awaitables := List.isEmpty_iff.mp (by decide +kernel)
  futures := List.isEmpty_iff.mp (by decide +kernel)
  ready := List.isEmpty_iff.mp (by decide +kernel)

/-- The second swing falls, which fails, and the first one does what it does alone. -/
theorem first_as_if_alone :
    let g := Engine.ofBook book 5
    let w := pair.after g together
    let v := pair.after g (pair.alone g pair.subscriptions.length 0 together)
    (w.services[1]?.any fun s => s.stateName.same (.str "down")) = true ∧
      v.services[0]? = w.services[0]? ∧
      v.journal.filter (Entry.isBy 0) = w.journal.filter (Entry.isBy 0) := by
  intro g w v
  refine ⟨by decide +kernel, ?_⟩
  have plain : pair.listeners.all (·.callback.isNone) = true := by decide +kernel
  have plainly : together.all (fun
      | .subscribe _ _ callback => callback.isNone
      | _ => true) = true := by decide
  have called : w.journal.all (Entry.callsOnly fun _ => isCallback) = true := by decide +kernel
  refine World.runs_apart book 5 (fun _ => none) (by decide +kernel) pair_unawaited
    (fun listener mem => ?_) (fun c mem => ?_) (by decide +kernel) fun k role f args mem _ => ?_
  · exact Option.isNone_iff_eq_none.mp (List.all_eq_true.mp plain listener mem)
  · cases c with
    | subscribe i name callback =>
      exact .inl (Option.isNone_iff_eq_none.mp (List.all_eq_true.mp plainly _ mem))
    | _ => trivial
  · exact callback_within _ k role (List.all_eq_true.mp called _ mem)

/-- Of all that happens to the two, this concerns the first one: it starts, goes, comes back, is
listened to by one more and no longer, its second future is settled and it is told, and it is
stopped. -/
example : (pair.alone (.ofBook book 5) pair.subscriptions.length 0 together).map Command.service? =
    [some 0, some 0, some 0, some 0, none, none, none, some 0] := by decide +kernel

end Swing

end FlatMachine
