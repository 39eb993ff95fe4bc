import FlatMachine.Proofs.Invocation.Cancel
import FlatMachine.Proofs.Invocation.Occupancy
import FlatMachine.Proofs.Service.AwaitableOrigin
import FlatMachine.Proofs.Stock.RequestStory

/-! # What requests end with

In every history, whatever its callables do: a request that failed has no response, and one that
succeeded has an error if and only if it repeats one that failed (**`World.request_exclusive`**),
which does happen (**`Errand.error_left`**).  Requests are made for the input of the latest
`FETCH` that began one, and what the context holds in the end is the settlement of the awaitable
that the latest call of the function returned (**`World.request_answered`**). -/

namespace FlatMachine

open Stock

/-- The latest call of the function is for the input in the context.  It returned the awaitable,
for which the invocation waited, and which is settled like this; and it was started before it was
finished. -/
structure Request.Concluded (book : Book) (requestFn : Value) (w : World) (i : Nat) (p : Point)
    (s : Service) (a : AwaitableId) (settlement : Settlement) (r : Record) : Prop where
  shown : s.context.value = r.shown
  call : ∃ earlier, w.LatestResult book i p.journal earlier requestFn r.input a settlement
  times : ∃ n m, r.started = .int (Int.ofNat n) ∧ r.finished = .int (Int.ofNat m) ∧ n < m

namespace World

open Request

variable {host : Nat → List Object → Prog Object} {requestFn : Value} {m : Machine} {fuel : Nat}
  {looping : Bool} {history : List Command} {i : Nat} {p : Point} {s : Service}

/-- A request that did anything is at a spot where its record agrees with its story. -/
theorem sound_of_passed (made : Machine.create (config requestFn) .standard = .ok m)
    (plain : ∀ override, .start i override ∈ history → override = .null)
    (hp : p ∈ ((World.start looping).after (.ofBook (.ofCodes (codesOf host)) fuel) history).passed)
    (hs : p.services[i]? = some s) (request : s.machine = m) : (∀ e ∈ p.journal, e.deed? ≠ some i) ∨
      ∃ x, Sound (.ofCodes (codesOf host)) requestFn x ∧
      (chart requestFn).Shown i x s p.journal := by
  rcases Chart.seen_of_passed (keeps_sound host requestFn)
      (performs_ofBook host requestFn) fuel looping history plain hp s hs with
    silent | (other | ⟨isLax, -⟩) | ⟨x, inv, shown, -⟩
  · exact Or.inl silent
  · exact absurd (request.trans (machine_of_create made)) other
  · exact isLax.elim
  · exact Or.inr ⟨x, inv.resolve_left id, shown⟩

/-- A request that is not idle is at a spot at which its record agrees with its story. -/
theorem sound_of_state (made : Machine.create (config requestFn) .standard = .ok m)
    (plain : ∀ override, .start i override ∈ history → override = .null)
    (hp : p ∈ ((World.start looping).after (.ofBook (.ofCodes (codesOf host)) fuel) history).passed)
    (hs : p.services[i]? = some s) (request : s.machine = m) {name : String}
    (named : s.stateName = .str name) (begun : name ≠ "idle") :
    ∃ x, Sound (.ofCodes (codesOf host)) requestFn x ∧ x.name = name ∧
      (chart requestFn).Shown i x s p.journal := by
  rcases sound_of_passed made plain hp hs request with silent | ⟨x, sound, shown⟩
  · exact absurd silent
      (Chart.begun_of_state hp hs (request.trans (machine_of_create made)) named begun)
  · exact ⟨x, sound, Value.str.inj (shown.name.symm.trans named), shown⟩

/-- A request that failed has no response; one that succeeded has an error if and only if it was
begun on a `RETRY`.  This is so in every history in which it is started without an override,
whatever its callables and those of other services do. -/
theorem request_exclusive (made : Machine.create (config requestFn) .standard = .ok m)
    (plain : ∀ override, .start i override ∈ history → override = .null)
    (hp : p ∈ ((World.start looping).after (.ofBook (.ofCodes (codesOf host)) fuel) history).passed)
    (hs : p.services[i]? = some s) (request : s.machine = m) :
    (s.stateName = .str "failure" → ∃ r, s.context.value = Record.shown r ∧ r.response = .null) ∧
    (s.stateName = .str "success" → ∃ r, s.context.value = Record.shown r ∧
      (r.error = .null ↔ repeated (begun (story i p.journal)) = false)) := by
  constructor
  · intro named
    obtain ⟨x, sound, there, shown⟩ := sound_of_state made plain hp hs request named (by decide)
    exact ⟨x.record, shown.record, sound.response (there ▸ by decide)⟩
  · intro named
    obtain ⟨x, sound, there, shown⟩ := sound_of_state made plain hp hs request named (by decide)
    rw [shown.story]
    exact ⟨x.record, shown.record, sound.error (there ▸ by decide)⟩

/-- What a request that is over ended with is owed to it. -/
theorem concluded_of_ended {x : Spot Record} (shown : (chart requestFn).Shown i x s p.journal)
    (hp : p ∈ ((World.start looping).after (.ofBook (.ofCodes (codesOf host)) fuel) history).passed)
    (hs : p.services[i]? = some s) (ended : Ended (.ofCodes (codesOf host)) requestFn x) : ∃ o,
      ((World.start looping).after (.ofBook (.ofCodes (codesOf host)) fuel) history).Owed i o ∧
      o.cancelled = false ∧
      (x.name = "success" → o.failed = false ∧ x.record.response = o.data) ∧
      (x.name = "failure" → o.failed = true ∧ x.record.error = o.error) ∧
      ∀ {e a settlement},
        ((World.start looping).after (.ofBook (.ofCodes (codesOf host)) fuel) history).Awaited
          ⟨i, o.token, e⟩ a settlement →
        Concluded (.ofCodes (codesOf host)) requestFn
          ((World.start looping).after (.ofBook (.ofCodes (codesOf host)) fuel) history)
          i p s a settlement x.record := by
  obtain ⟨o, f, args, n, m, taken, valid, latest, argument, started, finished, before, done,
    failed⟩ := ended
  have came : .accepted i (.outcome o) ∈ p.journal :=
    accepted_of_taken hp hs (mem_of_story (shown.story ▸ taken))
  have owed := outcome_awaited _ fuel looping history i o ((journal_of_passed hp).subset came)
  refine ⟨o, owed, valid, done, failed, fun awaited =>
    ⟨shown.record, ?_, n, m, started, finished, before⟩⟩
  rw [← shown.story] at latest
  obtain ⟨earlier, called⟩ := called_of_latestCall latest
  exact ⟨earlier, latestResult_of_awaited hp latest called argument awaited⟩

/-- Requests are made for the input of the latest `FETCH` on which one was begun.  Once the
latest one is over, the awaitable that the latest call of the function returned is settled, with
the value that is the response, or with the failure that is the error; the context holds the
input of that call, and the time when it was started is before that when it was finished.  An
outcome that comes after the service moved on from where its invocation was begun leaves nothing
but a log record.  This is so in every history in which the service is started without an
override, whatever its callables and those of other services do. -/
theorem request_answered (made : Machine.create (config requestFn) .standard = .ok m)
    (plain : ∀ override, .start i override ∈ history → override = .null)
    (hp : p ∈ ((World.start looping).after (.ofBook (.ofCodes (codesOf host)) fuel) history).passed)
    (hs : p.services[i]? = some s) (request : s.machine = m) :
    let w := (World.start looping).after (.ofBook (.ofCodes (codesOf host)) fuel) history
    (∀ t f args earlier, .called (.service i) (.source t) f args :: earlier <:+ p.journal →
      Book.ofCodes (codesOf host) f args = callWith requestFn (asked (begun (story i earlier)))) ∧
    (s.stateName = .str "success" → ∃ a v r, Concluded (.ofCodes (codesOf host)) requestFn w i p s a
      (.value v) r ∧ r.response = v) ∧
    (s.stateName = .str "failure" →
      ∃ a f r, Concluded (.ofCodes (codesOf host)) requestFn w i p s a (.failed f) r ∧
      r.error = .failure a f) ∧
    ∀ o later earlier source target invocation before, p.journal =
      later ++ .moved i source target :: earlier →
      .activated i o.token invocation before ∈ earlier → ∀ (g : Engine) v, v.now = p →
        ∃ text, (g.process i (.outcome o)).run v = (.ok (), v.noted (.record .debug text)) := by
  refine ⟨fun t f args earlier called => ?_, fun named => ?_, fun named => ?_, ?_⟩
  · rcases sound_of_passed made plain hp hs request with silent | ⟨x, sound, shown⟩
    · exact absurd (Entry.deed?_called.mpr ⟨rfl, rfl⟩) (silent _ (called.subset List.mem_cons_self))
    · refine sound.calls t f args (story i earlier) ?_
      rw [← shown.story]
      exact story_suffix (Entry.chapter?_called i t f args) called
  · obtain ⟨x, sound, there, shown⟩ := sound_of_state made plain hp hs request named (by decide)
    obtain ⟨o, owed, valid, done, -, concluded⟩ :=
      concluded_of_ended shown hp hs (sound.ended (Or.inl there))
    obtain ⟨done, response⟩ := done there
    obtain ⟨e, a, awaited⟩ := owed.value valid done
    exact ⟨a, o.data, x.record, concluded awaited, response⟩
  · obtain ⟨x, sound, there, shown⟩ := sound_of_state made plain hp hs request named (by decide)
    obtain ⟨o, owed, -, -, failed, concluded⟩ :=
      concluded_of_ended shown hp hs (sound.ended (Or.inr there))
    obtain ⟨failed, error⟩ := failed there
    obtain ⟨e, a, f, awaited, same⟩ := owed.failure failed
    exact ⟨a, f, x.record, concluded awaited, error.trans same⟩
  · rintro o later earlier source target invocation before moved activated g v rfl
    exact ⟨_, Engine.run_settle_stale hs (inactive_of_moved hp hs moved activated)⟩

end World

/-! ### An errand

A request that goes wrong and is made again; and one that is cancelled for another, whose outcome
comes late. -/

namespace Errand

/-- The first function makes a request: it returns a future. -/
def host : Nat → List Object → Prog Object
  | 0, _ => .ask .future fun a => .done (.fresh a.toValue)
  | _, _ => .done (.fresh .null)

def requestFn : Value := Swing.function 0

def fetch (input : String) : Command :=
  .send 0 (mapping [("type", .str "FETCH"), ("input", .str input)])

def birth : List Command := [.create (Request.config requestFn) .standard [] true]

def world (life : List Command) : World :=
  (World.start true).after (.ofBook (.ofCodes (codesOf host)) 4) (birth ++ life)

/-- The request fails, and is made again. -/
def again : List Command :=
  [.start 0 .null, fetch "cats", .settle 0 (.failed .noLoop), .turn, .send 0 (.str "RETRY"),
  .settle 1 (.value (.str "a cat")), .turn]

/-- The request is cancelled, and another one is made. -/
def instead : List Command := [.start 0 .null, fetch "cats", .send 0 (.str "CANCEL"), fetch "dogs",
  .settle 0 (.value (.str "a cat")), .turn, .settle 1 (.value (.str "a dog")), .turn]

theorem created :
    Machine.create (Request.config requestFn) .standard = .ok (Request.chart requestFn).machine :=
  Machine.create_of_ok (Request.ofValue_config requestFn) (by decide +kernel)

theorem born :
    (world []).services[0]?.map (·.machine) = some (Request.chart requestFn).machine := by
  change ((Run.create (Request.config requestFn) .standard [] true).run
    (World.start true)).2.services[0]?.map (·.machine) = _
  unfold Run.create
  rw [created]
  rfl

theorem machine_of_life {life : List Command} {s : Service}
    (hs : (world life).services[0]? = some s) :
    s.machine = (Request.chart requestFn).machine := World.machine_of_born born hs

/-- The service is in that state, its request is for that input, and it was begun on a `RETRY` or
not. -/
def Stands (w : World) (name input : String) (repeated : Bool) : Bool :=
  w.services[0]?.any (fun s => s.stateName.same (.str name) &&
    (s.context.value.entries?.bind (Value.field "request_input")).any (·.same (.str input))) &&
  Request.repeated (Request.begun (story 0 w.journal)) == repeated

theorem of_stands {w : World} {name input : String} {repeated : Bool}
    (h : Stands w name input repeated = true) :
    ∃ s, w.services[0]? = some s ∧ s.stateName = .str name ∧
      (∀ r, s.context.value = Request.Record.shown r → r.input = .str input) ∧
      Request.repeated (Request.begun (story 0 w.journal)) = repeated := by
  obtain ⟨there, again⟩ := Bool.and_eq_true_iff.mp h
  cases hs : w.services[0]? with
  | none =>
    rw [hs] at there
    cases there
  | some s =>
    rw [hs] at there
    obtain ⟨named, asked⟩ := Bool.and_eq_true_iff.mp there
    refine ⟨s, rfl, Value.eq_of_same_str named, fun r shown => ?_, beq_iff_eq.mp again⟩
    rw [shown] at asked
    exact Value.eq_of_same_str asked

/-- The error of the first request is still there when the second one has succeeded. -/
theorem error_left :
    ∃ s r, (world again).services[0]? = some s ∧ s.machine = (Request.chart requestFn).machine ∧
    s.stateName = .str "success" ∧ s.context.value = Request.Record.shown r ∧ r.error ≠ .null := by
  have exclusive (life : List Command)
      (plain : ∀ override, .start 0 override ∈ birth ++ life → override = .null) (s : Service)
      (hs : (world life).services[0]? = some s) : s.stateName = .str "success" →
      ∃ r, s.context.value = Request.Record.shown r ∧
        (r.error = .null ↔ Request.repeated (Request.begun (story 0 (world life).journal)) =
          false) := by
    have now : (world life).now ∈ (world life).passed := List.mem_cons_self
    unfold world at now hs
    exact (World.request_exclusive created plain now hs (machine_of_life hs)).2
  have stands : Stands (world again) "success" "cats" true = true := by decide +kernel
  obtain ⟨s, hs, named, -, repeated⟩ := of_stands stands
  obtain ⟨r, shown, error⟩ := exclusive again (by simp [birth, again, fetch]) s hs named
  exact ⟨s, r, hs, machine_of_life hs, named, shown, fun null =>
    nomatch repeated.symm.trans (error.mp null)⟩

/-- The response of the second request is there, and the late one of the first is not. -/
theorem late_ignored : ∃ s a v r, (world instead).services[0]? = some s ∧
    s.machine = (Request.chart requestFn).machine ∧
    Request.Concluded (.ofCodes (codesOf host)) requestFn (world instead) 0 (world instead).now s a
      (.value v) r ∧
    r.input = .str "dogs" ∧ r.response = v := by
  have answered (life : List Command)
      (plain : ∀ override, .start 0 override ∈ birth ++ life → override = .null) (s : Service)
      (hs : (world life).services[0]? = some s) : s.stateName = .str "success" → ∃ a v r,
        Request.Concluded (.ofCodes (codesOf host)) requestFn (world life) 0 (world life).now s a
          (.value v) r ∧ r.response = v := by
    have now : (world life).now ∈ (world life).passed := List.mem_cons_self
    unfold world at now hs ⊢
    exact (World.request_answered created plain now hs (machine_of_life hs)).2.1
  have stands : Stands (world instead) "success" "dogs" false = true := by decide +kernel
  obtain ⟨s, hs, named, asked, -⟩ := of_stands stands
  obtain ⟨a, v, r, concluded, response⟩ :=
    answered instead (by simp [birth, instead, fetch]) s hs named
  exact ⟨s, a, v, r, hs, machine_of_life hs, concluded, asked r concluded.shown, response⟩

end Errand
end FlatMachine
