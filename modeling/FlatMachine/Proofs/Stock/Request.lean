import FlatMachine.Proofs.Machine.Checked
import FlatMachine.Proofs.Stock.ChartInvariant
import FlatMachine.Proofs.Stock.Updaters

/-! # The chart of a request

The machine for a request is drawn by a chart with four places (**`Request.chart`**,
**`Request.machine_of_create`**), and its actions do as they are meant to
(**`Request.performs_ofBook`**). -/

namespace FlatMachine
namespace Request

open Stock

/-- The context of a request. -/
structure Record where
  input : Value
  response : Value
  error : Value
  started : Value
  finished : Value

/-- The record as a context. -/
def Record.shown (r : Record) : Value :=
  mapping [("request_input", r.input), ("response", r.response), ("error", r.error),
    ("started_at", r.started),
    ("finished_at", r.finished)]

/-- What an event asks for. -/
def inputOf (e : Event) : Value := (Value.field "input" e.entries).getD .null

/-- What an action makes of a record, and the time by then. -/
inductive Does : RequestCode → Event → Record × Nat → Record × Nat → Prop
  | accept (e : Event) (r : Record) (time : Nat) :
      Does .accept e (r, time)
        ({ r with input := inputOf e, response := .null, error := .null }, time)
  | start (e : Event) (r : Record) {time n : Nat} (later : time < n) :
      Does .start e (r, time) ({ r with started := .int (Int.ofNat n) }, n)
  | succeed {e : Event} {data : Value} (found : e.getItem (.str "data") = .ok data) (r : Record)
      {time n : Nat} (later : time < n) :
      Does .succeed e (r, time) ({ r with response := data, finished := .int (Int.ofNat n) }, n)
  | fail {e : Event} {error : Value} (found : e.getItem (.str "error") = .ok error) (r : Record)
      {time n : Nat} (later : time < n) :
      Does .fail e (r, time) ({ r with error, finished := .int (Int.ofNat n) }, n)

/-- How an action fails. -/
def Fails : RequestCode → Event → Record → Failure → Prop
  | .succeed, e, _, f => e.getItem (.str "data") = .error f
  | .fail, e, _, f => e.getItem (.str "error") = .error f
  | .fetch, _, _, _ => True
  | _, _, _, _ => False

/-! ### Drawing -/

/-- A request with a new input. -/
def fetching : Edge RequestCode Empty := ⟨some "loading", [.accept], none⟩

/-- The request that is made. -/
def task (requestFn : Value) : Task RequestCode Empty where
  source := .function .own none (.request .fetch) [requestFn]
  done := [⟨some "success", [.succeed], none⟩]
  error := [⟨some "failure", [.fail], none⟩]

def places (requestFn : Value) : List (String × Place RequestCode Empty) :=
  [("idle", ⟨[("FETCH", [fetching])], [], none, []⟩),
    ("loading", ⟨[("CANCEL", [⟨some "idle", [], none⟩])], [.start], some (task requestFn),
      ["loading"]⟩),
    ("success", ⟨[("FETCH", [fetching])], [], none, ["success"]⟩),
    ("failure", ⟨[("RETRY", [⟨some "loading", [], none⟩]), ("FETCH", [fetching])], [], none,
      ["error"]⟩)]

/-- The chart of a request. -/
def chart (requestFn : Value) : Chart Record RequestCode Empty where
  title := .str "request"
  start := "idle"
  context := ⟨.null, .null, .null, .null, .null⟩
  places := places requestFn
  shows := Record.shown
  action := action
  guard := nofun
  does := Does
  fails := Fails
  holds := nofun
  guarded := nofun
  aims := Place.aims_of_all rfl
  prompt := by
    have starts : ∀ p ∈ places requestFn, ∀ a ∈ p.2.entry, a = .start := by simp [places]
    intro p hp a ha e r f
    rw [starts p hp a ha]
    exact id
  opening := ⟨_, rfl, rfl, rfl⟩

theorem ofValue_config (requestFn : Value) :
    Machine.ofValue (config requestFn) = .ok (chart requestFn).machine := by rfl

theorem machine_of_create {requestFn : Value} {validator : Validator} {m : Machine}
    (made : Machine.create (config requestFn) validator = .ok m) : m = (chart requestFn).machine :=
  Machine.of_create (ofValue_config requestFn) made

/-! ### What the callables do -/

/-- What the callables of a request do, and those of its host. -/
abbrev book (host : Nat → List Object → Prog Object) : Book := .ofCodes (codesOf host)

theorem ensures_updater (host : Nat → List Object → Prog Object) (a : RequestCode) (e : Event)
    (r : Record) (time : Nat) {context : Context} (shown : context.value = r.shown) :
    (codesOf host (.request a) [] [.held context, .fresh e.toValue]).Ensures
      (.ofCodes (codesOf host))
        (fun o time' => ∃ r', Does a e (r, time) (r', time') ∧ o.value = r'.shown)
      (Fails a e r) time := by
  obtain ⟨stamp, value⟩ := context
  subst shown
  cases a with
  | accept => exact .done ⟨_, .accept e r time, by rfl⟩
  | start => exact .now fun n later => .done ⟨_, .start e r later, by rfl⟩
  | succeed =>
    show (Prog.ofExcept (e.getItem (.str "data")) >>= _).Ensures _ _ _ _
    exact .ofExcept
      (fun data found => .now fun n later => .done ⟨_, .succeed found r later, by rfl⟩) fun _ => id
  | fail =>
    show (Prog.ofExcept (e.getItem (.str "error")) >>= _).Ensures _ _ _ _
    exact .ofExcept (fun error found => .now fun n later => .done ⟨_, .fail found r later, by rfl⟩)
      fun _ => id
  | fetch => exact .fail trivial

theorem performs_ofBook (host : Nat → List Object → Prog Object) (requestFn : Value) (fuel : Nat) :
    (chart requestFn).Performs (.ofBook (book host) fuel) where
  sparing := Engine.sparing_ofBook _ fuel
  acts := fun {i K} hK a e r time context shown => by
    have ran := Engine.ends_updating (ensures_updater host a e r time shown) hK fuel
    refine ran.post fun out w ⟨hw, o, time', ⟨r', does, same⟩, set, before⟩ => ?_
    exact ⟨hw, (r', time'), does, set.trans same, before⟩
  guards := fun _ gd => nomatch gd

/-- The source makes a request for the input in the context. -/
theorem book_source (host : Nat → List Object → Prog Object) (requestFn : Value) {o : Object}
    {r : Record} (shown : o.value = r.shown) (event access : Object) :
    book host (.function .own none (.request .fetch) [requestFn])
      [o, event, access] = callWith requestFn r.input := by
  obtain ⟨stamp, value⟩ := o
  subst shown
  rfl

end Request
end FlatMachine
