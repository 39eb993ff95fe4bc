import FlatMachine.Proofs.Stock.ChartInvariant
import FlatMachine.Proofs.Stock.Nodes
import FlatMachine.Proofs.Stock.Updaters

/-! # The chart of a form

The machine of a form is drawn by a chart with six places (**`Form.Design.chart`**), and its
actions and its guard do as they are meant to, if the validation returns mappings
(**`Form.Design.performs_chart`**). -/

namespace FlatMachine
namespace Form

open Stock

/-- The context of a form. -/
structure Record where
  values : Value.Entries
  errors : Value.Entries
  touched : Value.Entries
  result : Value
  error : Value

/-- The record as a context. -/
def Record.shown (r : Record) : Value :=
  mapping [("values", .map r.values), ("errors", .map r.errors), ("touched", .map r.touched),
    ("submit_result", r.result),
    ("submit_error", r.error)]

/-- The name and the value that a change carries; the name has to be hashable. -/
def changeOf (e : Event) : Except Failure (Value × Value) := do
  let name ← e.getItem (.str "name")
  let value ← e.getItem (.str "value")
  Value.checkKey name
  return (name, value)

/-- A field has another value: it is touched, and its message is gone. -/
def Record.edited (r : Record) (name value : Value) : Record :=
  { r with
    values := Value.insert name value r.values
    errors := Value.insert name .null r.errors
    touched := Value.insert name (.bool true) r.touched }

/-- The validation finds nothing. -/
def Record.passes (check : Value → Value.Entries) (r : Record) : Bool :=
  !((check (.map r.values)).map Prod.snd).any Value.truth

/-- What an action makes of a record; none takes time. -/
inductive Does (check : Value → Value.Entries) :
    FormCode → Event → Record × Nat → Record × Nat → Prop
  | change {e : Event} {name value : Value} (carries : changeOf e = .ok (name, value)) (r : Record)
      (time : Nat) :
      Does check .change e (r, time) (r.edited name value, time)
  | validate (e : Event) (r : Record) (time : Nat) :
      Does check .validate e (r, time) ({ r with errors := check (.map r.values) }, time)
  | clear (e : Event) (r : Record) (time : Nat) :
      Does check .clear e (r, time) ({ r with result := .null, error := .null }, time)
  | succeed {e : Event} {data : Value} (found : e.getItem (.str "data") = .ok data) (r : Record)
      (time : Nat) :
      Does check .succeed e (r, time) ({ r with result := data }, time)
  | fail {e : Event} {error : Value} (found : e.getItem (.str "error") = .ok error) (r : Record)
      (time : Nat) :
      Does check .fail e (r, time) ({ r with error }, time)

/-- How an action fails; the validation may fail in any way. -/
def Fails : FormCode → Event → Record → Failure → Prop
  | .change, e, _, f => changeOf e = .error f
  | .clear, _, _, _ => False
  | .succeed, e, _, f => e.getItem (.str "data") = .error f
  | .fail, e, _, f => e.getItem (.str "error") = .error f
  | _, _, _, _ => True

/-! ### Drawing -/

section Edges

/-- A value is changed. -/
def editing (target : Option String) : Edge FormCode Unit := ⟨target, [.change], none⟩

/-- Valid values are submitted. -/
def sending : Edge FormCode Unit := ⟨some "submitting", [.validate], some ()⟩

/-- Values are validated. -/
def validating (target : Option String) : Edge FormCode Unit := ⟨target, [.validate], none⟩

end Edges

namespace Design

variable (d : Design)

/-- The values that an action closes over. -/
def held : FormCode → List Value
  | .validate => [d.validate]
  | _ => []

def task : Task FormCode Unit where
  source := source d.submit
  done := [⟨some "success", [.succeed], none⟩]
  error := [⟨some "failure", [.fail], none⟩]

def places : List (String × Place FormCode Unit) :=
  [("idle", ⟨[("CHANGE", [editing (some "dirty")]),
    ("SUBMIT", [sending, validating (some "invalid")])], [], none, []⟩),
    ("dirty", ⟨[("CHANGE", [editing none]), ("SUBMIT", [sending, validating (some "invalid")])],
      [], none, []⟩),
    ("invalid", ⟨[("CHANGE", [editing (some "dirty")]), ("SUBMIT", [sending, validating none])], [],
      none, ["error"]⟩),
    ("submitting", ⟨[("CHANGE", [editing none])], [.clear], some d.task, ["loading"]⟩),
    ("success", ⟨[("CHANGE", [editing (some "dirty")])], [], none, ["success"]⟩),
    ("failure", ⟨[("RETRY", [⟨some "submitting", [], none⟩]), ("CHANGE", [editing (some "dirty")])],
      [], none, ["error"]⟩)]

/-- The chart of a form. -/
def chart : Chart Record FormCode Unit where
  title := d.name
  start := "idle"
  context := ⟨d.values, [], [], .null, .null⟩
  places := d.places
  shows := Record.shown
  action a := action a (d.held a)
  guard _ := guard d.validate
  does := Does d.check
  fails := Fails
  holds _ r := r.passes d.check
  guarded _ := rfl
  aims := Place.aims_of_all rfl
  prompt := by
    have clears : ∀ p ∈ d.places, ∀ a ∈ p.2.entry, a = .clear := by simp [places]
    intro p hp a ha e r f
    rw [clears p hp a ha]
    exact id
  opening := ⟨_, rfl, rfl, rfl⟩

end Design

/-! ### What the callables do -/

theorem withKey_shown {context : Value} {inner : Value.Entries} {name value : Value} {part : String}
    {entries : Value.Entries} (he : context.entries? = some entries)
    (hv : Value.field part entries = some (.map inner)) (hashable : Value.checkKey name = .ok ()) :
    withKey context name value part = .done (part, .map (Value.insert name value inner)) := by
  unfold withKey required
  rw [he]
  dsimp only
  rw [hv, hashable]
  rfl

namespace Design

variable {d : Design}

/-- A change edits a field, if it carries a name and a value. -/
theorem book_change (e : Event) {r : Record} {context : Context} (shown : context.value = r.shown) :
    d.book (.function .own none (.form .change) []) [.held context, .fresh e.toValue] =
      Prog.ofExcept (changeOf e) >>= fun p => .done (.fresh (r.edited p.1 p.2).shown) := by
  obtain ⟨stamp, value⟩ := context
  subst shown
  show (Prog.ofExcept (e.getItem (.str "name")) >>= fun name =>
    Prog.ofExcept (e.getItem (.str "value")) >>= fun value =>
    Prog.ofExcept (Value.checkKey name) >>= fun _ =>
      withKey r.shown name (.bool true) "touched" >>= fun touched =>
      withKey r.shown name .null "errors" >>= fun errors =>
        .done (withFields _
          [("values", .map (Value.insert name value r.values)), touched, errors])) =
    Prog.ofExcept (e.getItem (.str "name") >>= fun name => e.getItem (.str "value") >>= fun value =>
      Value.checkKey name >>= fun _ => .ok (name, value)) >>= _
  cases e.getItem (.str "name") with
  | error f => rfl
  | ok name =>
    cases e.getItem (.str "value") with
    | error f => rfl
    | ok value =>
      show (Prog.ofExcept (Value.checkKey name) >>= _) =
        Prog.ofExcept (Value.checkKey name >>= _) >>= _
      cases hashable : Value.checkKey name with
      | error f => rfl
      | ok u =>
        show (withKey r.shown name (.bool true) "touched" >>= fun touched =>
          withKey r.shown name .null "errors" >>= fun errors =>
          .done (withFields _
            [("values", .map (Value.insert name value r.values)), touched, errors])) = _
        rw [withKey_shown rfl rfl hashable, withKey_shown rfl rfl hashable]
        rfl

theorem ensures_updater (valid : d.Validates) (a : FormCode) (e : Event) (r : Record) (time : Nat)
    {context : Context} (shown : context.value = r.shown) :
    (codesOf d.host (.form a) (d.held a) [.held context, .fresh e.toValue]).Ensures
      (.ofCodes (codesOf d.host))
        (fun o time' => ∃ r', Does d.check a e (r, time) (r', time') ∧ o.value = r'.shown)
      (Fails a e r) time := by
  cases a with
  | change =>
    have program :
        codesOf d.host (.form .change) (d.held .change) [.held context, .fresh e.toValue] = _ :=
      book_change (d := d) e shown
    rw [program]
    exact .ofExcept (fun (name, value) carries => .done ⟨_, .change carries r time, rfl⟩)
      fun _ => id
  | validate =>
    obtain ⟨stamp, value⟩ := context
    subst shown
    exact .call (fun _ => trivial) (valid (.map r.values)) fun o ho =>
      .done ⟨_, .validate e r time, by rw [ho]; rfl⟩
  | clear =>
    obtain ⟨stamp, value⟩ := context
    subst shown
    exact .done ⟨_, .clear e r time, by rfl⟩
  | succeed =>
    obtain ⟨stamp, value⟩ := context
    subst shown
    show (Prog.ofExcept (e.getItem (.str "data")) >>= _).Ensures _ _ _ _
    exact .ofExcept (fun data found => .done ⟨_, .succeed found r time, by rfl⟩) fun _ => id
  | fail =>
    obtain ⟨stamp, value⟩ := context
    subst shown
    show (Prog.ofExcept (e.getItem (.str "error")) >>= _).Ensures _ _ _ _
    exact .ofExcept (fun error found => .done ⟨_, .fail found r time, by rfl⟩) fun _ => id
  | isValid => exact .fail trivial
  | submit => exact .fail trivial

theorem ensures_guard (valid : d.Validates) (e : Event) (r : Record) (time : Nat)
    {context : Context} (shown : context.value = r.shown) :
    (d.book (guard d.validate) [.held context, .fresh e.toValue]).Ensures d.book
      (fun o _ => o.value.truth = r.passes d.check) (fun _ => True) time := by
  obtain ⟨stamp, value⟩ := context
  subst shown
  refine .call (fun _ => trivial) (valid (.map r.values)) fun o ho => ?_
  have found : messages o.value = .done ((d.check (.map r.values)).map Prod.snd) := by
    rw [ho]
    rfl
  show (messages o.value >>= fun found =>
    Prog.done (Object.fresh (.bool (!found.any Value.truth)))).Ensures _ _ _ _
  rw [found]
  exact .done rfl

theorem performs_chart (valid : d.Validates) (fuel : Nat) :
    d.chart.Performs (.ofBook d.book fuel) where
  sparing := Engine.sparing_ofBook _ fuel
  acts := fun {i K} hK a e r time context shown => by
    have ran := Engine.ends_updating (ensures_updater valid a e r time shown) hK fuel
    refine ran.post fun out w ⟨hw, o, time', ⟨r', does, same⟩, set, before⟩ => ?_
    exact ⟨hw, (r', time'), does, set.trans same, before⟩
  guards := fun {i K} hK _ e r context shown => by
    refine (Engine.ends_call (ensures_guard valid e r 0 shown) hK fuel (.service i) none).conseq
      (fun w hw => ⟨hw, Nat.zero_le _⟩)
      (fun out w ⟨hw, time', passes, _⟩ => ⟨hw, passes⟩) fun _ _ hw => hw.1

end Design

end Form
end FlatMachine
