import FlatMachine.Proofs.Service.Concerns
import FlatMachine.Proofs.Value.Same
import FlatMachine.Stock.Services

/-! # What the callables of a form do

A program **gives** a property if every result that it returns has it, whatever it is replied on
the way (**`Prog.Gives`**); so the callables that run it return such results
(**`Engine.meets_call_gives`**).

Of the actions of a form, only that of a change touches the values
(**`Form.Design.keepsValues_ofBook`**), and its guard lets pass only values in which the
validation finds nothing (**`Form.Design.vets_ofBook`**). -/

namespace FlatMachine

/-! ### What programs return -/

namespace Prog

variable {α β : Type} {P : α → Prop} {Q : β → Prop}

/-- Every result that the program can return has the property. -/
def Gives (P : α → Prop) : Prog α → Prop
  | done a => P a
  | fail _ => True
  | pending next => ∀ c, (next c).Gives P
  | write _ next => next.Gives P
  | ask _ next => ∀ x, (next x).Gives P
  | handle _ next => ∀ x, (next x).Gives P

theorem Gives.bind {p : Prog α} {k : α → Prog β} (h : p.Gives P) (hk : ∀ a, P a → (k a).Gives Q) :
    (p >>= k).Gives Q := by
  induction p with
  | done a => exact hk a h
  | fail f => trivial
  | pending next ih => exact fun c => ih c (h c)
  | write o next ih => exact ih h
  | ask r next ih => exact fun x => ih x (h x)
  | handle r next ih => exact fun x => ih x (h x)

theorem Gives.any (p : Prog α) : p.Gives fun _ => True := by
  induction p with
  | done a => trivial
  | fail f => trivial
  | pending next ih => exact ih
  | write o next ih => exact ih
  | ask r next ih => exact ih
  | handle r next ih => exact ih

end Prog

namespace Engine

open Run

theorem meets_exec_gives (g : Engine) (owner : Owner) {α : Type} {P : α → Prop} {p : Prog α}
    (h : p.Gives P) (c : Option Context) :
    Meets (fun _ => True) (g.exec owner p c) (fun r _ => P r.1) fun _ => True := by
  induction p generalizing c with
  | done a => exact .pure fun _ _ => h
  | fail f => exact .fail fun _ => id
  | pending next ih =>
    cases c with
    | none => exact .fail fun _ => id
    | some c => exact ih c (h c) (some c)
  | write o next ih =>
    cases c with
    | none => exact .fail fun _ => id
    | some c => exact .bind .any fun c' => ih h (some c')
  | ask r next ih => exact .bind .any fun x => ih x (h x) c
  | handle r next ih => exact .bind .any fun x => ih x (h x) c

/-- What the program of a callable gives, calling it returns. -/
theorem meets_call_gives {book : Book} {f : Value} {args : List Object} {P : Object → Prop}
    (h : (book f args).Gives P) (fuel : Nat) (owner : Owner) (c : Option Context) :
    Meets (fun _ => True) ((ofBook book fuel).call owner f args c)
      (fun r _ => P r.1) fun _ => True := by
  cases fuel with
  | zero => exact .throw fun _ => id
  | succ fuel => exact meets_exec_gives (ofBook book fuel) owner h c

theorem meets_answer_gives {book : Book} {f : Value} {args : List Object} {P : Object → Prop}
    (h : (book f args).Gives P) (fuel : Nat) (owner : Owner) :
    Meets (fun _ => True) ((ofBook book fuel).answer owner (.call f args))
      (fun o _ => P o) fun _ => True :=
  .bind (Q := fun _ _ => True) .any fun _ => .bind (meets_call_gives h fuel owner none) fun _ =>
    .pure fun _ h => h

end Engine

/-! ### Values -/

theorem Value.field_insert {name k : String} (h : k ≠ name) (v : Value) (entries : Value.Entries) :
    Value.field name (Value.insert (.str k) v entries) = Value.field name entries := by
  unfold field
  induction entries with
  | nil => simp [insert, lookup, h]
  | cons p rest ih =>
    obtain ⟨l, w⟩ := p
    by_cases same : l.same (.str k) = true
    · rw [eq_of_same_str same]
      simp [insert, lookup, h]
    · simp only [insert, same, if_false, lookup, ih, Bool.false_eq_true]

theorem Value.field_merge {name : String} {changes : Fields} (h : ∀ p ∈ changes, p.1 ≠ name)
    (base : Value.Entries) :
    Value.field name (Value.merge base changes.toEntries) = Value.field name base := by
  induction changes generalizing base with
  | nil => rfl
  | cons p rest ih =>
    obtain ⟨here, others⟩ := List.forall_mem_cons.mp h
    exact (ih others _).trans (field_insert here p.2 base)

theorem Value.mem_of_field {name : String} {v : Value} {entries : Value.Entries}
    (h : Value.field name entries = some v) : (.str name, v) ∈ entries := by
  unfold field at h
  induction entries with
  | nil => cases h
  | cons p rest ih =>
    obtain ⟨l, w⟩ := p
    unfold lookup at h
    split at h
    · rename_i same
      cases h
      rw [eq_of_same_str same]
      exact List.mem_cons_self
    · exact List.mem_cons_of_mem _ (ih h)

namespace Form

open Stock

/-- The values of a form, in its context. -/
def values? (context : Value) : Option Value := context.entries?.bind (Value.field "values")

theorem required_values {context v : Value} (h : values? context = some v) :
    required "values" context = .done v := by
  obtain ⟨entries, he, hv⟩ := Option.bind_eq_some_iff.mp h
  unfold required
  rw [he]
  dsimp only
  rw [hv]

theorem required_values_none {context : Value} (h : values? context = none) :
    ∃ f, required "values" context = .fail f := by
  unfold required
  unfold values? at h
  cases he : context.entries? with
  | none => exact ⟨_, rfl⟩
  | some entries =>
    rw [he] at h
    dsimp only
    rw [show Value.field "values" entries = none from h]
    exact ⟨_, rfl⟩

theorem values?_withFields {changes : Fields} (h : ∀ p ∈ changes, p.1 ≠ "values")
    (base : Value.Entries) :
    values? (withFields base changes).value = Value.field "values" base :=
  Value.field_merge h base

theorem gives_entries (context : Value) :
    (Prog.entries context).Gives fun entries => Value.field "values" entries = values? context := by
  unfold Prog.entries values?
  cases context.entries? with
  | some entries => exact rfl
  | none =>
    dsimp only
    split
    · refine (Prog.Gives.any (Prog.listing context "keys")).bind fun keys _ => ?_
      split
      · exact rfl
      · trivial
    · trivial

/-- The actions that record no change, with the values they close over. -/
def Keeper (validate : Value) (f : Value) : Prop :=
  f = action .validate [validate] ∨ f = action .clear [] ∨ f = action .succeed [] ∨
    f = action .fail []

/-- The guard of a submission. -/
def guard (validate : Value) : Value := .function .own none (.form .isValid) [validate]

/-- The validation finds nothing in the values. -/
def Valid (check : Value → Value.Entries) (v : Value) : Prop :=
  ∀ message ∈ check v, message.2.truth = false

/-- A form as it is made: what its host's functions do, its initial values, what validates and
what submits values, its name, and what the validation says of values. -/
structure Design where
  host : Nat → List Object → Prog Object
  values : Value.Entries
  validate : Value
  submit : Value
  name : Value
  check : Value → Value.Entries

namespace Design

/-- What the callables of the form do, and all others. -/
def book (d : Design) : Book := .ofCodes (codesOf d.host)

/-- The validation is a function of the values, and returns a mapping. -/
def Validates (d : Design) : Prop :=
  ∀ v, (d.book d.validate [.fresh v]).Gives fun o => o.value = .map (d.check v)

end Design

end Form

namespace Engine

open Run Form Stock

/-- As an action, the callable leaves the values of the form as they are. -/
def KeepsValues (g : Engine) (f : Value) : Prop := ∀ owner c event access,
  Meets (fun _ => True) (g.call owner f [.held c, event, access] (some c))
    (fun r _ => values? (r.2.getD c).value = values? c.value) fun _ => True

/-- As a guard, the callable lets pass only values in which the validation finds nothing. -/
def Vets (g : Engine) (check : Value → Value.Entries) (f : Value) : Prop := ∀ owner c event,
  Meets (fun _ => True) (g.call owner f [.held c, event] none)
    (fun r _ => r.1.value.truth = true → ∃ v, values? c.value = some v ∧ Valid check v)
      fun _ => True

end Engine

namespace Form

open Stock Run

theorem gives_recorded {code : FormCode} {held : List Value} {validate : Value}
    (h : Keeper validate (action code held)) (c : Context) (event : Object) :
    (behaviour code held [.held c, event]).Gives fun o => values? o.value = values? c.value := by
  have others {name : String} (hname : name ≠ "values") (v : Value) :
      ∀ p ∈ [(name, v)], p.1 ≠ "values" :=
    List.forall_mem_singleton.mpr hname
  rcases h with h | h | h | h <;> cases h
  · refine (gives_entries c.value).bind fun base hb => (Prog.Gives.any _).bind fun v _ =>
      (Prog.Gives.any _).bind fun r _ => ?_
    exact (values?_withFields (others (by decide) _) base).trans hb
  · refine (gives_entries c.value).bind fun base hb => ?_
    have others :
        ∀ p ∈ [("submit_result", Value.null), ("submit_error", .null)], p.1 ≠ "values" := by decide
    exact (values?_withFields others base).trans hb
  · refine (gives_entries c.value).bind fun base hb => (Prog.Gives.any _).bind fun e _ =>
      (Prog.Gives.any _).bind fun v _ => ?_
    exact (values?_withFields (others (by decide) _) base).trans hb
  · refine (gives_entries c.value).bind fun base hb => (Prog.Gives.any _).bind fun e _ =>
      (Prog.Gives.any _).bind fun v _ => ?_
    exact (values?_withFields (others (by decide) _) base).trans hb

namespace Design

variable {d : Design}

/-- Of the actions of a form, only that of a change touches the values. -/
theorem keepsValues_ofBook {f : Value} (h : Keeper d.validate f) (fuel : Nat) :
    (Engine.ofBook d.book fuel).KeepsValues f := by
  obtain ⟨code, held, rfl⟩ : ∃ code held, f = action code held := by
    rcases h with rfl | rfl | rfl | rfl <;> exact ⟨_, _, rfl⟩
  have recorded (c : Context) (event : Object) :
      (d.book (.function .own none (.form code) held) [.held c, event]).Gives fun o =>
        values? o.value = values? c.value :=
    gives_recorded h c event
  intro owner c event ⟨stamp, access⟩
  cases fuel with
  | zero => exact .throw fun _ => id
  | succ fuel =>
    cases access with
    | actionAccess o =>
      refine .bind (Engine.meets_answer_gives (recorded c event) fuel owner) fun result => ?_
      refine .given (φ := values? result.value = values? c.value) (fun _ hw => hw) fun kept => ?_
      refine .bind (Q := fun c' _ => c'.value = result.value)
        (.bind .any fun n => .pure fun _ _ => rfl) fun c' => ?_
      exact .pure fun _ same => (congrArg values? same).trans kept
    | _ => exact .fail fun _ => id

/-- The guard of a form lets pass only values in which the validation finds nothing. -/
theorem vets_ofBook (h : d.Validates) (fuel : Nat) :
    (Engine.ofBook d.book fuel).Vets d.check (guard d.validate) := by
  intro owner c event
  cases fuel with
  | zero => exact .throw fun _ => id
  | succ fuel =>
    show Meets _ ((Engine.ofBook d.book fuel).exec owner (required "values" c.value >>= fun v => do
      let result ← callWith d.validate v
      let found ← messages result.value
      return Object.fresh (.bool (!found.any Value.truth))) none) _ _
    cases hv : values? c.value with
    | none =>
      obtain ⟨f, missing⟩ := required_values_none hv
      rw [missing]
      exact .fail fun _ => id
    | some v =>
      rw [required_values hv]
      refine .bind (Engine.meets_answer_gives (h v) fuel owner) fun result =>
        .given (fun _ hw => hw) fun hr => ?_
      have found : messages result.value = .done ((d.check v).map Prod.snd) := by
        unfold messages
        rw [hr]
        rfl
      show Meets _ ((Engine.ofBook d.book fuel).exec owner (messages result.value >>= fun found =>
        return Object.fresh (.bool (!found.any Value.truth))) none) _ _
      rw [found]
      refine .pure fun _ _ passed => ⟨v, rfl, fun message hm => ?_⟩
      have passed : (!((d.check v).map Prod.snd).any Value.truth) = true := passed
      have silent : ((d.check v).map Prod.snd).any Value.truth = false := by simpa using passed
      exact Bool.eq_false_iff.mpr (List.any_eq_false.mp silent _ (List.mem_map_of_mem hm))

end Design

end Form

end FlatMachine
