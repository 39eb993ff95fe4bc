import FlatMachine.Proofs.Machine.Checked
import FlatMachine.Proofs.Stock.Form

/-! # The states of a form

The configuration of a form describes a machine with six nodes (**`Form.Design.nodes`**,
**`Form.Design.machine_of_create`**).  All that is said of what may be done in them is read off
this table (**`Form.Design.fair_event`**, **`Form.Design.fair_outcome`**): a candidate that leads
to a submission comes from a failed one, or has the guard that validates; and what may be done
while a submission is pending, or after it failed, leaves the values as they are, except for a
change while it is pending. -/

namespace FlatMachine
namespace Form

/-! ### Candidates -/

def edit : Transition := ⟨.null, [action .change []], .null⟩

def leave : Transition := ⟨.str "dirty", [action .change []], .null⟩

def submission (validate : Value) : Transition :=
  ⟨.str "submitting", [action .validate [validate]], guard validate⟩

def refusal (validate : Value) : Transition :=
  ⟨.str "invalid", [action .validate [validate]], .null⟩

def recheck (validate : Value) : Transition := ⟨.null, [action .validate [validate]], .null⟩

def retry : Transition := ⟨.str "submitting", [], .null⟩

def success : Transition := ⟨.str "success", [action .succeed []], .null⟩

def failure : Transition := ⟨.str "failure", [action .fail []], .null⟩

/-- Candidates by event type, as a node has them. -/
def listed (on : List (String × List Transition)) : Value.Entries :=
  on.map fun p => (.str p.1, .tuple (p.2.map Transition.toValue))

/-- A state in which nothing is done but to take events. -/
def resting (on : List (String × List Transition)) (tags : List String) : Node :=
  ⟨listed on, [], [], .null, tags.map .str⟩

theorem mem_listed {n : Node} {on : List (String × List Transition)} (h : n.on = listed on)
    {type : String} {v : Value} (hv : v ∈ n.candidatesFor type) :
    ∃ ts, (type, ts) ∈ on ∧ ∃ t ∈ ts, v = t.toValue := by
  unfold Node.candidatesFor at hv
  split at hv
  · rename_i candidates found
    have listing := Value.mem_of_field found
    rw [h] at listing
    obtain ⟨⟨k, ts⟩, mem, eq⟩ := List.mem_map.mp listing
    cases eq
    obtain ⟨t, ht, rfl⟩ := List.mem_map.mp hv
    exact ⟨ts, mem, t, ht, rfl⟩
  · cases hv

/-- The source of a submission. -/
def source (submit : Value) : Value := .function .own none (.form .submit) [submit]

namespace Design

variable (d : Design)

/-- The invocation of a submission. -/
def invocation : Invocation := ⟨source d.submit, [success.toValue], [failure.toValue], .bool true⟩

def submitting : Node where
  on := listed [("CHANGE", [edit])]
  entry := [action .clear []]
  exit := []
  invoke := d.invocation.toValue
  tags := [.str "loading"]

def nodes : List (String × Node) := [
  ("idle", resting
    [("CHANGE", [leave]), ("SUBMIT", [submission d.validate, refusal d.validate])] []),
  ("dirty", resting
    [("CHANGE", [edit]), ("SUBMIT", [submission d.validate, refusal d.validate])] []),
  ("invalid", resting [("CHANGE", [leave]), ("SUBMIT", [submission d.validate, recheck d.validate])]
    ["error"]),
  ("submitting", d.submitting),
  ("success", resting [("CHANGE", [leave])] ["success"]),
  ("failure", resting [("RETRY", [retry]), ("CHANGE", [leave])] ["error"])]

def machine : Machine where
  id := d.name
  initial := .str "idle"
  context := context d.values
  states := d.nodes.map fun p => (.str p.1, p.2.toValue)

theorem ofValue_config :
    Machine.ofValue (config d.values d.validate d.submit d.name) = .ok d.machine := by rfl

theorem machine_of_create {m : Machine} {validator : Validator}
    (h : Machine.create (config d.values d.validate d.submit d.name) validator = .ok m) :
    m = d.machine :=
  Machine.of_create d.ofValue_config h

theorem create_of_isOk {validator : Validator}
    (h : (Machine.create (config d.values d.validate d.submit d.name) validator).isOk = true) :
    Machine.create (config d.values d.validate d.submit d.name) validator = .ok d.machine :=
  Machine.create_of_ok d.ofValue_config h

/-- The node of a state is the one in the table. -/
theorem mem_nodes {d : Design} {name : String} {n : Value}
    (h : d.machine.node (.str name) = .ok n) :
    ∃ node, (name, node) ∈ d.nodes ∧ n = node.toValue := by
  unfold Machine.node at h
  rw [Value.checkKey_str] at h
  cases hl : Value.lookup (.str name) d.machine.states with
  | none => rw [hl] at h; cases h
  | some v =>
    rw [hl] at h
    cases h
    obtain ⟨⟨k, node⟩, mem, eq⟩ := List.mem_map.mp (Value.mem_of_field hl)
    cases eq
    exact ⟨node, mem, rfl⟩

end Design

/-! ### What may be done in a state -/

/-- A submission is pending, or it failed. -/
def Submitted (name : String) : Prop := name = "submitting" ∨ name = "failure"

instance (name : String) : Decidable (Submitted name) := inferInstanceAs (Decidable (_ ∨ _))

/-- What may be taken in a state, on a change or on anything else, keeps to what a submission is
about. -/
inductive Fair (validate : Value) (name : String) (changing : Prop) : Transition → Prop
  /-- while the form stays where it is, submitted values are not touched but by a change while
  they are pending -/
  | stay {actions : List Value} (h : Submitted name → changing ∧ name = "submitting") :
      Fair validate name changing ⟨.null, actions, .null⟩
  /-- the submission, if there was one, is over -/
  | leave {target : String} {actions : List Value} (other : target ≠ name)
      (h : ¬ Submitted target) :
      Fair validate name changing ⟨.str target, actions, .null⟩
  /-- values are submitted that were submitted before, or that the guard lets pass -/
  | submit {target : String} {actions : List Value} {g : Value} (other : target ≠ name)
      (keeps : ∀ f ∈ actions, Keeper validate f)
      (passed : g = .null ∧ Submitted name ∨ g = guard validate) :
      Fair validate name changing ⟨.str target, actions, g⟩

namespace Design

variable {d : Design}

theorem fair_event {name type : String} {node : Node} (h : (name, node) ∈ d.nodes) {v : Value}
    (hv : v ∈ node.candidatesFor type) :
    ∃ t : Transition, v = t.toValue ∧ Fair d.validate name (type = "CHANGE") t := by
  have edits {name : String} (h : Submitted name → name = "submitting") :
      Fair d.validate name ("CHANGE" = "CHANGE") edit := .stay fun submitted => ⟨rfl, h submitted⟩
  have leaves {name : String} (h : "dirty" ≠ name) :
      Fair d.validate name ("CHANGE" = "CHANGE") leave :=
    .leave h (by decide)
  have submits {name : String} (h : "submitting" ≠ name) :
      Fair d.validate name ("SUBMIT" = "CHANGE") (submission d.validate) :=
    .submit h (List.forall_mem_singleton.mpr (Or.inl rfl)) (Or.inr rfl)
  have refuses {name : String} (h : "invalid" ≠ name) :
      Fair d.validate name ("SUBMIT" = "CHANGE") (refusal d.validate) := .leave h (by decide)
  have rechecks : Fair d.validate "invalid" ("SUBMIT" = "CHANGE") (recheck d.validate) :=
    .stay fun submitted => absurd submitted (by decide)
  have retries : Fair d.validate "failure" ("RETRY" = "CHANGE") retry :=
    .submit (by decide) (List.forall_mem_nil _) (Or.inl ⟨rfl, Or.inr rfl⟩)
  have one {α : Type} {P : α → Prop} {a : α} (h : P a) : ∀ b ∈ [a], P b :=
    List.forall_mem_singleton.mpr h
  have more {α : Type} {P : α → Prop} {a : α} {rest : List α} (h : P a) (others : ∀ b ∈ rest, P b) :
      ∀ b ∈ a :: rest, P b := List.forall_mem_cons.mpr ⟨h, others⟩
  obtain ⟨on, listing, fair⟩ : ∃ on, node.on = listed on ∧ ∀ q ∈ on, ∀ t ∈ q.2,
      Fair d.validate name (q.1 = "CHANGE") t := by
    unfold nodes at h
    rcases h with _ | ⟨_, _ | ⟨_, _ | ⟨_, _ | ⟨_, _ | ⟨_, _ | ⟨_, ⟨⟩⟩⟩⟩⟩⟩⟩
    · exact ⟨_, rfl, more (one (leaves (by decide)))
        (one (more (submits (by decide)) (one (refuses (by decide)))))⟩
    · exact ⟨_, rfl, more (one (edits (by decide)))
        (one (more (submits (by decide)) (one (refuses (by decide)))))⟩
    · exact ⟨_, rfl,
        more (one (leaves (by decide))) (one (more (submits (by decide)) (one rechecks)))⟩
    · exact ⟨_, rfl, one (one (edits fun _ => rfl))⟩
    · exact ⟨_, rfl, one (one (leaves (by decide)))⟩
    · exact ⟨_, rfl, more (one retries) (one (one (leaves (by decide))))⟩
  obtain ⟨ts, mem, t, ht, rfl⟩ := mem_listed listing hv
  exact ⟨t, rfl, fair _ mem t ht⟩

/-- A submission is pending in one state; in all others, nothing is done on entering. -/
theorem submitting_or_resting {name : String} {node : Node} (h : (name, node) ∈ d.nodes) :
    (name = "submitting" ∧ node = d.submitting) ∨ ∃ on tags, node = resting on tags := by
  unfold nodes at h
  rcases h with _ | ⟨_, _ | ⟨_, _ | ⟨_, _ | ⟨_, _ | ⟨_, _ | ⟨_, ⟨⟩⟩⟩⟩⟩⟩⟩
  case tail.tail.tail.head => exact Or.inl ⟨rfl, rfl⟩
  all_goals exact Or.inr ⟨_, _, rfl⟩

theorem exit_of_mem {name : String} {node : Node} (h : (name, node) ∈ d.nodes) :
    node.exit = [] := by
  rcases submitting_or_resting h with ⟨-, rfl⟩ | ⟨on, tags, rfl⟩ <;> rfl

theorem keeper_entry {name : String} {node : Node} (h : (name, node) ∈ d.nodes) :
    ∀ f ∈ node.entry, Keeper d.validate f := by
  rcases submitting_or_resting h with ⟨-, rfl⟩ | ⟨on, tags, rfl⟩
  · exact List.forall_mem_singleton.mpr (Or.inr (Or.inl rfl))
  · exact List.forall_mem_nil _

theorem invoke_of_mem {name : String} {node : Node} (h : (name, node) ∈ d.nodes) :
    node.invoke = .null ∨ name = "submitting" ∧ node.invoke = d.invocation.toValue := by
  rcases submitting_or_resting h with ⟨rfl, rfl⟩ | ⟨on, tags, rfl⟩
  · exact Or.inr ⟨rfl, rfl⟩
  · exact Or.inl rfl

/-- An outcome ends the submission, or has it that it failed with the values as they are. -/
theorem fair_outcome (failed : Bool) {listed : Value} {candidates : List Value}
    (hc : d.invocation.toValue.member (if failed then "on_error" else "on_done") = .ok listed)
    (hl : listed.items = .ok candidates) {v : Value} (hv : v ∈ candidates) :
    ∃ t : Transition, v = t.toValue ∧ Fair d.validate "submitting" False t := by
  cases failed with
  | true =>
    cases hc
    cases hl
    rw [List.mem_singleton.mp hv]
    exact ⟨_, rfl, .submit (by decide) (List.forall_mem_singleton.mpr (by unfold Keeper; simp))
      (Or.inl ⟨rfl, Or.inl rfl⟩)⟩
  | false =>
    cases hc
    cases hl
    rw [List.mem_singleton.mp hv]
    exact ⟨_, rfl, .leave (by decide) (by decide)⟩

/-- The source submits the values. -/
theorem book_source {o : Object} {u : Value} (h : values? o.value = some u)
    (event access : Object) :
    d.book (source d.submit) [o, event, access] = Stock.callWith d.submit u := by
  show (Stock.required "values" o.value >>= fun u => Stock.callWith d.submit u) = _
  rw [required_values h]
  rfl

end Design
end Form
end FlatMachine
