import FlatMachine.Proofs.Stock.FormChart

/-! # Edits

The story of a form tells which fields were edited (**`Form.edits`**).  Wherever the form is, its
values are the initial ones with these edits, and its state means what it says
(**`Form.Sound`**): whatever the chart allows keeps it so, unless a hook disturbs it
(**`Form.Design.keeps_sound`**). -/

namespace FlatMachine
namespace Form

open Stock

/-- The field that is edited, and its value, if a change is taken that carries both. -/
def edit? : Chapter → Option (Value × Value)
  | .taken (.event e) => if e.type = "CHANGE" then (changeOf e).toOption else none
  | _ => none

/-- The edits, latest first. -/
def edits (told : List Chapter) : List (Value × Value) := told.filterMap edit?

/-- Values with edits made. -/
def withEdits (edits : List (Value × Value)) (values : Value.Entries) : Value.Entries :=
  edits.foldr (fun edit => Value.insert edit.1 edit.2) values

/-- The fields that were edited, each under its name. -/
def touchedBy (edits : List (Value × Value)) : Value.Entries :=
  edits.foldr (fun edit => Value.insert edit.1 (.bool true)) []

section Edits

variable {told : List Chapter} {ch : Chapter} {e : Event}

theorem edits_cons_none (h : edit? ch = none) : edits (ch :: told) = edits told :=
  List.filterMap_cons_none h

theorem edit?_of_error (h : e.type = "CHANGE" → ∃ f, changeOf e = .error f) :
    edit? (.taken (.event e)) = none := by
  refine ite_eq_right_iff.mpr fun type => ?_
  obtain ⟨f, failed⟩ := h type
  rw [failed]
  rfl

theorem edit?_of_type (h : e.type ≠ "CHANGE") : edit? (.taken (.event e)) = none :=
  edit?_of_error fun type => absurd type h

theorem edits_cons_change {name value : Value} (type : e.type = "CHANGE")
    (h : changeOf e = .ok (name, value)) :
    edits (.taken (.event e) :: told) = (name, value) :: edits told := by
  refine List.filterMap_cons_some ?_
  show (if e.type = "CHANGE" then (changeOf e).toOption else none) = _
  rw [if_pos type, h]
  rfl

end Edits

/-! ### Ways -/

/-- From the place, with the record, an event of the type leads along the edge. -/
inductive Way (check : Value → Value.Entries) (r : Record) :
    String → String → Edge FormCode Unit → Prop
  | change {name : String} (leaves : name ≠ "dirty" ∧ name ≠ "submitting") :
  Way check r name "CHANGE" (editing (some "dirty"))
  | inPlace {name : String} (stays : name = "dirty" ∨ name = "submitting") :
      Way check r name "CHANGE" (editing none)
  | send {name : String} (edited : name ≠ "submitting") : Way check r name "SUBMIT" sending
  | refuse {name : String} (edited : name ≠ "submitting" ∧ name ≠ "invalid")
      (refused : r.passes check = false) :
      Way check r name "SUBMIT" (validating (some "invalid"))
  | recheck (refused : r.passes check = false) : Way check r "invalid" "SUBMIT" (validating none)
  | retry : Way check r "failure" "RETRY" ⟨some "submitting", [], none⟩

namespace Design

variable {d : Design} {name type : String} {place : Place FormCode Unit}
  {edge other : Edge FormCode Unit} {r : Record}

/-- Of two candidates, the second is taken if the values do not pass. -/
theorem choice_sending (unguarded : other.guard = none)
    (chosen : d.chart.choice r [sending, other] = some edge) :
    edge = sending ∨ edge = other ∧ r.passes d.check = false := by
  unfold Chart.choice at chosen
  rw [List.find?_cons] at chosen
  cases passes : r.passes d.check with
  | true =>
    rw [show Option.all (d.chart.holds · r) sending.guard = true from passes] at chosen
    exact Or.inl (Option.some.inj chosen).symm
  | false =>
    rw [show Option.all (d.chart.holds · r) sending.guard = false from passes] at chosen
    refine Or.inr ⟨?_, rfl⟩
    rw [List.find?_cons, unguarded] at chosen
    exact (Option.some.inj chosen).symm

theorem way_of_choice (there : d.chart.place name = some place)
    (chosen : d.chart.choice r (place.offers type) = some edge) :
    Way d.check r name type edge := by
  have mem : (name, place) ∈ d.places := mem_of_lookup there
  obtain ⟨edges, listed, -⟩ := Place.mem_of_offers (Chart.mem_of_choice chosen).1
  simp only [places, List.mem_cons, Prod.mk.injEq, List.not_mem_nil, or_false] at mem
  rcases mem with ⟨rfl, rfl⟩ | ⟨rfl, rfl⟩ | ⟨rfl, rfl⟩ | ⟨rfl, rfl⟩ | ⟨rfl, rfl⟩ | ⟨rfl, rfl⟩ <;>
    simp only [List.mem_cons, Prod.mk.injEq, List.not_mem_nil, or_false] at listed
  · rcases listed with ⟨rfl, rfl⟩ | ⟨rfl, rfl⟩
    · cases chosen
      exact .change (by decide)
    · rcases choice_sending rfl chosen with rfl | ⟨rfl, refused⟩
      · exact .send (by decide)
      · exact .refuse (by decide) refused
  · rcases listed with ⟨rfl, rfl⟩ | ⟨rfl, rfl⟩
    · cases chosen
      exact .inPlace (by decide)
    · rcases choice_sending rfl chosen with rfl | ⟨rfl, refused⟩
      · exact .send (by decide)
      · exact .refuse (by decide) refused
  · rcases listed with ⟨rfl, rfl⟩ | ⟨rfl, rfl⟩
    · cases chosen
      exact .change (by decide)
    · rcases choice_sending rfl chosen with rfl | ⟨rfl, refused⟩
      · exact .send (by decide)
      · exact .recheck refused
  · obtain ⟨rfl, rfl⟩ := listed
    cases chosen
    exact .inPlace (by decide)
  · obtain ⟨rfl, rfl⟩ := listed
    cases chosen
    exact .change (by decide)
  · rcases listed with ⟨rfl, rfl⟩ | ⟨rfl, rfl⟩
    · cases chosen
      exact .retry
    · cases chosen
      exact .change (by decide)

/-- A change is possible everywhere, and not guarded; a pending submission is not left for it. -/
theorem offers_change (there : d.chart.place name = some place) :
    ∃ target, place.offers "CHANGE" = [editing target] ∧ (name = "submitting" → target = none) := by
  have mem : (name, place) ∈ d.places := mem_of_lookup there
  simp only [places, List.mem_cons, Prod.mk.injEq, List.not_mem_nil, or_false] at mem
  rcases mem with ⟨rfl, rfl⟩ | ⟨rfl, rfl⟩ | ⟨rfl, rfl⟩ | ⟨rfl, rfl⟩ | ⟨rfl, rfl⟩ | ⟨rfl, rfl⟩ <;>
    exact ⟨_, rfl, by decide⟩

/-- Only in submitting is anything awaited. -/
theorem submitting_of_task {task : Task FormCode Unit} (there : d.chart.place name = some place)
    (awaits : place.task = some task) :
    name = "submitting" ∧ task = d.task := by
  have mem : (name, place) ∈ d.places := mem_of_lookup there
  simp only [places, List.mem_cons, Prod.mk.injEq, List.not_mem_nil, or_false] at mem
  rcases mem with ⟨rfl, rfl⟩ | ⟨rfl, rfl⟩ | ⟨rfl, rfl⟩ | ⟨rfl, rfl⟩ | ⟨rfl, rfl⟩ | ⟨rfl, rfl⟩
  · cases awaits
  · cases awaits
  · cases awaits
  · exact ⟨rfl, (Option.some.inj awaits).symm⟩
  · cases awaits
  · cases awaits

theorem leaves_of_ends {failed : Bool} (h : edge ∈ d.task.ends failed) :
    edge.stays "submitting" = false := by
  cases failed with
  | false =>
    cases List.mem_singleton.mp h
    rfl
  | true =>
    cases List.mem_singleton.mp h
    rfl

/-- Only on entering submitting is anything done. -/
theorem entry_of_place (there : d.chart.place name = some place) :
    place.entry = if name = "submitting" then [.clear] else [] := by
  have mem : (name, place) ∈ d.places := mem_of_lookup there
  simp only [places, List.mem_cons, Prod.mk.injEq, List.not_mem_nil, or_false] at mem
  rcases mem with ⟨rfl, rfl⟩ | ⟨rfl, rfl⟩ | ⟨rfl, rfl⟩ | ⟨rfl, rfl⟩ | ⟨rfl, rfl⟩ | ⟨rfl,
    rfl⟩ <;> rfl

end Design

/-! ### Records that agree with the story -/

/-- The values are the initial ones with the edits, what was edited is touched, and what was
submitted was as it was edited by then. -/
structure Agrees (d : Design) (r : Record) (told : List Chapter) : Prop where
  values : r.values = withEdits (edits told) d.values
  touched : r.touched = touchedBy (edits told)
  calls : ∀ t f args earlier, .called t f args :: earlier <:+ told →
    d.book f args = callWith d.submit (.map (withEdits (edits earlier) d.values))

/-- The outcome of the latest call was taken, and its data or error is in the record. -/
def Ended (x : Spot Record) : Prop :=
  ∃ o f args, .taken (.outcome o) ∈ x.story ∧ o.cancelled = false ∧
  latestCall x.story = some (o.token, f, args) ∧
  (x.name = "success" → o.failed = false ∧ x.record.result = o.data ∧ x.record.error = .null) ∧
  (x.name = "failure" → o.failed = true ∧ x.record.error = o.error ∧ x.record.result = .null)

/-- The record agrees with the story where the service arrives. -/
structure Settled (d : Design) (x : Spot Record) : Prop where
  agrees : Agrees d x.record x.story
  invalid : x.name = "invalid" → x.record.errors = d.check (.map x.record.values) ∧
    x.record.passes d.check = false
  ended : x.name = "success" ∨ x.name = "failure" → Ended x

/-- The record agrees with the story. -/
structure Sound (d : Design) (x : Spot Record) : Prop extends Settled d x where
  submitting : x.name = "submitting" → x.record.result = .null ∧ x.record.error = .null

variable {d : Design} {x x' : Spot Record} {r r' : Record} {told : List Chapter}
  {edge : Edge FormCode Unit}

namespace Agrees

theorem cons (h : Agrees d r told) {ch : Chapter} (unedited : edit? ch = none)
    (other : ∀ t f args, ch ≠ .called t f args) :
    Agrees d r (ch :: told) where
  values := by
    rw [edits_cons_none unedited]
    exact h.values
  touched := by
    rw [edits_cons_none unedited]
    exact h.touched
  calls := by
    intro t f args earlier hp
    rcases List.suffix_cons_iff.mp hp with hp | hp
    · exact absurd (List.cons.inj hp).1.symm (other t f args)
    · exact h.calls t f args earlier hp

theorem alike (h : Agrees d r told) (values : r'.values = r.values)
    (touched : r'.touched = r.touched) : Agrees d r' told :=
  ⟨values.trans h.values, touched.trans h.touched, h.calls⟩

theorem changed (h : Agrees d r told) {e : Event} {name value : Value} (type : e.type = "CHANGE")
    (carries : changeOf e = .ok (name, value)) :
    Agrees d (r.edited name value) (.taken (.event e) :: told) where
  values := by
    rw [edits_cons_change type carries]
    exact congrArg (Value.insert name value) h.values
  touched := by
    rw [edits_cons_change type carries]
    exact congrArg (Value.insert name (.bool true)) h.touched
  calls := by
    intro t f args earlier hp
    rcases List.suffix_cons_iff.mp hp with hp | hp
    · cases hp
    · exact h.calls t f args earlier hp

/-- What is submitted is what is in the record. -/
theorem called (h : Agrees d r told) {context : Object} (shown : context.value = r.shown)
    (t : Token) (event access : Object) :
    Agrees d r (.called t d.task.source [context, event, access] :: told) where
  values := h.values
  touched := h.touched
  calls := by
    intro u f args earlier hp
    rcases List.suffix_cons_iff.mp hp with hp | hp
    · cases hp
      rw [← h.values]
      exact Design.book_source (by rw [shown]; rfl) event access
    · exact h.calls u f args earlier hp

/-- What the actions of an edge make of the record agrees with the story, with the event on which
it is taken. -/
theorem led (h : Agrees d r told) {name : String} {e : Event} {time : Nat} {y : Record × Nat}
    (way : Way d.check r name e.type edge) (ran : d.chart.Runs e edge.actions (r, time) y) :
    Agrees d y.1 (.taken (.event e) :: told) := by
  have checked (other : e.type ≠ "CHANGE") (ran : d.chart.Runs e [.validate] (r, time) y) :
      Agrees d y.1 (.taken (.event e) :: told) := by
    obtain _ | ⟨⟨⟩, ⟨⟩⟩ := ran
    exact (h.cons (edit?_of_type other) nofun).alike rfl rfl
  generalize typed : e.type = type at way
  cases way with
  | change | inPlace =>
    obtain _ | ⟨⟨carries⟩, ⟨⟩⟩ := ran
    exact h.changed typed carries
  | send | refuse | recheck => exact checked (typed ▸ by decide) ran
  | retry =>
    cases ran
    exact h.cons (edit?_of_type (typed ▸ by decide)) nofun

end Agrees

/-- What may leave the service where it was edits nothing. -/
theorem unedited_of_remains {item : Item} (remains : d.chart.Remains x item) :
    edit? (.taken item) = none := by
  cases remains with
  | ignored there none =>
    refine edit?_of_type fun change => ?_
    obtain ⟨target, offers, -⟩ := Design.offers_change there
    rw [change, offers] at none
    cases none
  | guarding there offered guarded =>
    refine edit?_of_type fun change => ?_
    obtain ⟨target, offers, -⟩ := Design.offers_change there
    rw [change, offers] at offered
    cases List.mem_singleton.mp offered
    cases guarded
  | outcome => rfl
  | failed chooses fails =>
    cases chooses with
    | outcome => rfl
    | event there chosen =>
      refine edit?_of_error fun change => ?_
      obtain ⟨target, offers, -⟩ := Design.offers_change there
      rw [change, offers] at chosen
      cases chosen
      cases fails with
      | here fails => exact ⟨_, fails⟩
      | later _ others => cases others
  | leaving chooses leaves tasked =>
    cases chooses with
    | outcome => rfl
    | event there chosen =>
      obtain ⟨place, here, tasked⟩ := tasked
      obtain ⟨task, awaits⟩ := Option.isSome_iff_exists.mp tasked
      have way := Design.way_of_choice there chosen
      rw [(Design.submitting_of_task here awaits).1] at way leaves
      refine edit?_of_type fun change => ?_
      generalize submitting : "submitting" = name at way leaves
      generalize typed : Event.type _ = type at way change
      cases way with
      | change elsewhere => exact elsewhere.2 submitting.symm
      | inPlace => cases leaves
      | _ => exact absurd change (by decide)

theorem underway_of_submitting (named : x.name = "submitting") :
    ¬ (x.name = "success" ∨ x.name = "failure") := by
  rw [named]
  decide

namespace Settled

theorem taken (h : Settled d x) {item : Item} (unedited : edit? (.taken item) = none) :
    Settled d (x.told (.taken item)) where
  agrees := h.agrees.cons unedited nofun
  invalid := h.invalid
  ended := fun closed => by
    obtain ⟨o, f, args, taken, rest⟩ := h.ended closed
    exact ⟨o, f, args, List.mem_cons_of_mem _ taken, rest⟩

/-- Entering a place clears what was submitted, if it is submitting. -/
theorem entered (h : Settled d x) {e : Event} (enters : d.chart.Enters e x x') : Sound d x' := by
  obtain ⟨there, ran⟩ := enters
  rw [Design.entry_of_place there] at ran
  split at ran
  · rename_i named
    obtain _ | ⟨⟨⟩, ⟨⟩⟩ := ran
    exact ⟨⟨h.agrees.alike rfl rfl, h.invalid, fun closed =>
      absurd closed (underway_of_submitting named)⟩, fun _ => ⟨rfl, rfl⟩⟩
  · rename_i other
    cases ran
    exact ⟨h, fun named => absurd named other⟩

end Settled

namespace Sound

/-- An edge that is taken on an event leaves the record right for where it leads. -/
theorem led {e : Event} {target : String} {y : Record × Nat} (h : Sound d x)
    (way : Way d.check x.record x.name e.type edge) (aim : edge.target = some target)
    (ran : d.chart.Runs e edge.actions x.state y) :
    Settled d (((x.told (.taken (.event e))).acted y).moved target) := by
  have agrees : Agrees d y.1 (.moved (.str x.name) (.str target) :: .taken (.event e) :: x.story) :=
    (h.agrees.led way ran).cons rfl nofun
  refine ⟨agrees, fun named => ?_, fun closed => ?_⟩
  · have named : target = "invalid" := named
    generalize x.name = name at way
    generalize e.type = type at way
    cases way with
    | refuse edited refused =>
      obtain _ | ⟨⟨⟩, ⟨⟩⟩ := ran
      exact ⟨rfl, refused⟩
    | _ => cases aim <;> exact absurd named (by decide)
  · have closed : target = "success" ∨ target = "failure" := closed
    generalize x.name = name at way
    generalize e.type = type at way
    cases way <;> cases aim <;> exact absurd closed (by decide)

/-- An edge that is taken on the outcome of the latest call leaves the record right for where it
leads. -/
theorem settled {o : Outcome} {seen : Event} {target : String} {y : Record × Nat} (h : Sound d x)
    (settles : d.chart.Settles x o edge seen) (aim : edge.target = some target)
    (ran : d.chart.Runs seen edge.actions x.state y) :
    Settled d (((x.told (.taken (.outcome o))).acted y).moved target) := by
  obtain ⟨place, task, there, awaits, chosen⟩ := settles.taken
  obtain ⟨named, rfl⟩ := Design.submitting_of_task there awaits
  obtain ⟨result, error⟩ := h.submitting named
  obtain ⟨items, f, args, earlier, -, latest⟩ := since_calling settles.wanted
  have told : Agrees d x.record (.taken (.outcome o) :: x.story) := h.agrees.cons rfl nofun
  have agrees :
      Agrees d x.record (.moved (.str x.name) (.str target) :: .taken (.outcome o) :: x.story) :=
    told.cons rfl nofun
  have taken :
      Chapter.taken (.outcome o) ∈ (((x.told (.taken (.outcome o))).acted y).moved target).story :=
    List.mem_cons_of_mem _ List.mem_cons_self
  have mem := (Chart.mem_of_choice chosen).1
  have payload := settles.seen
  cases failed : o.failed with
  | false =>
    rw [failed] at mem payload
    cases List.mem_singleton.mp mem
    cases aim
    obtain _ | ⟨_ | _ | _ | ⟨found⟩, ⟨⟩⟩ := ran
    cases (Event.getItem_withPayload (by decide) payload).symm.trans found
    refine ⟨agrees.alike rfl rfl, fun named =>
      absurd (show "success" = "invalid" from named) (by decide), fun _ => ?_⟩
    exact ⟨o, f, args, taken, settles.valid, latest, fun _ => ⟨failed, rfl, error⟩,
      fun same => absurd (show "success" = "failure" from same) (by decide)⟩
  | true =>
    rw [failed] at mem payload
    cases List.mem_singleton.mp mem
    cases aim
    obtain _ | ⟨_ | _ | _ | _ | ⟨found⟩, ⟨⟩⟩ := ran
    cases (Event.getItem_withPayload (by decide) payload).symm.trans found
    refine ⟨agrees.alike rfl rfl, fun named =>
      absurd (show "failure" = "invalid" from named) (by decide), fun _ => ?_⟩
    exact ⟨o, f, args, taken, settles.valid, latest, fun same =>
      absurd (show "failure" = "success" from same) (by decide),
      fun _ => ⟨failed, rfl, result⟩⟩

/-- An edge that stays leaves the record right. -/
theorem inside {item : Item} {e seen : Event} {y : Record × Nat} (h : Sound d x)
    (chooses : d.chart.Chooses x item edge e seen) (stays : edge.stays x.name = true)
    (ran : d.chart.Runs seen edge.actions x.state y) :
    Sound d ((x.told (.taken item)).acted y) := by
  cases chooses with
  | event there chosen =>
    have way := Design.way_of_choice there chosen
    have agrees : Agrees d y.1 (.taken (.event e) :: x.story) := h.agrees.led way ran
    have underway (other : x.name ≠ "success" ∧ x.name ≠ "failure")
        (closed : x.name = "success" ∨ x.name = "failure") :
        Ended ((x.told (.taken (.event e))).acted y) := absurd closed (not_or.mpr other)
    generalize named : x.name = name at way stays
    generalize e.type = type at way
    -- Two of the ways stay: an edit in place, and a check that refuses once more.
    cases way with
    | change elsewhere => exact absurd (beq_iff_eq.mp stays).symm elsewhere.1
    | send edited => exact absurd (beq_iff_eq.mp stays).symm edited
    | refuse edited => exact absurd (beq_iff_eq.mp stays).symm edited.2
    | retry => cases stays
    | inPlace here =>
      obtain _ | ⟨⟨⟩, ⟨⟩⟩ := ran
      have other : x.name ≠ "invalid" ∧ x.name ≠ "success" ∧ x.name ≠ "failure" := by
        rcases here with rfl | rfl <;> exact named ▸ by decide
      exact ⟨⟨agrees, fun invalid => absurd invalid other.1, underway other.2⟩, h.submitting⟩
    | recheck refused =>
      obtain _ | ⟨⟨⟩, ⟨⟩⟩ := ran
      exact ⟨⟨agrees, fun _ => ⟨rfl, refused⟩, underway (named ▸ by decide)⟩, h.submitting⟩
  | outcome settles =>
    obtain ⟨place, task, there, awaits, chosen⟩ := settles.taken
    obtain ⟨named, rfl⟩ := Design.submitting_of_task there awaits
    rw [named, Design.leaves_of_ends (Chart.mem_of_choice chosen).1] at stays
    cases stays

/-- The submission is called for. -/
theorem called (h : Sound d x) (calls : d.chart.Calls x x') : Sound d x' := by
  obtain ⟨t, there, awaits, shown⟩ := calls
  obtain ⟨named, rfl⟩ := Design.submitting_of_task there awaits
  exact ⟨⟨h.agrees.called shown t _ _, h.invalid, fun closed =>
    absurd closed (underway_of_submitting named)⟩, h.submitting⟩

end Sound

/-- Whatever the chart allows, the record agrees with the story, unless it is disturbed. -/
theorem Design.keeps_sound (d : Design) : d.chart.Keeps True (Sound d) := by
  have stepwise : d.chart.Stepwise True (Sound d) (Settled d) (Sound d) := {
    starts := ⟨⟨⟨rfl, rfl, fun _ _ _ _ hp => nomatch List.suffix_nil.mp hp⟩,
      fun named => absurd (show "idle" = "invalid" from named) (by decide),
      fun closed => absurd (show "idle" = "success" ∨ "idle" = "failure" from closed) (by decide)⟩,
      fun named => absurd (show "idle" = "submitting" from named) (by decide)⟩
    told := fun _ _ => Or.inr trivial
    remains := fun h remains => ⟨h.taken (unedited_of_remains remains), h.submitting⟩
    inside := fun h chooses stays ran => h.inside chooses stays ran
    arrives := by
      rintro x x' item edge e seen h chooses ⟨aim, other, ran⟩
      cases chooses with
      | event there chosen => exact h.led (Design.way_of_choice there chosen) aim ran
      | outcome settles => exact h.settled settles aim ran
    arrived := fun _ => Or.inr trivial
    enters := fun h enters => h.entered enters
    entered := id
    calls := fun h calls => h.called calls }
  exact stepwise.keeps

end Form
end FlatMachine
