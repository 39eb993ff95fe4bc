import FlatMachine.Proofs.Service.Delivery
import FlatMachine.Proofs.Stock.Request

/-! # What becomes of requests

The story of a service tells on which events requests were begun (**`Request.begun`**), so for
which input the next one is made (**`Request.asked`**), and whether the latest one repeats a
request that failed (**`Request.repeated`**).  Its record agrees with the story, wherever the
service is (**`Request.Sound`**, **`Request.keeps_sound`**). -/

namespace FlatMachine
namespace Request

open Stock

/-- The events on which requests were begun, latest first. -/
def begun : List Chapter → List Event
  | .moved _ target :: .taken (.event e) :: earlier =>
    if target.same (.str "loading") then e :: begun earlier else begun earlier
  | _ :: earlier => begun earlier
  | [] => []

/-- The input of the latest `FETCH` of those on which requests were begun. -/
def asked (events : List Event) : Value := (events.find? (·.type == "FETCH")).elim .null inputOf

/-- The latest request was begun on a `RETRY`. -/
def repeated (events : List Event) : Bool := events.head?.any (·.type == "RETRY")

section Story

variable {told : List Chapter}

theorem begun_taken (item : Item) : begun (.taken item :: told) = begun told := by rw [begun]; nofun

theorem begun_called (t : Token) (f : Value) (args : List Object) :
    begun (.called t f args :: told) = begun told := by
  rw [begun]; nofun

theorem begun_event (source : Value) (target : String) (e : Event) :
    begun (.moved source (.str target) :: .taken (.event e) :: told) =
      if target = "loading" then e :: begun told else begun told := by
  rw [begun, Value.same_str]
  simp only [beq_iff_eq]

theorem begun_outcome (source target : Value) (o : Outcome) :
    begun (.moved source target :: .taken (.outcome o) :: told) = begun told := by
  rw [begun, begun_taken]; nofun

theorem begun_of_calling {t : Token} (h : calling told = some t) :
    ∃ f args earlier, .called t f args :: earlier <:+ told ∧
    latestCall told = some (t, f, args) ∧ begun told = begun earlier := by
  obtain ⟨items, f, args, earlier, rfl, latest⟩ := since_calling h
  refine ⟨f, args, earlier, List.suffix_append _ _, latest, ?_⟩
  clear h latest
  induction items with
  | nil => exact begun_called t f args
  | cons item items ih => exact (begun_taken item).trans ih

end Story

/-! ### Ways -/

/-- From the place, an event of the type leads along the edge. -/
inductive Way : String → String → Edge RequestCode Empty → Prop
  | fetch {name : String} (idle : name ≠ "loading") : Way name "FETCH" fetching
  | cancel : Way "loading" "CANCEL" ⟨some "idle", [], none⟩
  | retry : Way "failure" "RETRY" ⟨some "loading", [], none⟩

variable {requestFn : Value} {name type : String} {place : Place RequestCode Empty}
  {edge : Edge RequestCode Empty}

theorem way_of_offer (there : (chart requestFn).place name = some place)
    (h : edge ∈ place.offers type) : Way name type edge := by
  have mem : (name, place) ∈ places requestFn := mem_of_lookup there
  obtain ⟨edges, listed, h⟩ := Place.mem_of_offers h
  simp only [places, List.mem_cons, Prod.mk.injEq, List.not_mem_nil, or_false] at mem
  rcases mem with ⟨rfl, rfl⟩ | ⟨rfl, rfl⟩ | ⟨rfl, rfl⟩ | ⟨rfl, rfl⟩ <;>
    simp only [List.mem_cons, Prod.mk.injEq, List.not_mem_nil, or_false] at listed
  · obtain ⟨rfl, rfl⟩ := listed
    cases List.mem_singleton.mp h
    exact .fetch (by decide)
  · obtain ⟨rfl, rfl⟩ := listed
    cases List.mem_singleton.mp h
    exact .cancel
  · obtain ⟨rfl, rfl⟩ := listed
    cases List.mem_singleton.mp h
    exact .fetch (by decide)
  · rcases listed with ⟨rfl, rfl⟩ | ⟨rfl, rfl⟩
    · cases List.mem_singleton.mp h
      exact .retry
    · cases List.mem_singleton.mp h
      exact .fetch (by decide)

/-- Only in loading is anything awaited. -/
theorem loading_of_task {t : Task RequestCode Empty}
    (there : (chart requestFn).place name = some place) (awaits : place.task = some t) :
    name = "loading" ∧ t = task requestFn := by
  have mem : (name, place) ∈ places requestFn := mem_of_lookup there
  simp only [places, List.mem_cons, Prod.mk.injEq, List.not_mem_nil, or_false] at mem
  rcases mem with ⟨rfl, rfl⟩ | ⟨rfl, rfl⟩ | ⟨rfl, rfl⟩ | ⟨rfl, rfl⟩
  · cases awaits
  · exact ⟨rfl, (Option.some.inj awaits).symm⟩
  · cases awaits
  · cases awaits

/-- Only on entering loading is anything done. -/
theorem entry_of_place (there : (chart requestFn).place name = some place) :
    place.entry = if name = "loading" then [.start] else [] := by
  have mem : (name, place) ∈ places requestFn := mem_of_lookup there
  simp only [places, List.mem_cons, Prod.mk.injEq, List.not_mem_nil, or_false] at mem
  rcases mem with ⟨rfl, rfl⟩ | ⟨rfl, rfl⟩ | ⟨rfl, rfl⟩ | ⟨rfl, rfl⟩ <;> rfl

/-! ### Records that agree with the story -/

/-- The outcome of the latest call was taken, and its data or error is in the record. -/
def Ended (book : Book) (requestFn : Value) (x : Spot Record) : Prop := ∃ o f args n m,
  .taken (.outcome o) ∈ x.story ∧ o.cancelled = false ∧
  latestCall x.story = some (o.token, f, args) ∧
    book f args = callWith requestFn x.record.input ∧ x.record.started = .int (Int.ofNat n) ∧
    x.record.finished = .int (Int.ofNat m) ∧ n < m ∧
    (x.name = "success" → o.failed = false ∧ x.record.response = o.data) ∧
    (x.name = "failure" → o.failed = true ∧ x.record.error = o.error)

/-- The request was started at a time that has passed. -/
def Started (x : Spot Record) : Prop := ∃ n, x.record.started = .int (Int.ofNat n) ∧ n ≤ x.time

/-- The record agrees with the story. -/
structure Sound (book : Book) (requestFn : Value) (x : Spot Record) : Prop where
  response : x.name ≠ "success" → x.record.response = .null
  error : x.name ≠ "failure" → (x.record.error = .null ↔ repeated (begun x.story) = false)
  input : x.record.input = asked (begun x.story)
  calls : ∀ t f args earlier, .called t f args :: earlier <:+ x.story →
    book f args = callWith requestFn (asked (begun earlier))
  pending : ∀ t, calling x.story = some t → Started x
  ended : x.name = "success" ∨ x.name = "failure" → Ended book requestFn x

variable {book : Book} {x x' : Spot Record}

/-- What failed left an error: no awaitable fails with nothing. -/
theorem Ended.error_ne (h : Ended book requestFn x) (named : x.name = "failure") :
    x.record.error ≠ .null := by
  obtain ⟨o, -, -, -, -, -, -, -, -, -, -, -, -, failed⟩ := h
  obtain ⟨failed, error⟩ := failed named
  intro null
  rw [Outcome.failed, ← error, null] at failed
  cases failed

namespace Sound

theorem told (h : Sound book requestFn x) (item : Item) :
    Sound book requestFn (x.told (.taken item)) where
  response := h.response
  error := fun other => (h.error other).trans
    (by rw [show begun (x.told (.taken item)).story = _ from begun_taken item])
  input := h.input.trans (congrArg asked (begun_taken item).symm)
  calls := by
    intro t f args earlier hp
    rcases List.suffix_cons_iff.mp hp with hp | hp
    · cases hp
    · exact h.calls t f args earlier hp
  pending := h.pending
  ended := fun closed => by
    obtain ⟨o, f, args, n, m, taken, rest⟩ := h.ended closed
    exact ⟨o, f, args, n, m, List.mem_cons_of_mem _ taken, rest⟩

/-- The service arrives in another place with another record, after these events on which
requests were begun. -/
theorem moved {target : String} {y : Record × Nat} {item : Item} {events : List Event}
    (h : Sound book requestFn x)
    (now : begun (.moved (.str x.name) (.str target) :: .taken item :: x.story) = events)
    (response : target ≠ "success" → y.1.response = .null)
    (error : target ≠ "failure" → (y.1.error = .null ↔ repeated events = false))
    (input : y.1.input = asked events)
    (ended : target = "success" ∨ target = "failure" →
      Ended book requestFn (((x.told (.taken item)).acted y).moved target)) :
    Sound book requestFn (((x.told (.taken item)).acted y).moved target) where
  response := response
  error := now ▸ error
  input := now ▸ input
  calls := by
    intro t f args earlier hp
    rcases List.suffix_cons_iff.mp hp with hp | hp
    · cases hp
    · exact (h.told item).calls t f args earlier hp
  pending := nofun
  ended := ended

/-- The actions of an edge that is taken on an event leave the record right for where it leads. -/
theorem led {e : Event} {target : String} {y : Record × Nat} (h : Sound book requestFn x)
    (way : Way x.name e.type edge) (aim : edge.target = some target)
    (ran : (chart requestFn).Runs e edge.actions x.state y) :
    Sound book requestFn (((x.told (.taken (.event e))).acted y).moved target) := by
  generalize named : x.name = name at way
  generalize typed : e.type = type at way
  cases way with
  | fetch idle =>
    cases aim
    obtain _ | ⟨⟨⟩, ⟨⟩⟩ := ran
    refine h.moved ((begun_event _ _ e).trans (if_pos rfl)) (fun _ => rfl) (fun _ => ?_) ?_
      fun closed => absurd closed (by decide)
    · exact iff_of_true rfl (by simp [repeated, typed])
    · simp [asked, typed]
  | cancel =>
    cases aim
    cases ran
    refine h.moved ((begun_event _ _ e).trans (if_neg (by decide))) (fun _ => h.response ?_)
      (fun _ => h.error ?_) h.input
      fun closed => absurd closed (by decide)
    · simp [named]
    · simp [named]
  | retry =>
    cases aim
    cases ran
    refine h.moved ((begun_event _ _ e).trans (if_pos rfl)) (fun _ => h.response ?_)
      (fun _ => ?_) ?_
      fun closed => absurd closed (by decide)
    · simp [named]
    · exact iff_of_false ((h.ended (Or.inr named)).error_ne named) (by simp [repeated, typed])
    · exact h.input.trans (by simp [asked, typed])

/-- The actions of an edge that is taken on the outcome of the latest call leave the record in
agreement with the story. -/
theorem settled {o : Outcome} {seen : Event} {target : String} {y : Record × Nat}
    (h : Sound book requestFn x) (settles : (chart requestFn).Settles x o edge seen)
    (aim : edge.target = some target) (ran : (chart requestFn).Runs seen edge.actions x.state y) :
    Sound book requestFn (((x.told (.taken (.outcome o))).acted y).moved target) := by
  obtain ⟨place, t, there, awaits, chosen⟩ := settles.taken
  obtain ⟨named, rfl⟩ := loading_of_task there awaits
  obtain ⟨n, started, before⟩ := h.pending _ settles.wanted
  obtain ⟨f, args, earlier, called, latest, same⟩ := begun_of_calling settles.wanted
  have argument : book f args = callWith requestFn x.record.input := by
    rw [h.input, same]
    exact h.calls _ f args earlier called
  have taken :
      Chapter.taken (.outcome o) ∈ (((x.told (.taken (.outcome o))).acted y).moved target).story :=
    List.mem_cons_of_mem _ List.mem_cons_self
  have mem := (Chart.mem_of_choice chosen).1
  have payload := settles.seen
  cases failed : o.failed with
  | false =>
    rw [failed] at mem payload
    cases List.mem_singleton.mp mem
    cases aim
    obtain _ | ⟨_ | _ | ⟨found, r, later⟩, ⟨⟩⟩ := ran
    cases (Event.getItem_withPayload (by decide) payload).symm.trans found
    refine h.moved (begun_outcome _ _ o) (fun other => absurd rfl other)
      (fun _ => h.error ?_) h.input fun _ => ?_
    · simp [named]
    · exact ⟨o, f, args, n, _, taken, settles.valid, latest, argument, started, rfl,
        Nat.lt_of_le_of_lt before later,
        fun _ => ⟨failed, rfl⟩, fun same =>
          absurd (show "success" = "failure" from same) (by decide)⟩
  | true =>
    rw [failed] at mem payload
    cases List.mem_singleton.mp mem
    cases aim
    obtain _ | ⟨_ | _ | _ | ⟨found, r, later⟩, ⟨⟩⟩ := ran
    cases (Event.getItem_withPayload (by decide) payload).symm.trans found
    refine h.moved (begun_outcome _ _ o) (fun _ => h.response ?_)
      (fun other => absurd rfl other) h.input fun _ => ?_
    · simp [named]
    · exact ⟨o, f, args, n, _, taken, settles.valid, latest, argument, started, rfl,
        Nat.lt_of_le_of_lt before later,
        fun same => absurd (show "failure" = "success" from same) (by decide), fun _ =>
          ⟨failed, rfl⟩⟩

/-- Entering a place starts a request, if it is loading. -/
theorem entered {e : Event} (h : Sound book requestFn x)
    (enters : (chart requestFn).Enters e x x') :
    Sound book requestFn x' ∧ (x'.name = "loading" → Started x') := by
  obtain ⟨there, ran⟩ := enters
  rw [entry_of_place there] at ran
  split at ran
  · rename_i named
    obtain _ | ⟨⟨_, r, later⟩, ⟨⟩⟩ := ran
    refine ⟨⟨h.response, h.error, h.input, h.calls, fun _ _ => ⟨_, rfl, Nat.le_refl _⟩,
      fun closed => ?_⟩,
      fun _ => ⟨_, rfl, Nat.le_refl _⟩⟩
    rw [show (x.acted _).name = "loading" from named] at closed
    exact absurd closed (by decide)
  · rename_i other
    cases ran
    exact ⟨h, fun named => absurd named other⟩

/-- The source is called with what was asked for. -/
theorem called {host : Nat → List Object → Prog Object}
    (h : Sound (.ofCodes (codesOf host)) requestFn x) (started : x.name = "loading" → Started x)
    (calls : (chart requestFn).Calls x x') :
    Sound (.ofCodes (codesOf host)) requestFn x' := by
  obtain ⟨t, there, awaits, shown⟩ := calls
  rename_i context event access
  obtain ⟨named, rfl⟩ := loading_of_task there awaits
  have same : begun (.called t (task requestFn).source [context, event, access] :: x.story) =
    begun x.story := begun_called ..
  refine ⟨h.response, fun other => (h.error other).trans (by rw [← same]; rfl),
    h.input.trans (congrArg asked same.symm), ?_,
    fun _ _ => started named, fun closed => ?_⟩
  · intro u f args earlier hp
    rcases List.suffix_cons_iff.mp hp with hp | hp
    · cases hp
      exact (book_source host requestFn shown event access).trans
        (congrArg (callWith requestFn) h.input)
    · exact h.calls u f args earlier hp
  · rw [show (x.told _).name = "loading" from named] at closed
    exact absurd closed (by decide)

end Sound

/-- No edge of the chart stays. -/
theorem not_stays {item : Item} {e seen : Event}
    (chooses : (chart requestFn).Chooses x item edge e seen) :
    edge.stays x.name = false := by
  cases chooses with
  | event there chosen =>
    have way := way_of_offer there (Chart.mem_of_choice chosen).1
    generalize x.name = name at way
    generalize e.type = type at way
    cases way with
    | fetch idle => exact beq_false_of_ne (Ne.symm idle)
    | cancel => rfl
    | retry => rfl
  | outcome settles =>
    obtain ⟨place, t, there, awaits, chosen⟩ := settles.taken
    obtain ⟨named, rfl⟩ := loading_of_task there awaits
    have mem := (Chart.mem_of_choice chosen).1
    rw [named]
    rename_i o
    cases failed : o.failed with
    | false =>
      rw [failed] at mem
      cases List.mem_singleton.mp mem
      rfl
    | true =>
      rw [failed] at mem
      cases List.mem_singleton.mp mem
      rfl

/-- Whatever the chart allows, the record agrees with the story. -/
theorem keeps_sound (host : Nat → List Object → Prog Object) (requestFn : Value) :
    (chart requestFn).Keeps False (Sound (.ofCodes (codesOf host)) requestFn) := by
  have stepwise : (chart requestFn).Stepwise False (Sound (.ofCodes (codesOf host)) requestFn)
      (Sound (.ofCodes (codesOf host)) requestFn)
      (fun x => Sound (.ofCodes (codesOf host)) requestFn x ∧ (x.name = "loading" → Started x)) := {
    starts := {
      response := fun _ => rfl
      error := fun _ => iff_of_true rfl rfl
      input := rfl
      calls := fun _ _ _ _ hp => nomatch List.suffix_nil.mp hp
      pending := nofun
      ended := fun closed =>
        absurd (show "idle" = "success" ∨ "idle" = "failure" from closed) (by decide) }
    told := fun item h => Or.inl (h.told item)
    remains := fun h _ => h.told _
    inside := fun _ chooses stays _ => absurd ((not_stays chooses).symm.trans stays) nofun
    arrives := by
      rintro x x' item edge e seen h chooses ⟨aim, other, ran⟩
      cases chooses with
      | event there chosen =>
        exact h.led (way_of_offer there (Chart.mem_of_choice chosen).1) aim ran
      | outcome settles => exact h.settled settles aim ran
    arrived := Or.inl
    enters := fun h enters => h.entered enters
    entered := fun h => h.1
    calls := fun h calls => h.1.called h.2 calls }
  exact stepwise.keeps

end Request
end FlatMachine
