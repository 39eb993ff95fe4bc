import FlatMachine.Command
import FlatMachine.Proofs.Service.Running

/-! # Where histories go

A history is what a host does, one command after the other, with the event loop taking turns in
between.  Whatever its callbacks do, it goes along a walk from rest to rest
(**`World.walk_after`**), so what every step keeps holds after every history.  The event loop
handles all failures, ordinary or not, but it does so at rest. -/

namespace FlatMachine

namespace Run

theorem tame_settleFuture (n : Nat) (settlement : Settlement) :
    (settleFuture n settlement).Tame := by
  unfold settleFuture
  refine .look fun v => ?_
  split
  · exact tame_settleAwaitable _ settlement
  · exact .pure fun _ => id

theorem tame_takeReady : takeReady.Tame := by
  unfold takeReady
  refine .bind .get fun v => ?_
  split
  · exact .pure fun _ h => h.1
  · rename_i r rest _
    refine .bind (Q := fun _ => World.Sane) (.set fun w h => ?_) fun _ => .pure fun _ => id
    obtain ⟨hw, rfl⟩ := h
    have step : Step .free v { v with ready := rest } := .aside rfl rfl rfl
    exact ⟨.free step, step.sane hw⟩

/-- A command that finds the world at rest leaves it so. -/
def Restful {α : Type} (x : Run α) : Prop := x.Goes .outside World.AtRest fun _ => World.AtRest

theorem Tame.restful {α : Type} {x : Run α} (h : x.Tame) : x.Restful := .frame .ofRest h

theorem restful_onLoop {α : Type} {body : Run α} (h : body.Restful) : (onLoop body).Restful := by
  unfold onLoop
  refine .bind (Goes.get.post fun _ _ h => h.1) fun v =>
    .bind (.aside .ofRest fun _ => ⟨rfl, rfl, rfl⟩) fun _ => ?_
  exact .bind h fun _ => .bind (.aside .ofRest fun _ => ⟨rfl, rfl, rfl⟩) fun _ => .pure fun _ => id

end Run

namespace Engine

open Run

variable {g : Engine}

/-! ### The event loop -/

theorem restful_callBody (hg : g.Tame) (owner : Owner) (body : Value) (args : List Object) :
    (g.callBody owner body args).Restful := by
  unfold callBody
  refine .tryCatch ?_ fun halt => ?_
  · exact .bind (goes_invoke hg .ofRest rfl fun _ _ => .ofUnvetted rfl) fun _ => .pure fun _ => id
  · cases halt with
    | raised f => exact .pure fun _ => id
    | exhausted => exact .throw _

theorem restful_complete (hg : g.Tame) (waiter : Waiter) (a : AwaitableId) :
    (g.complete waiter a).Restful := by
  unfold complete
  refine .bind (Goes.get.post fun _ _ h => h.1) fun v => ?_
  split
  · refine .tryCatch (tame_deliver hg waiter a _).restful fun halt => ?_
    cases halt with
    | raised f => exact .noted .ofRest fun _ _ => .report rfl
    | exhausted => exact .throw _
  · exact .pure fun _ => id

theorem restful_turn (hg : g.Tame) (r : Ready) : (g.turn r).Restful := by
  cases r with
  | complete waiter a => exact restful_complete hg waiter a
  | step a pauses body args =>
    cases pauses with
    | succ pauses => exact .aside .ofRest fun _ => ⟨rfl, rfl, rfl⟩
    | zero =>
      refine .bind (restful_callBody hg a.1 body args) fun settlement => .discard ?_
      exact (tame_settleAwaitable a settlement).restful

theorem restful_takeTurn (hg : g.Tame) : g.takeTurn.Restful := by
  unfold takeTurn
  refine .bind tame_takeReady.restful fun r => ?_
  cases r with
  | none => exact .pure fun _ => id
  | some r => exact .bind (restful_turn hg r) fun _ => .pure fun _ => id

theorem restful_runLoop (hg : g.Tame) (fuel : Nat) : (g.runLoop fuel).Restful := by
  induction fuel with
  | zero => exact .throw _
  | succ fuel ih =>
    exact .bind (restful_takeTurn hg) fun more => .ite (fun _ => ih) fun _ => .pure fun _ => id

/-! ### Commands -/

theorem restful_obey (hg : g.Tame) (c : Command) : (g.obey c).Restful := by
  cases c with
  | create config validator hooks ownLoop =>
    exact (tame_create config validator hooks ownLoop).restful
  | start i override => exact (tame_start hg override).restful
  | stop i => exact (tame_stop hg).restful
  | send i event => exact (tame_send hg event).restful
  | subscribe i name callback =>
    exact .bind (tame_listenerNamed name callback).restful fun listener =>
      (tame_subscribe listener).restful
  | unsubscribe n => exact (tame_unsubscribe n).restful
  | cancelInvocation i t => exact (tame_revoke hg t).restful
  | settle n settlement => exact (tame_settleFuture n settlement).restful
  | turn => exact restful_onLoop (restful_takeTurn hg)
  | flush => exact restful_onLoop (restful_runLoop hg g.bound)

end Engine

namespace World

theorem atRest_start (looping : Bool) : (World.start looping).AtRest where
  sane := fun _ _ hs => by cases hs
  idle := by
    rintro i ⟨s, hs, -⟩
    cases hs

/-- Every command finds the world at rest, so even one that a failure ended leaves nothing behind
for the next. -/
theorem walk_after {g : Engine} (hg : g.Tame) {w : World} (hw : w.AtRest) (history : List Command) :
    Walk .outside w (w.after g history) := by
  induction history generalizing w with
  | nil => exact .refl .outside w
  | cons c rest ih =>
    have walk := (Engine.restful_obey hg c w hw).1
    exact walk.trans (ih (walk.atRest hw))

theorem atRest_after (book : Book) (fuel : Nat) (looping : Bool) (history : List Command) :
    ((World.start looping).after (.ofBook book fuel) history).AtRest :=
  (walk_after (Engine.tame_ofBook book fuel) (atRest_start looping) history).atRest
    (atRest_start looping)

/-- What holds at the start and is kept by every step holds after every history. -/
theorem after_induction {I : World → Prop} {book : Book} {fuel : Nat} {looping : Bool}
    (history : List Command) (start : I (World.start looping))
    (step : ∀ l w w', Step l w w' → w.Sane → I w → I w') :
    I ((World.start looping).after (.ofBook book fuel) history) := by
  have walk := walk_after (Engine.tame_ofBook book fuel) (atRest_start looping) history
  exact walk.path.keeps step (atRest_start looping).sane start

/-- Every item is taken as the next one of a drain in progress. -/
theorem next_of_taken {book : Book} {fuel : Nat} {looping : Bool}
    {history : List Command} {p : Point} {earlier : List Point}
    (hp : p :: earlier <:+ ((World.start looping).after (.ofBook book fuel) history).points)
    {i : Nat} {item : Item} (head : p.journal.head? = some (.taken i item)) :
    ∃ (u : World) (s : Service), u.Next i s item ∧ p = (u.taken i item).now ∧
    earlier = u.points := by
  revert p earlier
  refine after_induction
    (I := fun w => ∀ {p : Point} {earlier : List Point}, p :: earlier <:+ w.points →
    p.journal.head? = some (.taken i item) →
    ∃ (u : World) (s : Service), u.Next i s item ∧ p = (u.taken i item).now ∧ earlier = u.points)
      history ?_ ?_
  · intro p earlier hp
    cases List.suffix_nil.mp hp
  · intro l w w' h sane hw p earlier hp head
    rcases h.of_taken sane hp head with hp | ⟨s, next, now, before⟩
    · exact hw hp head
    · exact ⟨w, s, next, now, before⟩

/-- A service works by one definition all its life. -/
theorem machine_after {g : Engine} (hg : g.Tame) {w : World} (hw : w.AtRest)
    (history : List Command) {i : Nat} {s : Service} (hs : w.services[i]? = some s) :
    ∃ s', (w.after g history).services[i]? = some s' ∧ s'.machine = s.machine := by
  refine (walk_after hg hw history).path.keeps
    (I := fun v => ∃ s', v.services[i]? = some s' ∧ s'.machine = s.machine)
    (fun l v v' step _ h => ?_) hw.sane ⟨s, hs, rfl⟩
  obtain ⟨s₁, hs₁, hm⟩ := h
  obtain ⟨s₂, entries, hs₂, -, hf⟩ := step.fate hs₁
  exact ⟨s₂, hs₂, hf.machine.trans hm⟩

/-- A service works, after any history, by the definition with which it was made. -/
theorem machine_of_born {book : Book} {fuel : Nat} {looping : Bool} {birth life : List Command}
    {i : Nat} {m : Machine}
    (born : ((World.start looping).after (.ofBook book fuel) birth).services[i]?.map (·.machine) =
      some m) {s : Service}
    (hs : ((World.start looping).after (.ofBook book fuel) (birth ++ life)).services[i]? =
      some s) : s.machine = m := by
  obtain ⟨s₀, hs₀, rfl⟩ := Option.map_eq_some_iff.mp born
  obtain ⟨s', hs', same⟩ :=
    machine_after (Engine.tame_ofBook book fuel) (atRest_after book fuel looping birth) life hs₀
  rw [after_append] at hs
  cases hs.symm.trans hs'
  exact same

theorem change_machine {w : World} {i j : Nat} {f : Service → Service}
    (hf : ∀ s : Service, (f s).machine = s.machine) {s : Service} (hs : w.services[j]? = some s) :
    ∃ s', (w.change i f).services[j]? = some s' ∧ s'.machine = s.machine := by
  by_cases hij : i = j
  · subst hij
    exact ⟨f s, change_self f hs, hf s⟩
  · exact ⟨s, (change_ne w f hij).trans hs, rfl⟩

/-- At the points of a step, services work by the definitions that they have after it. -/
theorem mem_points_of_step {l : Label} {w w' : World} (h : Step l w w') {p : Point}
    (hp : p ∈ w'.points) : p ∈ w.points ∨
    ∀ (i : Nat) (s : Service), p.services[i]? = some s → ∃ s', w'.services[i]? = some s' ∧
    s'.machine = s.machine := by
  have same {v : World} (services : p.services = v.services) (i : Nat) (s : Service)
      (hs : p.services[i]? = some s) :
      ∃ s', v.services[i]? = some s' ∧ s'.machine = s.machine := ⟨s, services ▸ hs, rfl⟩
  cases h with
  | aside _ _ points => exact Or.inl (points ▸ hp)
  | create => exact Or.inl hp
  | report | call =>
    rcases List.mem_cons.mp hp with rfl | hp
    · exact Or.inr (same rfl)
    · exact Or.inl hp
  | @enter _ i _ f e =>
    rcases List.mem_cons.mp hp with rfl | hp
    · exact Or.inr (same (v := w.entered i f e) rfl)
    · rcases List.mem_cons.mp hp with rfl | hp
      · refine Or.inr fun j s hs => ?_
        exact change_machine (w := (w.change i f).noted e)
          (f := fun s => { s with queue := s.queue.enter }) (fun _ => rfl) hs
      · exact Or.inl hp
  | @cancel _ i s _ e =>
    rcases mem_turned_points _ _ _ _ hp with hp | ⟨services, -⟩
    · rcases List.mem_cons.mp hp with rfl | hp
      · refine Or.inr fun j s' hs => ?_
        rw [show (w.emptied i s.slot e).services = _ from turned_services ..]
        exact change_machine (w := w.noted e) (f := fun s => { s with slot := .empty })
          (fun _ => rfl) hs
      · exact Or.inl hp
    · exact Or.inr (same (v := w.emptied i s.slot e) (services.trans (turned_services ..).symm))
  | turn =>
    rcases mem_turned_points _ _ _ _ hp with hp | ⟨services, -⟩
    · exact Or.inl hp
    · exact Or.inr (same (services.trans (turned_services ..).symm))

/-- The definition that a service has at some point of a history is the one that it has at the end.
-/
theorem machine_of_passed {book : Book} {fuel : Nat} {looping : Bool}
    {history : List Command} {p : Point}
    (hp : p ∈ ((World.start looping).after (.ofBook book fuel) history).passed) {i : Nat}
    {s : Service} (hs : p.services[i]? = some s) :
    ∃ s', ((World.start looping).after (.ofBook book fuel) history).services[i]? = some s' ∧
    s'.machine = s.machine := by
  rcases List.mem_cons.mp hp with rfl | hp
  · exact ⟨s, hs, rfl⟩
  have kept : ∀ p ∈ ((World.start looping).after (.ofBook book fuel) history).points,
    ∀ (i : Nat) (s : Service),
      p.services[i]? = some s →
      ∃ s', ((World.start looping).after (.ofBook book fuel) history).services[i]? = some s' ∧
      s'.machine = s.machine := by
    refine after_induction
      (I := fun w => ∀ p ∈ w.points, ∀ (i : Nat) (s : Service), p.services[i]? = some s →
      ∃ s', w.services[i]? = some s' ∧ s'.machine = s.machine) history (List.forall_mem_nil _) ?_
    intro l w w' step _ before p hp
    rcases mem_points_of_step step hp with hp | now
    · intro i s hs
      obtain ⟨s₁, hs₁, same⟩ := before p hp i s hs
      obtain ⟨s₂, entries, hs₂, -, fate⟩ := step.fate hs₁
      exact ⟨s₂, hs₂, fate.machine.trans same⟩
    · exact now
  exact kept p hp i s hs

end World

/-! ### A swing

A machine to look at: it waits here for an invocation, leaves for there and comes back, or falls,
which fails. -/

namespace Swing

def function (n : Nat) : Value := .function .own none (.host n) []

def candidate (target : String) : Value := Transition.toValue ⟨.str target, [], .null⟩

def here : Node where
  on := [(.str "GO", .tuple [candidate "there"]), (.str "FALL", .tuple [candidate "down"])]
  entry := []
  exit := []
  invoke := Invocation.toValue ⟨function 0, [candidate "there"], [], .bool true⟩
  tags := []

def there : Node := ⟨[(.str "BACK", .tuple [candidate "here"])], [], [], .null, []⟩

def down : Node := ⟨[], [function 1], [], .null, []⟩

def machine : Machine where
  id := .str "swing"
  initial := .str "here"
  context := .null
  states := [(.str "here", here.toValue), (.str "there", there.toValue),
    (.str "down", down.toValue)]

/-- The source returns a future and a cancel callback. -/
def book : Book := Book.ofCodes fun
  | .host 0, _, _ => .ask .future fun a => .done (.fresh (.tuple [a.toValue, function 2]))
  | .host 1, _, _ => .fail .noLoop
  | _, _, _ => .done (.fresh .null)

/-- The first invocation is cancelled, and its outcome comes late; that of the second is wanted;
the third is cancelled by the fall. -/
def history : List Command :=
  [.start 0 .null, .send 0 (.str "GO"), .send 0 (.str "BACK"), .settle 0 (.value .null),
  .turn, .settle 1 (.value .null), .turn, .send 0 (.str "BACK"), .send 0 (.str "FALL")]

/-- The commands of a swing's life. -/
def life : List Command := .create machine.toValue .standard [] true :: history

def world : World := (World.start true).after (.ofBook book 4) life

end Swing
end FlatMachine
