import FlatMachine.Proofs.World.Walk

/-! # Where computations go

**`Run.Goes`** says that a computation goes along a walk, however it ends, and what its result
satisfies; its rules follow the way in which computations are composed.  Two sorts of
preconditions occur.

* **`World.Sane`** is all that a computation needs that anybody may do.  It is **`Run.Tame`**.
* **`World.Drains`**, **`World.At`**: the drain of a service is in progress, and its live state
  is a given one of a given machine.  These are **`Firm`**: they outlast whatever tame
  computations do, so a callback can be called anywhere. -/

namespace FlatMachine

/-- From a world that satisfies `P`, the computation goes along a walk of the scope, and its
result satisfies `Q`. -/
def Run.Goes {α : Type} (sc : Scope) (P : World → Prop) (x : Run α) (Q : α → World → Prop) : Prop :=
  ∀ w, P w → Walk sc w (x.run w).2 ∧ ∀ a, (x.run w).1 = .ok a → Q a (x.run w).2

/-- The computation does only what anybody may do: it goes from sane worlds to sane worlds, by steps
that are no part of a drain. -/
def Run.Tame {α : Type} (x : Run α) : Prop := x.Goes .outside World.Sane fun _ => World.Sane

/-- The assertion outlasts what anybody may do. -/
structure Firm (P : World → Prop) : Prop where
  sane : ∀ {w}, P w → w.Sane
  stays : ∀ {w w'}, P w → Walk .outside w w' → P w'

namespace Run

variable {α β : Type} {sc : Scope} {P P' : World → Prop} {x : Run α} {Q : α → World → Prop}

namespace Goes

theorem pure {a : α} (h : ∀ w, P w → Q a w) : Goes sc P (Pure.pure a) Q := by
  intro w hw
  refine ⟨.refl sc w, fun b hb => ?_⟩
  cases hb
  exact h w hw

theorem throw (h : Halt) : Goes sc P (MonadExcept.throw h : Run α) Q :=
  fun w _ => ⟨.refl sc w, nofun⟩

theorem fail (f : Failure) : Goes sc P (Run.fail f : Run α) Q := throw (.raised f)

theorem bind {f : α → Run β} {R : β → World → Prop} (hx : Goes sc P x Q)
    (hf : ∀ a, Goes sc (Q a) (f a) R) :
    Goes sc P (x >>= f) R := by
  intro w hw
  obtain ⟨hp, hq⟩ := hx w hw
  rw [run_bind]
  cases hr : x.run w with
  | mk r w' =>
    rw [hr] at hp hq
    cases r with
    | error h => exact ⟨hp, nofun⟩
    | ok a =>
      obtain ⟨hp', hq'⟩ := hf a w' (hq a rfl)
      exact ⟨hp.trans hp', hq'⟩

theorem conseq {Q' : α → World → Prop} (h : Goes sc P' x Q') (hp : ∀ w, P w → P' w)
    (hq : ∀ a w, Q' a w → Q a w) : Goes sc P x Q := by
  intro w hw
  obtain ⟨hpath, hpost⟩ := h w (hp w hw)
  exact ⟨hpath, fun a ha => hq a _ (hpost a ha)⟩

theorem pre (h : Goes sc P' x Q) (hp : ∀ w, P w → P' w) : Goes sc P x Q := h.conseq hp fun _ _ => id

theorem post {Q' : α → World → Prop} (h : Goes sc P x Q') (hq : ∀ a w, Q' a w → Q a w) :
    Goes sc P x Q :=
  h.conseq (fun _ => id) hq

theorem widen {sc' : Scope} (h : Goes sc P x Q) (hsc : ∀ {w w'}, Path sc w w' → Path sc' w w') :
    Goes sc' P x Q :=
  fun w hw => ⟨(h w hw).1.widen hsc, (h w hw).2⟩

/-- Wherever the computation ends, there is a path to it from where it started. -/
theorem along (h : Goes sc P x Q) : Goes sc P x fun a w' => Q a w' ∧ ∃ w, P w ∧ Path sc w w' :=
  fun w hw => ⟨(h w hw).1, fun a ha => ⟨(h w hw).2 a ha, w, hw, (h w hw).1.path⟩⟩

/-- What is known of the world beforehand can be used. -/
theorem given {φ : Prop} (hφ : ∀ w, P w → φ) (h : φ → Goes sc P x Q) : Goes sc P x Q :=
  fun w hw => h (hφ w hw) w hw

/-- What is learned from a result can be used, and the world is as it was. -/
theorem learn {φ : α → Prop} {f : α → Run β} {R : β → World → Prop}
    (hx : Goes sc P x fun a w => P w ∧ φ a) (hf : ∀ a, φ a → Goes sc P (f a) R) :
    Goes sc P (x >>= f) R := by
  refine bind hx fun a => given (fun _ hw => hw.2) fun ha => ?_
  exact (hf a ha).pre fun _ hw => hw.1

theorem ofExists {ι : Sort*} {P : ι → World → Prop} (h : ∀ a, Goes sc (P a) x Q) :
    Goes sc (fun w => ∃ a, P a w) x Q :=
  fun w ⟨a, hw⟩ => h a w hw

theorem ite {c : Prop} [Decidable c] {y : Run α} (hx : c → Goes sc P x Q)
    (hy : ¬ c → Goes sc P y Q) :
    Goes sc P (if c then x else y) Q := by
  split
  · exact hx ‹_›
  · exact hy ‹_›

theorem get : Goes sc P (MonadState.get : Run World) fun v w => P w ∧ v = w :=
  fun w hw => ⟨.refl sc w, fun _ ha => by cases ha; exact ⟨hw, rfl⟩⟩

theorem modified {f : World → World} {Q : Unit → World → Prop}
    (h : ∀ w, P w → Walk sc w (f w) ∧ Q () (f w)) :
    Goes sc P (modify f) Q :=
  fun w hw => ⟨(h w hw).1, fun _ _ => (h w hw).2⟩

theorem set {v : World} {Q : Unit → World → Prop} (h : ∀ w, P w → Walk sc w v ∧ Q () v) :
    Goes sc P (MonadStateOf.set v) Q :=
  fun w hw => ⟨(h w hw).1, fun _ _ => (h w hw).2⟩

theorem ofExcept {e : Except Failure α} :
    Goes sc P (Run.ofExcept e) fun a w => P w ∧ e = .ok a := by
  cases e with
  | error f => exact fail f
  | ok a => exact pure fun w hw => ⟨hw, rfl⟩

theorem member {v : Value} {name : String} :
    Goes sc P (Run.member v name) fun a w => P w ∧ v.member name = .ok a := by
  unfold Run.member
  exact ofExcept

theorem service {i : Nat} : Goes sc P (Run.service i) fun s w => P w ∧ w.services[i]? = some s := by
  intro w hw
  cases hs : w.services[i]? with
  | none =>
    rw [run_service_none hs]
    exact ⟨.refl sc w, nofun⟩
  | some s =>
    rw [run_service hs]
    refine ⟨.refl sc w, fun a ha => ?_⟩
    cases ha
    exact ⟨hw, hs⟩

/-- Looking at a service changes nothing. -/
theorem peek {i : Nat} {f : Service → Run α} (hf : ∀ s, Goes sc P (f s) Q) :
    Goes sc P (Run.service i >>= f) Q :=
  bind (service.post fun _ _ hw => hw.1) hf

/-- A handler of ordinary failures starts from wherever the body was halted, which leaves what is
firm. -/
theorem rescue {handle : Failure → Run α} (hP : Firm P) (hx : Goes .outside P x Q)
    (hh : ∀ f, Goes sc P (handle f) Q) : Goes sc P (Run.rescue x handle) Q := by
  intro w hw
  obtain ⟨hp, hq⟩ := hx w hw
  unfold Run.rescue
  rw [run_tryCatch]
  cases hr : x.run w with
  | mk r w' =>
    rw [hr] at hp hq
    match r, hp, hq with
    | .ok a, hp, hq => exact ⟨hp.widen .ofOutside, hq⟩
    | .error .exhausted, hp, _ => exact ⟨hp.widen .ofOutside, nofun⟩
    | .error (.raised f), hp, _ =>
      by_cases ordinary : f.isOrdinary = true
      · obtain ⟨hp', hq'⟩ := hh f w' (hP.stays hw hp)
        simp only [ordinary, if_true]
        exact ⟨.trans (hp.widen .ofOutside) hp', hq'⟩
      · simp only [ordinary]
        exact ⟨hp.widen .ofOutside, nofun⟩

/-- At rest, whatever halted the body, a handler finds things in order. -/
theorem tryCatch {handle : Halt → Run α} (hx : Goes sc World.AtRest x Q)
    (hh : ∀ h, Goes sc World.AtRest (handle h) Q) :
    Goes sc World.AtRest (MonadExcept.tryCatch x handle) Q := by
  intro w hw
  obtain ⟨hp, hq⟩ := hx w hw
  rw [run_tryCatch]
  cases hr : x.run w with
  | mk r w' =>
    rw [hr] at hp hq
    cases r with
    | ok a => exact ⟨hp, hq⟩
    | error h =>
      obtain ⟨hp', hq'⟩ := hh h w' (hp.atRest hw)
      exact ⟨.trans hp hp', hq'⟩

theorem discard {Q : Unit → World → Prop} (hx : Goes sc P x fun _ => Q ()) :
    Goes sc P (Functor.discard x) Q := by
  intro w hw
  obtain ⟨hp, hq⟩ := hx w hw
  rw [run_discard]
  cases hr : x.run w with
  | mk r w' =>
    rw [hr] at hp hq
    cases r with
    | error h => exact ⟨hp, nofun⟩
    | ok a => exact ⟨hp, fun _ _ => hq a rfl⟩

theorem foldlM {f : β → α → Run β} {xs : List α} (h : ∀ b, ∀ a ∈ xs, Goes sc P (f b a) fun _ => P) :
    ∀ b, Goes sc P (xs.foldlM f b) fun _ => P := by
  induction xs with
  | nil => exact fun b => pure fun _ => id
  | cons a rest ih =>
    intro b
    rw [List.foldlM_cons]
    exact bind (h b a List.mem_cons_self) (ih fun b a ha => h b a (List.mem_cons_of_mem _ ha))

theorem forM {f : α → Run Unit} {xs : List α} (h : ∀ a ∈ xs, Goes sc P (f a) fun _ => P) :
    Goes sc P (xs.forM f) fun _ => P := by
  induction xs with
  | nil => exact pure fun _ => id
  | cons a rest ih =>
    exact bind (h a List.mem_cons_self) fun _ => ih fun a ha => h a (List.mem_cons_of_mem _ ha)

/-- What anybody may do leaves what is firm. -/
theorem frame (hP : Firm P) (hx : Tame x) : Goes sc P x fun _ => P := by
  intro w hw
  have hp := (hx w (hP.sane hw)).1
  exact ⟨hp.widen .ofOutside, fun a _ => hP.stays hw hp⟩

theorem free {f : World → World} (hP : Firm P) (h : ∀ w, P w → Step .free w (f w)) :
    Goes sc P (modify f) fun _ => P :=
  modified fun w hw => ⟨.free (h w hw), hP.stays hw (.free (h w hw))⟩

/-- What is not about services is nobody's business. -/
theorem aside {f : World → World} (hP : Firm P)
    (h : ∀ w, (f w).services = w.services ∧ (f w).journal = w.journal ∧ (f w).points = w.points) :
    Goes sc P (modify f) fun _ => P :=
  free hP fun w _ => .aside (h w).1 (h w).2.1 (h w).2.2

theorem turned {i : Nat} {f : Service → Service} (hP : Firm P)
    (h : ∀ w s, P w → w.services[i]? = some s → Turn i w s .free (f s) []) :
    Goes sc P (Run.update i f) fun _ => P := by
  intro w hw
  cases hs : w.services[i]? with
  | some s =>
    have step : Step .free w (w.change i f) := .turn hs (h w s hw hs)
    exact ⟨.free step, fun _ _ => hP.stays hw (.free step)⟩
  | none =>
    have same : w.change i f = w := by
      unfold World.change
      rw [List.modify_eq_self (List.getElem?_eq_none_iff.mp hs)]
    rw [run_update, same]
    exact ⟨.refl sc w, fun _ _ => hw⟩

theorem noted {e : Entry} (hP : Firm P) (h : ∀ w, P w → Step .free w (w.noted e)) :
    Goes sc P (Run.note e) fun _ => P :=
  free hP h

theorem record {level : Level} {text : String} (hP : Firm P) :
    Goes sc P (Run.record level text) fun _ => P :=
  noted hP fun _ _ => .report rfl

/-- Wherever a computation goes that starts from a sane world, it ends in one. -/
theorem tamed (hP : ∀ w, P w → w.Sane) (h : ∀ w, P w → Walk sc w (x.run w).2) :
    Goes sc P x fun _ => World.Sane :=
  fun w hw => ⟨h w hw, fun _ _ => (h w hw).sane (hP w hw)⟩

/-- A computation that anybody may do leaves the world sane, whatever else is known of it. -/
theorem tame (hx : Goes .outside World.Sane x Q) : Tame x :=
  fun w hw => ⟨(hx w hw).1, fun _ _ => (hx w hw).1.sane hw⟩

end Goes

/-- Looking at the world changes nothing. -/
theorem Tame.look {k : World → Run α} (h : ∀ v, Tame (k v)) : Tame (get >>= k) :=
  .bind (Goes.get.post fun _ _ hw => hw.1) h

/-- Whatever becomes of what anybody may do, the world is sane. -/
theorem Tame.attempt (hx : Tame x) : Tame (Run.attempt x) := by
  refine .tamed (fun _ => id) fun w hw => ?_
  have walk := (hx w hw).1
  rw [run_attempt]
  generalize x.run w = out at walk
  obtain ⟨(f | _) | a, w'⟩ := out <;> exact walk

theorem Tame.walk {w : World} (hx : Tame x) (hw : w.Sane) : Walk .outside w (x.run w).2 :=
  (hx w hw).1

end Run

/-! ### Firm assertions -/

namespace World

/-- The drain of the service is in progress. -/
structure Drains (i : Nat) (w : World) : Prop where
  sane : w.Sane
  busy : w.Busy i

/-- The drain of the service is in progress, in a state of the machine, and maybe with an empty
slot. -/
structure At (i : Nat) (m : Machine) (name : Value) (vacant : Prop) (w : World) : Prop where
  sane : w.Sane
  service : ∃ s, w.services[i]? = some s ∧ s.Busy ∧ s.machine = m ∧ s.stateName = name ∧
    (vacant → s.slot = .empty)

/-- The drain of the service is in progress, in some state of the machine. -/
def Somewhere (i : Nat) (m : Machine) (w : World) : Prop := ∃ name, w.At i m name False

/-- The drain of the service is in progress, and no change waits to be published. -/
structure Rests (i : Nat) (w : World) : Prop where
  sane : w.Sane
  service : ∃ s, w.services[i]? = some s ∧ s.Busy ∧ (s.status = .running → s.Settled i w.points)

/-- The drain of the service is in progress, and has nothing left to do. -/
structure Finished (i : Nat) (w : World) : Prop where
  rests : w.Rests i
  drained : ∀ s, w.services[i]? = some s → s.status = .running → s.queue.items = []

end World

namespace Firm

variable {i : Nat}

theorem ofSane : Firm World.Sane := ⟨id, fun hw hp => hp.sane hw⟩

theorem ofRest : Firm World.AtRest := ⟨World.AtRest.sane, fun hw hp => hp.atRest hw⟩

theorem ofDrains : Firm (World.Drains i) :=
  ⟨World.Drains.sane, fun hw hp => ⟨hp.sane hw.sane, hp.path.busy hw.busy⟩⟩

theorem ofAt {m : Machine} {name : Value} {vacant : Prop} : Firm (World.At i m name vacant) := by
  refine ⟨World.At.sane, fun ⟨hw, s, hs, hb, hm, hn, hv⟩ hp => ⟨hp.sane hw, ?_⟩⟩
  obtain ⟨s', hs', hh⟩ := (hp.path.kept (fun _ hl => False.elim hl) ⟨s, hs, hb⟩).service s hs
  exact ⟨s', hs', hh.busy hb, hh.machine.trans hm, hh.stateName.trans hn, fun h => hh.vacant (hv h)⟩

theorem ofRests : Firm (World.Rests i) := by
  refine ⟨World.Rests.sane, fun ⟨hw, s, hs, hb, hr⟩ hp => ⟨hp.sane hw, ?_⟩⟩
  obtain ⟨s', hs', hh⟩ := (hp.path.kept (fun _ hl => False.elim hl) ⟨s, hs, hb⟩).service s hs
  exact ⟨s', hs', hh.busy hb, fun h =>
    (hr (hh.running h)).mono hp.path.points.subset hh.sameView.symm⟩

theorem supplied {P : World → Prop} {w : World} {s : Service} (hP : Firm P) (hw : P w)
    (hs : w.services[i]? = some s) :
    P (w.change i fun s => { s with supply := s.supply + 1 }) :=
  hP.stays hw (.free (.changed hs .supply))

theorem opened {t : Token} {P : World → Prop} (hP : Firm P) (hb : ∀ {w}, P w → w.Busy i) :
    Firm fun w => P w ∧ Opened i t w.journal :=
  ⟨fun hw => hP.sane hw.1, fun hw hp =>
    ⟨hP.stays hw.1 hp, (hp.path.kept (fun _ hl => False.elim hl) (hb hw.1)).opened hw.2⟩⟩

end Firm

namespace World.At

variable {i : Nat} {m : Machine} {name : Value} {vacant : Prop} {w : World}

theorem busy (h : w.At i m name vacant) : w.Busy i := by
  obtain ⟨s, hs, hb, -⟩ := h.service
  exact ⟨s, hs, hb⟩

theorem drains (h : w.At i m name vacant) : w.Drains i := ⟨h.sane, h.busy⟩

theorem weaken (h : w.At i m name vacant) : w.At i m name False := by
  obtain ⟨s, hs, hb, hm, hn, -⟩ := h.service
  exact ⟨h.sane, s, hs, hb, hm, hn, False.elim⟩

theorem live (h : w.At i m name vacant) : w.Live i m name := by
  obtain ⟨s, hs, -, hm, hn, -⟩ := h.service
  exact ⟨s, hs, hm, hn⟩

theorem sanctions {role : Role} {f : Value} (h : w.At i m name vacant)
    (hf : m.Covers name → f.isCallable = true) :
    w.Sanctions (.service i) role f := by
  intro j hj _
  cases hj
  exact ⟨h.busy, m, name, h.live, hf⟩

end World.At

end FlatMachine
