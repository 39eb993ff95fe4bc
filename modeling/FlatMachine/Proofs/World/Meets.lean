import FlatMachine.Proofs.World.Goes

/-! # What computations keep and what they reach

**`Run.Ends`** says of a computation what holds when it returns, and what holds when it is
halted, by what halts it; its rules follow the way in which computations are composed.
**`Run.Meets`** does not tell the one cause from the other.  **`Run.Respects`** says that an
assertion outlasts the computation, however that ends. -/

namespace FlatMachine
namespace Run

variable {α β : Type} {P P' E F K : World → Prop} {x : Run α} {Q : α → World → Prop}

/-- From a world that satisfies `P`, the result and the world satisfy `Q`, or what halted the
computation and the world in which it did satisfy `E`. -/
def Ends (P : World → Prop) (x : Run α) (Q : α → World → Prop) (E : Halt → World → Prop) : Prop :=
  ∀ w, P w → match x.run w with
    | (.ok a, w') => Q a w'
    | (.error halt, w') => E halt w'

/-- From a world that satisfies `P`, the result and the world satisfy `Q`, or the world in which
a failure ended the computation satisfies `E`. -/
def Meets (P : World → Prop) (x : Run α) (Q : α → World → Prop) (E : World → Prop) : Prop :=
  Ends P x Q fun _ => E

/-- The assertion outlasts the computation. -/
def Respects (K : World → Prop) (x : Run α) : Prop := Meets K x (fun _ => K) K

namespace Ends

variable {E F : Halt → World → Prop}

theorem pure {a : α} (h : ∀ w, P w → Q a w) : Ends P (Pure.pure a) Q E := h

theorem throw {halt : Halt} (h : ∀ w, P w → E halt w) :
    Ends P (MonadExcept.throw halt : Run α) Q E := h

theorem fail {f : Failure} (h : ∀ w, P w → E (.raised f) w) : Ends P (Run.fail f : Run α) Q E := h

theorem bind {f : α → Run β} {R : β → World → Prop} (hx : Ends P x Q E)
    (hf : ∀ a, Ends (Q a) (f a) R E) :
    Ends P (x >>= f) R E := by
  intro w hw
  have hx := hx w hw
  rw [run_bind]
  generalize x.run w = out at hx
  obtain ⟨halt | a, w'⟩ := out
  · exact hx
  · exact hf a w' hx

theorem conseq {Q' : α → World → Prop} (h : Ends P' x Q' F) (hp : ∀ w, P w → P' w)
    (hq : ∀ a w, Q' a w → Q a w) (he : ∀ halt w, F halt w → E halt w) : Ends P x Q E := by
  intro w hw
  have h := h w (hp w hw)
  generalize x.run w = out at h
  obtain ⟨halt | a, w'⟩ := out
  · exact he halt w' h
  · exact hq a w' h

theorem pre (h : Ends P' x Q E) (hp : ∀ w, P w → P' w) : Ends P x Q E :=
  h.conseq hp (fun _ _ => id) fun _ _ => id

theorem post {Q' : α → World → Prop} (h : Ends P x Q' E) (hq : ∀ a w, Q' a w → Q a w) :
    Ends P x Q E :=
  h.conseq (fun _ => id) hq fun _ _ => id

theorem weaken (h : Ends P x Q F) (he : ∀ halt w, F halt w → E halt w) : Ends P x Q E :=
  h.conseq (fun _ => id) (fun _ _ => id) he

/-- What outlasts the computation can be used as well. -/
theorem and (h : Ends P x Q E) (hk : Respects K x) :
    Ends (fun w => P w ∧ K w) x (fun a w => Q a w ∧ K w)
    fun halt w => E halt w ∧ K w := by
  intro w hw
  have h := h w hw.1
  have hk := hk w hw.2
  generalize x.run w = out at h hk
  obtain ⟨halt | a, w'⟩ := out <;> exact ⟨h, hk⟩

/-- What is so whenever the computation returns may be used as well. -/
theorem returns {φ : α → World → Prop} (h : Ends P x Q E)
    (hφ : ∀ w a w', P w → x.run w = (.ok a, w') → φ a w') :
    Ends P x (fun a w => Q a w ∧ φ a w) E := by
  intro w hw
  have h := h w hw
  have hφ := fun a w' => hφ w a w' hw
  generalize x.run w = out at h hφ
  obtain ⟨halt | a, w'⟩ := out
  · exact h
  · exact ⟨h, hφ a w' rfl⟩

/-- What is known of the world beforehand can be used. -/
theorem given {φ : Prop} (hφ : ∀ w, P w → φ) (h : φ → Ends P x Q E) : Ends P x Q E :=
  fun w hw => h (hφ w hw) w hw

theorem ofExists {ι : Sort*} {P : ι → World → Prop} (h : ∀ a, Ends (P a) x Q E) :
    Ends (fun w => ∃ a, P a w) x Q E :=
  fun w ⟨a, hw⟩ => h a w hw

theorem ite {c : Prop} [Decidable c] {y : Run α} (hx : c → Ends P x Q E) (hy : ¬ c → Ends P y Q E) :
    Ends P (if c then x else y) Q E := by
  split
  · exact hx ‹_›
  · exact hy ‹_›

theorem tryCatch {handle : Halt → Run α} (hx : Ends P x Q F)
    (hh : ∀ halt, Ends (F halt) (handle halt) Q E) :
    Ends P (MonadExcept.tryCatch x handle) Q E := by
  intro w hw
  have hx := hx w hw
  rw [run_tryCatch]
  generalize x.run w = out at hx
  obtain ⟨halt | a, w'⟩ := out
  · exact hh halt w' hx
  · exact hx

theorem rescue {handle : Failure → Run α} (hx : Ends P x Q F)
    (hh : ∀ f, Ends (F (.raised f)) (handle f) Q E) (he : ∀ halt w, F halt w → E halt w) :
    Ends P (Run.rescue x handle) Q E := by
  refine tryCatch hx fun halt => ?_
  cases halt with
  | raised f => exact .ite (fun _ => hh f) fun _ => .throw (he _)
  | exhausted => exact .throw (he _)

theorem attempt {R : Except Failure α → World → Prop} (hx : Ends P x (fun a => R (.ok a)) F)
    (hf : ∀ f w, F (.raised f) w → R (.error f) w) (he : ∀ w, F .exhausted w → E .exhausted w) :
    Ends P (Run.attempt x) R E := by
  refine tryCatch (hx.bind fun a => .pure fun _ => id) fun halt => ?_
  cases halt with
  | raised f => exact .pure (hf f)
  | exhausted => exact .throw he

theorem discard {Q : Unit → World → Prop} (hx : Ends P x (fun _ => Q ()) E) :
    Ends P (Functor.discard x) Q E := by
  intro w hw
  have hx := hx w hw
  rw [run_discard]
  generalize x.run w = out at hx
  obtain ⟨halt | a, w'⟩ := out <;> exact hx

theorem update {i : Nat} {f : Service → Service} {Q : Unit → World → Prop}
    (h : ∀ w, P w → Q () (w.change i f)) :
    Ends P (Run.update i f) Q E := h

theorem note {e : Entry} {Q : Unit → World → Prop} (h : ∀ w, P w → Q () (w.noted e)) :
    Ends P (Run.note e) Q E := h

/-- The assertion holds of the world that is looked at. -/
theorem look {f : World → Run α} (hf : ∀ v, P v → Ends P (f v) Q E) : Ends P (get >>= f) Q E :=
  fun w hw => hf w hw w hw

/-- A service that is there is looked at. -/
theorem service {i : Nat} {Q : Service → World → Prop}
    (h : ∀ w, P w → ∃ s, w.services[i]? = some s ∧ Q s w) :
    Ends P (Run.service i) Q E := by
  intro w hw
  obtain ⟨s, hs, hq⟩ := h w hw
  rw [run_service hs]
  exact hq

theorem ofExcept {e : Except Failure α} (h : ∀ a w, e = .ok a → P w → Q a w)
    (he : ∀ f w, e = .error f → P w → E (.raised f) w) : Ends P (Run.ofExcept e) Q E := by
  cases e with
  | ok a => exact fun w => h a w rfl
  | error f => exact fun w => he f w rfl

theorem forM {f : α → Run Unit} {xs : List α} (h : ∀ a ∈ xs, Ends P (f a) (fun _ => P) E) :
    Ends P (xs.forM f) (fun _ => P) E := by
  induction xs with
  | nil => exact pure fun _ => id
  | cons a rest ih =>
    exact bind (h a List.mem_cons_self) fun _ => ih fun a ha => h a (List.mem_cons_of_mem _ ha)

/-- What a result is can be used, and the world is as it was. -/
theorem learn {φ : α → Prop} {f : α → Run β} {R : β → World → Prop}
    (hx : Ends P x (fun a w => P w ∧ φ a) E) (hf : ∀ a, φ a → Ends P (f a) R E) :
    Ends P (x >>= f) R E := by
  refine bind hx fun a => given (fun _ hw => hw.2) fun ha => ?_
  exact (hf a ha).pre fun _ hw => hw.1

/-- A member that is there is read. -/
theorem reads {v a : Value} {name : String} {f : Value → Run β} {R : β → World → Prop}
    (h : v.member name = .ok a) (hf : Ends P (f a) R E) : Ends P (Run.member v name >>= f) R E := by
  unfold Run.member
  rw [h]
  exact hf

end Ends

namespace Meets

theorem ok {w : World} {a : α} {w' : World} (h : Meets P x Q E) (hw : P w)
    (run : x.run w = (.ok a, w')) : Q a w' := by
  have := h w hw
  rwa [run] at this

theorem pure {a : α} (h : ∀ w, P w → Q a w) : Meets P (Pure.pure a) Q E := h

theorem throw {halt : Halt} (h : ∀ w, P w → E w) : Meets P (MonadExcept.throw halt : Run α) Q E := h

theorem fail {f : Failure} (h : ∀ w, P w → E w) : Meets P (Run.fail f : Run α) Q E := h

theorem bind {f : α → Run β} {R : β → World → Prop} (hx : Meets P x Q E)
    (hf : ∀ a, Meets (Q a) (f a) R E) :
    Meets P (x >>= f) R E := Ends.bind hx hf

theorem conseq {Q' : α → World → Prop} (h : Meets P' x Q' F) (hp : ∀ w, P w → P' w)
    (hq : ∀ a w, Q' a w → Q a w) (he : ∀ w, F w → E w) : Meets P x Q E :=
  Ends.conseq h hp hq fun _ => he

theorem pre (h : Meets P' x Q E) (hp : ∀ w, P w → P' w) : Meets P x Q E :=
  h.conseq hp (fun _ _ => id) fun _ => id

theorem post {Q' : α → World → Prop} (h : Meets P x Q' E) (hq : ∀ a w, Q' a w → Q a w) :
    Meets P x Q E :=
  h.conseq (fun _ => id) hq fun _ => id

/-- Nothing is claimed of failures. -/
theorem loosen (h : Meets P x Q E) : Meets P x Q fun _ => True :=
  h.conseq (fun _ => id) (fun _ _ => id) fun _ _ => trivial

/-- What outlasts the computation can be used as well. -/
theorem and (h : Meets P x Q E) (hk : Respects K x) :
    Meets (fun w => P w ∧ K w) x (fun a w => Q a w ∧ K w)
    fun w => E w ∧ K w := Ends.and h hk

/-- Where the computation goes when it returns can be used as well. -/
theorem goes {sc : Scope} {Q' : α → World → Prop} (h : Meets P x Q E) (hg : Goes sc P x Q') :
    Meets P x (fun a w => Q a w ∧ Q' a w) E := by
  intro w hw
  have h := h w hw
  have hq := (hg w hw).2
  generalize x.run w = out at h hq
  obtain ⟨halt | a, w'⟩ := out
  · exact h
  · exact ⟨h, hq a rfl⟩

/-- What is known of the world beforehand can be used. -/
theorem given {φ : Prop} (hφ : ∀ w, P w → φ) (h : φ → Meets P x Q E) : Meets P x Q E :=
  fun w hw => h (hφ w hw) w hw

/-- An assertion that holds whichever way the computation ends holds of the world that it leaves. -/
theorem after {J : World → Prop} (h : Meets P x (fun _ => J) J) {w : World} (hw : P w) :
    J (x.run w).2 := by
  have h := h w hw
  generalize x.run w = out at h
  obtain ⟨halt | a, w'⟩ := out <;> exact h

/-- Every computation meets the assertion that claims nothing. -/
theorem any : Meets P x (fun _ _ => True) fun _ => True := by
  intro w _
  generalize x.run w = out
  obtain ⟨halt | a, w'⟩ := out <;> trivial

theorem ofGoes {sc : Scope} (h : Goes sc P x Q) : Meets P x Q fun _ => True := by
  intro w hw
  have hq := (h w hw).2
  generalize x.run w = out at hq
  obtain ⟨halt | a, w'⟩ := out
  · trivial
  · exact hq a rfl

theorem ofExists {ι : Sort*} {P : ι → World → Prop} (h : ∀ a, Meets (P a) x Q E) :
    Meets (fun w => ∃ a, P a w) x Q E :=
  fun w ⟨a, hw⟩ => h a w hw

theorem ite {c : Prop} [Decidable c] {y : Run α} (hx : c → Meets P x Q E)
    (hy : ¬ c → Meets P y Q E) :
    Meets P (if c then x else y) Q E := Ends.ite hx hy

theorem tryCatch {handle : Halt → Run α} (hx : Meets P x Q F)
    (hh : ∀ halt, Meets F (handle halt) Q E) :
    Meets P (MonadExcept.tryCatch x handle) Q E := Ends.tryCatch hx hh

theorem rescue {handle : Failure → Run α} (hx : Meets P x Q F) (hh : ∀ f, Meets F (handle f) Q E)
    (he : ∀ w, F w → E w) : Meets P (Run.rescue x handle) Q E := Ends.rescue hx hh fun _ => he

theorem discard {Q : Unit → World → Prop} (hx : Meets P x (fun _ => Q ()) E) :
    Meets P (Functor.discard x) Q E :=
  Ends.discard hx

theorem get {Q : World → World → Prop} (h : ∀ w, P w → Q w w) :
    Meets P (MonadState.get : Run World) Q E := h

theorem modify {f : World → World} {Q : Unit → World → Prop} (h : ∀ w, P w → Q () (f w)) :
    Meets P (MonadState.modifyGet fun w => ((), f w)) Q E := h

theorem update {i : Nat} {f : Service → Service} {Q : Unit → World → Prop}
    (h : ∀ w, P w → Q () (w.change i f)) :
    Meets P (Run.update i f) Q E := h

theorem note {e : Entry} {Q : Unit → World → Prop} (h : ∀ w, P w → Q () (w.noted e)) :
    Meets P (Run.note e) Q E := h

theorem service {i : Nat} {Q : Service → World → Prop}
    (h : ∀ w s, P w → w.services[i]? = some s → Q s w) (he : ∀ w, P w → E w) :
    Meets P (Run.service i) Q E := by
  intro w hw
  cases hs : w.services[i]? with
  | none =>
    rw [run_service_none hs]
    exact he w hw
  | some s =>
    rw [run_service hs]
    exact h w s hw hs

theorem ofExcept {e : Except Failure α} (h : ∀ a w, e = .ok a → P w → Q a w) (he : ∀ w, P w → E w) :
    Meets P (Run.ofExcept e) Q E := by
  cases e with
  | ok a => exact fun w => h a w rfl
  | error f => exact fun w hw => he w hw

theorem member {v : Value} {name : String} {Q : Value → World → Prop}
    (h : ∀ a w, v.member name = .ok a → P w → Q a w) (he : ∀ w, P w → E w) :
    Meets P (Run.member v name) Q E := ofExcept h he

/-- What a member is can be used. -/
theorem part {v : Value} {name : String} :
    Meets K (Run.member v name) (fun a w => K w ∧ v.member name = .ok a) K :=
  member (fun _ _ ha hw => ⟨hw, ha⟩) fun _ => id

/-- What is known of a service can be used. -/
theorem known {i : Nat} {φ : Service → Prop} (h : ∀ w, K w → ∀ s, w.services[i]? = some s → φ s) :
    Meets K (Run.service i) (fun s w => K w ∧ φ s) K :=
  service (fun w s hw hs => ⟨hw, h w hw s hs⟩) fun _ => id

/-- What a result is can be used, and the world is as it was. -/
theorem learn {φ : α → Prop} {f : α → Run β} {R : β → World → Prop}
    (hx : Meets P x (fun a w => P w ∧ φ a) E) (hf : ∀ a, φ a → Meets P (f a) R E) :
    Meets P (x >>= f) R E := Ends.learn hx hf

end Meets

/-! ### What lasts -/

namespace Respects

theorem meets (h : Respects K x) : Meets K x (fun _ => K) K := h

theorem ends (h : Respects K x) {E : Halt → World → Prop} (he : ∀ halt w, K w → E halt w) :
    Ends K x (fun _ => K) E :=
  Ends.weaken h he

theorem pure {a : α} : Respects K (Pure.pure a : Run α) := fun _ => id

theorem throw {halt : Halt} : Respects K (MonadExcept.throw halt : Run α) := fun _ => id

theorem fail {f : Failure} : Respects K (Run.fail f : Run α) := fun _ => id

theorem bind {f : α → Run β} (hx : Respects K x) (hf : ∀ a, Respects K (f a)) :
    Respects K (x >>= f) := Meets.bind hx hf

theorem ite {c : Prop} [Decidable c] {y : Run α} (hx : c → Respects K x) (hy : ¬ c → Respects K y) :
    Respects K (if c then x else y) := Meets.ite hx hy

theorem tryCatch {handle : Halt → Run α} (hx : Respects K x)
    (hh : ∀ halt, Respects K (handle halt)) :
    Respects K (MonadExcept.tryCatch x handle) := Meets.tryCatch hx hh

theorem rescue {handle : Failure → Run α} (hx : Respects K x) (hh : ∀ f, Respects K (handle f)) :
    Respects K (Run.rescue x handle) := Meets.rescue hx hh fun _ => id

theorem attempt (hx : Respects K x) : Respects K (Run.attempt x) :=
  Ends.attempt hx (fun _ _ => id) fun _ => id

theorem discard (hx : Respects K x) : Respects K (Functor.discard x) := Meets.discard hx

theorem ofExcept {e : Except Failure α} : Respects K (Run.ofExcept e) :=
  Meets.ofExcept (fun _ _ _ => id) fun _ => id

theorem member {v : Value} {name : String} : Respects K (Run.member v name) := ofExcept

theorem service {i : Nat} : Respects K (Run.service i) :=
  Meets.service (fun _ _ hw _ => hw) fun _ => id

/-- Looking at a service changes nothing. -/
theorem peek {i : Nat} {f : Service → Run α} (hf : ∀ s, Respects K (f s)) :
    Respects K (Run.service i >>= f) :=
  bind service hf

/-- What a service is can be used, as long as nothing happens to it. -/
theorem read {i : Nat} {f : Service → Run α}
    (hf : ∀ s, Meets (fun w => K w ∧ w.services[i]? = some s) (f s) (fun _ => K) K) :
    Respects K (Run.service i >>= f) :=
  Meets.bind (Meets.service (fun _ _ hw hs => ⟨hw, hs⟩) fun _ => id) hf

/-- The world is looked at, and it is still as it was. -/
theorem lookNow {f : World → Run α} (hf : ∀ v, K v → Meets (· = v) (f v) (fun _ => K) K) :
    Respects K (get >>= f) :=
  fun w hw => hf w hw w rfl

/-- Looking at the world changes nothing. -/
theorem look {f : World → Run α} (hf : ∀ v, Respects K (f v)) : Respects K (get >>= f) :=
  bind (Meets.get fun _ => id) hf

/-- The assertion holds of the world that is looked at. -/
theorem lookAt {f : World → Run α} (hf : ∀ v, K v → Respects K (f v)) : Respects K (get >>= f) :=
  fun w hw => hf w hw w hw

theorem forM {f : α → Run Unit} {xs : List α} (h : ∀ a ∈ xs, Respects K (f a)) :
    Respects K (xs.forM f) := Ends.forM h

/-- What lasts through a computation lasts, whether or not it returns. -/
theorem run (h : Respects K x) {w : World} (hw : K w) : K (x.run w).2 := by
  have h := h w hw
  generalize x.run w = out at h
  obtain ⟨halt | a, w'⟩ := out <;> exact h

theorem ofRun (h : ∀ w, K w → K (x.run w).2) : Respects K x := by
  intro w hw
  have h := h w hw
  generalize x.run w = out at h
  obtain ⟨halt | a, w'⟩ := out <;> exact h

end Respects

end Run
end FlatMachine
