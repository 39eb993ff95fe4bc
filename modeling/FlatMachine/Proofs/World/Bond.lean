import FlatMachine.Proofs.Run

/-! # Two worlds side by side

Statements about two runs, one beside the other, are proved of the computations that the runs are
made of.  A **`Bond`** ties two worlds; two computations, carried out each in its own world, are
**twins** (**`Run.Twins`**) if they end alike, and the worlds they leave behind are tied again.
Mostly both are the same computation, which **matches** then (**`Run.Matches`**).

What is assumed of a run is often known of its journal only afterwards.  So a bond also says
which journals put an end to it: if the first computation leaves such a journal, they need not
end alike.  No journal ever gets out of this again, since journals only grow, which is a part of
being twins.  Where only runs with enough fuel count, the bond also ends when the first
computation runs out of it; nothing gets out of this either, since nobody handles it.

The rules follow the way in which computations are composed.  Worlds that are tied to themselves
give the statements about a single run. -/

namespace FlatMachine

/-- What ties two worlds, and the journals of the first of them that put an end to it. -/
structure Bond where
  ties : World → World → Prop
  spent : List Entry → Prop
  rise : ∀ {e journal}, spent journal → spent (e :: journal)

theorem Bond.grown {B : Bond} {journal journal' : List Entry} (h : B.spent journal)
    (hp : journal <:+ journal') :
    B.spent journal' := by
  obtain ⟨later, rfl⟩ := hp
  induction later with
  | nil => exact h
  | cons e later ih => exact B.rise ih

/-- The outcomes are alike: results that satisfy `Q` with the worlds, or the same halt in worlds
that satisfy `E`. -/
inductive Run.Alike {α : Type} (Q : α → World → World → Prop) (E : World → World → Prop) :
    Except Halt α × World → Except Halt α × World → Prop where
  | ok {a : α} {w v : World} (holds : Q a w v) : Alike Q E (.ok a, w) (.ok a, v)
  | error {halt : Halt} {w v : World} (tied : E w v) : Alike Q E (.error halt, w) (.error halt, v)

theorem Run.Alike.weaken {α : Type} {Q Q' : α → World → World → Prop} {E E' : World → World → Prop}
    {out out' : Except Halt α × World} (h : Alike Q E out out') (hq : ∀ a w v, Q a w v → Q' a w v)
    (he : ∀ w v, E w v → E' w v) : Alike Q' E' out out' := by
  cases h with
  | ok holds => exact .ok (hq _ _ _ holds)
  | error tied => exact .error (he _ _ tied)

/-- The history of the first world is the beginning of that of the second one. -/
structure World.Precedes (w w' : World) : Prop where
  journal : w.journal <:+ w'.journal
  points : w.points <:+ w'.points
  settings : w.settings <:+ w'.settings

namespace World.Precedes

variable {w w' w'' : World}

theorem same (journal : w'.journal = w.journal) (points : w'.points = w.points)
    (settings : w'.settings = w.settings) :
    w.Precedes w' :=
  ⟨journal ▸ List.suffix_rfl, points ▸ List.suffix_rfl, settings ▸ List.suffix_rfl⟩

theorem refl (w : World) : w.Precedes w := same rfl rfl rfl

theorem trans (h : w.Precedes w') (h' : w'.Precedes w'') : w.Precedes w'' :=
  ⟨h.journal.trans h'.journal, h.points.trans h'.points, h.settings.trans h'.settings⟩

theorem noted (w : World) (e : Entry) : w.Precedes (w.noted e) :=
  ⟨List.suffix_cons _ _, List.suffix_cons _ _, List.suffix_cons _ _⟩

end World.Precedes

/-- The computation adds to what was written, however it ends. -/
def Run.Grows {α : Type} (x : Run α) : Prop := ∀ w : World, w.Precedes (x.run w).2

/-- The bond is at an end: the journal puts an end to it, or the computation ran out of fuel and
that counts as well. -/
def Bond.Over (B : Bond) (lax : Prop) {α : Type} (out : Except Halt α × World) : Prop :=
  B.spent out.2.journal ∨ lax ∧ out.1 = .error .exhausted

/-- In worlds that satisfy `P`, the computations end alike, the result satisfies `Q` with the
worlds they leave behind, and if they are halted, these are tied; or the bond is at an end. -/
structure Run.Twins {α : Type} (B : Bond) (lax : Prop) (P : World → World → Prop) (x y : Run α)
    (Q : α → World → World → Prop) : Prop where
  grows : x.Grows
  alike : ∀ w v, P w v → B.Over lax (x.run w) ∨ Alike Q B.ties (x.run w) (y.run v)

/-- In worlds that are tied, the computations end alike and leave them so. -/
def Run.Echoes {α : Type} (B : Bond) (lax : Prop) (x y : Run α) : Prop :=
  Twins B lax B.ties x y fun _ => B.ties

/-- The computation is its own twin, however much fuel there is. -/
abbrev Run.Matches {α : Type} (B : Bond) (P : World → World → Prop) (x : Run α)
    (Q : α → World → World → Prop) : Prop :=
  Twins B False P x x Q

/-- The computation matches in worlds that are tied, and leaves them so. -/
abbrev Run.Mirrors {α : Type} (B : Bond) (x : Run α) : Prop := Echoes B False x x

namespace Run

variable {α β : Type} {B : Bond} {lax : Prop} {P P' : World → World → Prop} {x y : Run α}
  {Q : α → World → World → Prop}

theorem Echoes.matches (h : Echoes B lax x y) : Twins B lax B.ties x y fun _ => B.ties := h

namespace Grows

theorem bind {f : α → Run β} (hx : x.Grows) (hf : ∀ a, (f a).Grows) : (x >>= f).Grows := by
  intro w
  have hx := hx w
  rw [run_bind]
  generalize x.run w = out at hx
  obtain ⟨halt | a, w'⟩ := out
  · exact hx
  · exact hx.trans (hf a w')

theorem tryCatch {handle : Halt → Run α} (hx : x.Grows) (hh : ∀ halt, (handle halt).Grows) :
    (MonadExcept.tryCatch x handle).Grows := by
  intro w
  have hx := hx w
  rw [run_tryCatch]
  generalize x.run w = out at hx
  obtain ⟨halt | a, w'⟩ := out
  · exact hx.trans (hh halt w')
  · exact hx

/-- What was written before is still there when the rest is done. -/
theorem through {f : α → Run β} (hf : ∀ a, (f a).Grows) (w : World) :
    (x.run w).2.Precedes ((x >>= f).run w).2 := by
  rw [run_bind]
  generalize x.run w = out
  obtain ⟨halt | a, w'⟩ := out
  · exact .refl w'
  · exact hf a w'

end Grows
end Run

namespace Bond.Over

open Run

variable {α β : Type} {B : Bond} {lax : Prop} {x : Run α} {w : World}

/-- Of what is done after the bond is spent, only that journals grow counts. -/
theorem bind {f : α → Run β} (past : B.Over lax (x.run w)) (hf : ∀ a, (f a).Grows) :
    B.Over lax ((x >>= f).run w) := by
  rw [run_bind]
  generalize x.run w = out at past
  obtain ⟨halt | a, w'⟩ := out
  · exact past.imp id fun ⟨allowed, halted⟩ => ⟨allowed, by rw [Except.error.inj halted]⟩
  · obtain spent | ⟨-, halted⟩ := past
    · exact .inl (B.grown spent (hf a w').journal)
    · cases halted

theorem tryCatch {handle : Halt → Run α} (past : B.Over lax (x.run w))
    (passes : lax → ∀ w, ((handle .exhausted).run w).1 = .error .exhausted)
    (hh : ∀ halt, (handle halt).Grows) :
    B.Over lax ((MonadExcept.tryCatch x handle).run w) := by
  rw [run_tryCatch]
  generalize x.run w = out at past
  obtain ⟨halt | a, w'⟩ := out
  · obtain spent | ⟨allowed, halted⟩ := past
    · exact .inl (B.grown spent (hh halt w').journal)
    · rw [Except.error.inj halted]
      exact .inr ⟨allowed, passes allowed w'⟩
  · exact past

end Bond.Over

namespace Run

variable {α β : Type} {B : Bond} {lax : Prop} {P P' : World → World → Prop} {x y : Run α}
  {Q : α → World → World → Prop}

namespace Twins

theorem ofGrows (grows : x.Grows) (h : ∀ w v, P w v → Alike Q B.ties (x.run w) (y.run v)) :
    Twins B lax P x y Q :=
  ⟨grows, fun w v hp => .inr (h w v hp)⟩

theorem pure {a : α} (h : ∀ w v, P w v → Q a w v) : Twins B lax P (Pure.pure a) (Pure.pure a) Q :=
  ofGrows World.Precedes.refl fun w v hp => .ok (h w v hp)

theorem throw {halt : Halt} (h : ∀ w v, P w v → B.ties w v) :
    Twins B lax P (MonadExcept.throw halt : Run α) (MonadExcept.throw halt) Q :=
  ofGrows World.Precedes.refl fun w v hp => .error (h w v hp)

theorem fail {f : Failure} (h : ∀ w v, P w v → B.ties w v) :
    Twins B lax P (Run.fail f : Run α) (Run.fail f) Q := throw h

theorem bind {f f' : α → Run β} {R : β → World → World → Prop} (hx : Twins B lax P x y Q)
    (hf : ∀ a, Twins B lax (Q a) (f a) (f' a) R) : Twins B lax P (x >>= f) (y >>= f') R := by
  refine ⟨hx.grows.bind fun a => (hf a).grows, fun w v hp => ?_⟩
  obtain past | alike := hx.alike w v hp
  · exact .inl (past.bind fun a => (hf a).grows)
  · rw [run_bind, run_bind]
    generalize x.run w = out, y.run v = out' at alike
    cases alike with
    | ok holds => exact (hf _).alike _ _ holds
    | error tied => exact .inr (.error tied)

theorem conseq {Q' : α → World → World → Prop} (h : Twins B lax P' x y Q')
    (hp : ∀ w v, P w v → P' w v) (hq : ∀ a w v, Q' a w v → Q a w v) : Twins B lax P x y Q := by
  exact ⟨h.grows, fun w v hw => (h.alike w v (hp w v hw)).imp id fun alike =>
    alike.weaken hq fun _ _ => id⟩

theorem pre (h : Twins B lax P' x y Q) (hp : ∀ w v, P w v → P' w v) : Twins B lax P x y Q :=
  h.conseq hp fun _ _ _ => id

theorem post {Q' : α → World → World → Prop} (h : Twins B lax P x y Q')
    (hq : ∀ a w v, Q' a w v → Q a w v) :
    Twins B lax P x y Q := h.conseq (fun _ _ => id) hq

/-- What does not depend on the worlds is still so. -/
theorem frame {φ : Prop} (h : Twins B lax P x y Q) :
    Twins B lax (fun w v => P w v ∧ φ) x y fun a w v => Q a w v ∧ φ := by
  exact ⟨h.grows, fun w v hw => (h.alike w v hw.1).imp id fun alike =>
    alike.weaken (fun _ _ _ holds => ⟨holds, hw.2⟩) fun _ _ => id⟩

/-- What is so whenever the first computation returns may be used as well. -/
theorem returns {φ : α → World → Prop} (h : Twins B lax P x y Q)
    (hφ : ∀ w a w', x.run w = (.ok a, w') → φ a w') :
    Twins B lax P x y fun a w v => Q a w v ∧ φ a w := by
  refine ⟨h.grows, fun w v hw => (h.alike w v hw).imp id fun alike => ?_⟩
  have hφ := hφ w
  generalize x.run w = out, y.run v = out' at alike hφ
  cases alike with
  | ok holds => exact .ok ⟨holds, hφ _ _ rfl⟩
  | error tied => exact .error tied

/-- What is so of a world, and of every later one, is still so. -/
theorem lasting {φ : World → Prop} (mono : ∀ {w w' : World}, w.Precedes w' → φ w → φ w')
    (h : Twins B lax P x y Q) :
    Twins B lax (fun w v => P w v ∧ φ w) x y fun a w v => Q a w v ∧ φ w := by
  refine ⟨h.grows, fun w v hw => (h.alike w v hw.1).imp id fun alike => ?_⟩
  have kept : φ (x.run w).2 := mono (h.grows w) hw.2
  generalize x.run w = out, y.run v = out' at alike kept
  cases alike with
  | ok holds => exact .ok ⟨holds, kept⟩
  | error tied => exact .error tied

/-- What is known not to depend on the worlds may be used. -/
theorem given {φ : Prop} (grows : x.Grows) (h : φ → Twins B lax P x y Q) :
    Twins B lax (fun w v => P w v ∧ φ) x y Q :=
  ⟨grows, fun w v hw => (h hw.2).alike w v hw.1⟩

theorem ite {c : Prop} [Decidable c] {x' y' : Run α} (hx : c → Twins B lax P x y Q)
    (hy : ¬ c → Twins B lax P x' y' Q) :
    Twins B lax P (if c then x else x') (if c then y else y') Q := by
  split
  · exact hx ‹_›
  · exact hy ‹_›

theorem tryCatch {handle handle' : Halt → Run α} (hx : Twins B lax P x y Q)
    (passes : lax → ∀ w, ((handle .exhausted).run w).1 = .error .exhausted)
    (hh : ∀ halt, Twins B lax B.ties (handle halt) (handle' halt) Q) :
    Twins B lax P (MonadExcept.tryCatch x handle) (MonadExcept.tryCatch y handle') Q := by
  refine ⟨hx.grows.tryCatch fun halt => (hh halt).grows, fun w v hp => ?_⟩
  · obtain past | alike := hx.alike w v hp
    · exact .inl (past.tryCatch passes fun halt => (hh halt).grows)
    · rw [run_tryCatch, run_tryCatch]
      generalize x.run w = out, y.run v = out' at alike
      cases alike with
      | ok holds => exact .inr (.ok holds)
      | error tied => exact (hh _).alike _ _ tied

theorem rescue {handle handle' : Failure → Run α} (hx : Twins B lax P x y Q)
    (hh : ∀ f, Twins B lax B.ties (handle f) (handle' f) Q) :
    Twins B lax P (Run.rescue x handle) (Run.rescue y handle') Q := by
  refine tryCatch hx (fun _ _ => rfl) fun halt => ?_
  cases halt with
  | raised f => exact .ite (fun _ => hh f) fun _ => .throw fun _ _ => id
  | exhausted => exact .throw fun _ _ => id

/-- What is attempted fails in both worlds or in none. -/
theorem attempt {R : Except Failure α → World → World → Prop}
    (hx : Twins B lax P x y fun a => R (.ok a)) (hf : ∀ f w v, B.ties w v → R (.error f) w v) :
    Twins B lax P (Run.attempt x) (Run.attempt y) R := by
  refine tryCatch (hx.bind fun a => pure fun _ _ => id) (fun _ _ => rfl) fun halt => ?_
  cases halt with
  | raised f => exact pure (hf f)
  | exhausted => exact throw fun _ _ => id

theorem discard {Q : Unit → World → World → Prop} (hx : Twins B lax P x y fun _ => Q ()) :
    Twins B lax P (Functor.discard x) (Functor.discard y) Q := by
  rw [discard_eq, discard_eq]
  exact bind hx fun _ => pure fun _ _ => id

theorem update {i : Nat} {f : Service → Service} {Q : Unit → World → World → Prop}
    (h : ∀ w v, P w v → Q () (w.change i f) (v.change i f)) :
    Twins B lax P (Run.update i f) (Run.update i f) Q :=
  ofGrows (fun _ => .same rfl rfl rfl) fun w v hp => .ok (h w v hp)

theorem modify {f : World → World} {Q : Unit → World → World → Prop}
    (still : ∀ w : World, w.Precedes (f w)) (h : ∀ w v, P w v → Q () (f w) (f v)) :
    Twins B lax P (modify f : Run Unit) (modify f : Run Unit) Q :=
  ofGrows still fun w v hp => .ok (h w v hp)

theorem note {e : Entry} {Q : Unit → World → World → Prop}
    (h : ∀ w v, P w v → Q () (w.noted e) (v.noted e)) :
    Twins B lax P (Run.note e) (Run.note e) Q :=
  ⟨fun w => .noted w e, fun w v hp => .inr (.ok (h w v hp))⟩

/-- An entry that puts an end to the bond is written. -/
theorem ended {e : Entry} {f : PUnit → Run α} (he : ∀ w v, P w v → B.spent (e :: w.journal))
    (hf : (f ()).Grows) :
    Twins B lax P (Run.note e >>= f) y Q := by
  refine ⟨fun w => ?_, fun w v hp => .inl (.inl ?_)⟩
  · rw [run_bind, run_note]
    exact (World.Precedes.noted w e).trans (hf (w.noted e))
  · rw [run_bind, run_note]
    exact B.grown (he w v hp) (hf (w.noted e)).journal

theorem ofExcept {e : Except Failure α} (ok : ∀ a w v, e = .ok a → P w v → Q a w v)
    (failed : ∀ w v, P w v → B.ties w v) :
    Twins B lax P (Run.ofExcept e) (Run.ofExcept e) Q := by
  cases e with
  | ok a => exact pure fun w v => ok a w v rfl
  | error f => exact fail failed

/-- Where fuel does not count, the journal has put an end to the bond, or the computations end
alike. -/
theorem either (h : Twins B False P x y Q) (w v : World) (hp : P w v) :
    B.spent (x.run w).2.journal ∨ Alike Q B.ties (x.run w) (y.run v) :=
  (h.alike w v hp).imp (fun past => past.resolve_right And.left) id

end Twins

namespace Echoes

theorem pure {a : α} : Echoes B lax (Pure.pure a : Run α) (Pure.pure a) := Twins.pure fun _ _ => id

theorem throw {halt : Halt} :
    Echoes B lax (MonadExcept.throw halt : Run α) (MonadExcept.throw halt) :=
  Twins.throw fun _ _ => id

theorem fail {f : Failure} : Echoes B lax (Run.fail f : Run α) (Run.fail f) :=
  Twins.fail fun _ _ => id

theorem bind {f f' : α → Run β} (hx : Echoes B lax x y) (hf : ∀ a, Echoes B lax (f a) (f' a)) :
    Echoes B lax (x >>= f) (y >>= f') := Twins.bind hx hf

theorem ite {c : Prop} [Decidable c] {x' y' : Run α} (hx : c → Echoes B lax x y)
    (hy : ¬ c → Echoes B lax x' y') :
    Echoes B lax (if c then x else x') (if c then y else y') := Twins.ite hx hy

theorem tryCatch {handle handle' : Halt → Run α} (hx : Echoes B lax x y)
    (passes : lax → ∀ w, ((handle .exhausted).run w).1 = .error .exhausted)
    (hh : ∀ halt, Echoes B lax (handle halt) (handle' halt)) :
    Echoes B lax (MonadExcept.tryCatch x handle) (MonadExcept.tryCatch y handle') :=
  Twins.tryCatch hx passes hh

theorem rescue {handle handle' : Failure → Run α} (hx : Echoes B lax x y)
    (hh : ∀ f, Echoes B lax (handle f) (handle' f)) :
    Echoes B lax (Run.rescue x handle) (Run.rescue y handle') :=
  Twins.rescue hx hh

theorem attempt (hx : Echoes B lax x y) : Echoes B lax (Run.attempt x) (Run.attempt y) :=
  Twins.attempt hx.matches fun _ _ _ => id

theorem discard (hx : Echoes B lax x y) : Echoes B lax (Functor.discard x) (Functor.discard y) :=
  Twins.discard hx

theorem ofExcept {e : Except Failure α} : Echoes B lax (Run.ofExcept e) (Run.ofExcept e) :=
  Twins.ofExcept (fun _ _ _ _ => id) fun _ _ => id

theorem member {v : Value} {name : String} : Echoes B lax (Run.member v name) (Run.member v name) :=
  ofExcept

/-- The world is looked at, and what follows in the second world is the same as it would be in
the first. -/
theorem look {f f' : World → Run α} (same : ∀ w v, B.ties w v → f' w = f' v)
    (hf : ∀ u, Echoes B lax (f u) (f' u)) :
    Echoes B lax (MonadState.get >>= f) (MonadState.get >>= f') := by
  refine ⟨fun w => ?_, fun w v tied => ?_⟩
  · rw [run_bind, run_get]
    exact (hf w).grows w
  · rw [run_bind, run_bind, run_get, run_get]
    dsimp only
    rw [← same w v tied]
    exact (hf w).alike w v tied

theorem forM {f f' : α → Run Unit} {xs : List α} (h : ∀ a ∈ xs, Echoes B lax (f a) (f' a)) :
    Echoes B lax (xs.forM f) (xs.forM f') := by
  induction xs with
  | nil => exact pure
  | cons a rest ih =>
    exact .bind (h a List.mem_cons_self) fun _ => ih fun a ha => h a (List.mem_cons_of_mem _ ha)

theorem foldlM {f f' : β → α → Run β} {xs : List α}
    (h : ∀ b, ∀ a ∈ xs, Echoes B lax (f b a) (f' b a)) (b : β) :
    Echoes B lax (xs.foldlM f b) (xs.foldlM f' b) := by
  induction xs generalizing b with
  | nil => exact pure
  | cons a rest ih =>
    exact .bind (h b a List.mem_cons_self) fun b =>
      ih (fun b a ha => h b a (List.mem_cons_of_mem _ ha)) b

/-- Unless the bond is at an end, what the first computation returns in its world is what the
second returns in its own. -/
theorem run (h : Echoes B lax x y) {w v : World} (tied : B.ties w v)
    (open_ : ¬ B.Over lax (x.run w)) :
    (x.run w).1 = (y.run v).1 ∧ B.ties (x.run w).2 (y.run v).2 := by
  obtain past | alike := h.alike w v tied
  · exact absurd past open_
  · generalize x.run w = out, y.run v = out' at alike
    cases alike with
    | ok holds => exact ⟨rfl, holds⟩
    | error tied => exact ⟨rfl, tied⟩

end Echoes

theorem Mirrors.grows (h : Mirrors B x) : x.Grows := Twins.grows h

/-- The computation returns what it returns in the one world in the other world too. -/
theorem Mirrors.run (h : Mirrors B x) {w v : World} (tied : B.ties w v)
    (open_ : ¬ B.spent (x.run w).2.journal) :
    (x.run w).1 = (x.run v).1 ∧ B.ties (x.run w).2 (x.run v).2 :=
  Echoes.run h tied fun past => open_ (past.resolve_right And.left)

end Run
end FlatMachine
