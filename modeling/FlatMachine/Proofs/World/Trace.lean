import FlatMachine.Proofs.World.Meets

/-! # What computations tell

A **`Trace`** says what a computation may tell, in order, and how it may end then.  Traces are
composed as computations are, but they know nothing of worlds: what is done to a world by
whatever is told is left out.

**`Run.Tells`** says that a computation follows a trace.  A **`Ledger`** says what is known of
the world for what was told so far; the rules follow the way in which computations are composed. -/

namespace FlatMachine

/-- What may be told, earliest first, and how it may end then. -/
def Trace (α : Type) : Type := List Entry → Except Halt α → Prop

namespace Trace

variable {α β γ : Type}

/-- One is followed by the other, unless it is halted. -/
inductive Seq (x : Trace α) (f : α → Trace β) : List Entry → Except Halt β → Prop where
  | ok {es es' : List Entry} {a : α} {r : Except Halt β} (first : x es (.ok a)) (next : f a es' r) :
      Seq x f (es ++ es') r
  | error {es : List Entry} {halt : Halt} (first : x es (.error halt)) : Seq x f es (.error halt)

instance : Monad Trace where
  pure a := fun es r => es = [] ∧ r = .ok a
  bind := Seq

theorem seq_pure (x : Trace α) : (x >>= fun a => pure a) = x := by
  funext es r
  refine propext ⟨?_, fun told => ?_⟩
  · rintro (⟨first, rfl, rfl⟩ | first)
    · exact (List.append_nil _).symm ▸ first
    · exact first
  · cases r with
    | ok a => exact List.append_nil es ▸ Seq.ok told ⟨rfl, rfl⟩
    | error halt => exact .error told

theorem pure_seq (a : α) (f : α → Trace β) : pure a >>= f = f a := by
  funext es r
  have nothing : (pure a : Trace α) [] (.ok a) := ⟨rfl, rfl⟩
  refine propext ⟨?_, fun told => .ok nothing told⟩
  rintro (⟨⟨rfl, same⟩, next⟩ | ⟨-, halted⟩)
  · cases same
    exact next
  · cases halted

theorem seq_assoc (x : Trace α) (f : α → Trace β) (h : β → Trace γ) :
    x >>= f >>= h = x >>= fun a => f a >>= h := by
  funext es r
  refine propext ⟨?_, ?_⟩
  · rintro (⟨⟨first, second⟩, third⟩ | (⟨first, second⟩ | first))
    · exact List.append_assoc _ _ _ ▸ .ok first (.ok second third)
    · exact .ok first (.error second)
    · exact .error first
  · rintro (⟨first, ⟨second, third⟩ | second⟩ | first)
    · exact List.append_assoc _ _ _ ▸ .ok (.ok first second) third
    · exact .error (.ok first second)
    · exact .error (.error first)

instance : LawfulMonad Trace := LawfulMonad.mk' Trace seq_pure pure_seq seq_assoc

/-- Nothing is told, and it is halted. -/
def throw (halt : Halt) : Trace α := fun es r => es = [] ∧ r = .error halt

/-- Nothing is told by what may fail. -/
def ofExcept : Except Failure α → Trace α
  | .ok a => pure a
  | .error f => throw (.raised f)

/-- One entry is told. -/
def tell (e : Entry) : Trace Unit := fun es r => es = [e] ∧ r = .ok ()

/-- Ordinary failures are handled, and all else passes. -/
inductive Rescue (x : Trace α) (handle : Failure → Trace α) :
    List Entry → Except Halt α → Prop where
  | ok {es : List Entry} {a : α} (done : x es (.ok a)) : Rescue x handle es (.ok a)
  | handled {es es' : List Entry} {f : Failure} {r : Except Halt α}
      (failed : x es (.error (.raised f)))
      (ordinary : f.isOrdinary = true) (next : handle f es' r) : Rescue x handle (es ++ es') r
  | error {es : List Entry} {halt : Halt} (failed : x es (.error halt))
      (other : ∀ f, halt = .raised f → f.isOrdinary = false) : Rescue x handle es (.error halt)

/-- A callback is called, and ends as it does in some world in which that was told just now. -/
def call (g : Engine) (owner : Owner) (role : Role) (f : Value) (args : List Object)
    (c : Option Context) :
    Trace (Object × Option Context) := fun es r =>
  es = [.called owner role f args] ∧
    ∃ w : World, w.journal.head? = some (.called owner role f args) ∧
    ((g.call owner f args c).run w).1 = r

end Trace

/-- What is known of a world when some entries were told.  What is known of how that came about
may be given up. -/
structure Ledger where
  holds : Prop → List Entry → World → Prop
  mono : ∀ {p q : Prop} {es : List Entry} {w : World}, (p → q) → holds p es w → holds q es w

namespace Run

variable {α β : Type} {L : Ledger} {x : Run α} {T : Trace α} {p : Prop} {es : List Entry}
  {w : World}

/-- After some entries, more were told by the trace. -/
def Recounts (L : Ledger) (p : Prop) (es : List Entry) (T : Trace α) (r : Except Halt α)
    (w : World) : Prop :=
  ∃ es', L.holds (p ∧ T es' r) (es ++ es') w

/-- Whatever was told before, the computation follows the trace. -/
def Tells (L : Ledger) (x : Run α) (T : Trace α) : Prop :=
  ∀ p es, Ends (L.holds p es) x (fun a => Recounts L p es T (.ok a)) fun halt =>
    Recounts L p es T (.error halt)

theorem Recounts.still {r : Except Halt α} (hT : T [] r) (hw : L.holds p es w) :
    Recounts L p es T r w :=
  ⟨[], (List.append_nil es).symm ▸ L.mono (fun hp => ⟨hp, hT⟩) hw⟩

theorem Recounts.map {U : Trace β} {r : Except Halt α} {r' : Except Halt β}
    (h : Recounts L p es T r w) (hU : ∀ es', T es' r → U es' r') : Recounts L p es U r' w := by
  obtain ⟨es', hw⟩ := h
  exact ⟨es', L.mono (And.imp_right (hU es')) hw⟩

/-- What is told then is told after all that was told before. -/
theorem Recounts.trans {es' : List Entry} {p' : Prop} {U : Trace β} {V : Trace α}
    {r : Except Halt α} {r' : Except Halt β} (h : Recounts L (p ∧ p') (es ++ es') U r' w)
    (hV : ∀ es'', p' → U es'' r' → V (es' ++ es'') r) : Recounts L p es V r w := by
  obtain ⟨es'', hw⟩ := h
  exact ⟨es' ++ es'',
    List.append_assoc es es' es'' ▸ L.mono (fun hp => ⟨hp.1.1, hV es'' hp.1.2 hp.2⟩) hw⟩

namespace Tells

theorem pure {a : α} : Tells L (Pure.pure a) (Pure.pure a : Trace α) :=
  fun _ _ => .pure fun _ => .still ⟨rfl, rfl⟩

theorem throw {halt : Halt} : Tells L (MonadExcept.throw halt : Run α) (Trace.throw halt) :=
  fun _ _ => .throw fun _ => .still ⟨rfl, rfl⟩

theorem ofExcept {e : Except Failure α} : Tells L (Run.ofExcept e) (Trace.ofExcept e) := by
  cases e with
  | ok a => exact pure
  | error f => exact throw

theorem bind {f : α → Run β} {U : α → Trace β} (hx : Tells L x T) (hf : ∀ a, Tells L (f a) (U a)) :
    Tells L (x >>= f) (T >>= U) := by
  intro p es
  refine .bind ((hx p es).weaken fun halt w told => told.map fun _ => .error) fun a =>
    .ofExists fun es' => ?_
  exact (hf a _ _).conseq (fun _ => id) (fun _ _ told => told.trans fun _ => .ok) fun _ _ told =>
    told.trans fun _ => .ok

theorem discard (hx : Tells L x T) : Tells L (Functor.discard x) (do let _ ← T; Pure.pure ()) := by
  rw [discard_eq]
  exact hx.bind fun _ => pure

/-- What a part of the computation returns is not used. -/
theorem after {y : Run β} {U : Trace β} (hx : Tells L x T) (hy : Tells L y U) :
    Tells L (do Functor.discard x; y) (do let _ ← T; U) := by
  rw [discard_eq, bind_assoc]
  refine hx.bind fun _ => ?_
  rwa [pure_bind]

/-- A part of the computation tells nothing and cannot be halted. -/
theorem skip {y : Run β} {f : β → Run α}
    (hy : ∀ p es, Ends (L.holds p es) y (fun _ => L.holds p es) fun _ _ => False)
    (hf : ∀ b, Tells L (f b) T) : Tells L (y >>= f) T :=
  fun p es => .bind ((hy p es).weaken fun _ _ => False.elim) fun b => hf b p es

/-- A service of which something is known is looked at. -/
theorem peek {i : Nat} {φ : Service → Prop}
    (known : ∀ p es w, L.holds p es w → ∃ s, w.services[i]? = some s ∧ φ s) {f : Service → Run α}
    (hf : ∀ s, φ s → Tells L (f s) T) : Tells L (service i >>= f) T := by
  intro p es w hw
  obtain ⟨s, hs, hφ⟩ := known p es w hw
  rw [run_bind, run_service hs]
  exact hf s hφ p es w hw

theorem ite {c : Prop} [Decidable c] {y : Run α} {U : Trace α} (hx : Tells L x T)
    (hy : Tells L y U) :
    Tells L (if c then x else y) (if c then T else U) := by
  split
  · exact hx
  · exact hy

theorem rescue {handle : Failure → Run α} {H : Failure → Trace α} (hx : Tells L x T)
    (hh : ∀ f, Tells L (handle f) (H f)) : Tells L (Run.rescue x handle) (Trace.Rescue T H) := by
  intro p es
  refine .tryCatch ((hx p es).post fun a w told => told.map fun _ => .ok) fun halt => ?_
  cases halt with
  | exhausted => exact .throw fun _ told => told.map fun _ failed => .error failed nofun
  | raised f =>
    refine .ite (fun ordinary => .ofExists fun es' => ?_) fun other =>
      .throw fun _ told => told.map fun _ failed => ?_
    · exact (hh f _ _).conseq (fun _ => id)
        (fun _ _ told => told.trans fun _ failed => .handled failed ordinary)
        fun _ _ told => told.trans fun _ failed => .handled failed ordinary
    · refine .error failed fun f' same => ?_
      cases same
      exact Bool.eq_false_iff.mpr other

end Tells

end Run

end FlatMachine
