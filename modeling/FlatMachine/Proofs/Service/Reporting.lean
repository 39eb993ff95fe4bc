import FlatMachine.Proofs.Service.Unmatched

/-! # Reports of failed cancel callbacks

An ordinary failure of a cancel callback is reported to the error hooks of the service, one after
the other, and the first of them that raises is the last that is told.

* **`Prog.Mutters`**: a program does nothing to any service, except that it may raise an ordinary
  failure.
* **`Engine.Reported`**: what such a report is, call by call.
* **`Reports`**: what it is as the journal has it, if the hooks mutter.
* **`Engine.dismiss_reports`**: the failure of a cancel callback is reported so, and nothing else
  comes of it, unless a hook was told that does more (**`Loud`**), or fuel ran out. -/

namespace FlatMachine

/-- The effect only asks for what is there: what a service shows, or a future made before. -/
def Effect.asks : Effect → Bool
  | sharedFuture _ => true
  | r => r.looks

/-- The program does nothing to any service: it logs, asks for what is there, has called what
does no more, and if it fails, it does so in an ordinary way.  As there is no pending context,
what is done with one does not matter. -/
inductive Prog.Mutters (book : Book) : Prog Object → Prop where
  | done (o : Object) : Mutters book (.done o)
  | fail {f : Failure} (ordinary : f.isOrdinary = true) : Mutters book (.fail f)
  | pending (next : Context → Prog Object) : Mutters book (.pending next)
  | write (o : Object) (next : Prog Object) : Mutters book (.write o next)
  | log {label : Value} {values : List Value} {next : Unit → Prog Object}
      (rest : Mutters book (next ())) :
      Mutters book (.ask (.log label values) next)
  | asks {r : Effect} {next : r.Reply → Prog Object} (asks : r.asks = true)
      (rest : ∀ x, Mutters book (next x)) :
      Mutters book (.ask r next)
  | call {f : Value} {args : List Object} {next : Object → Prog Object}
      (called : Mutters book (book f args))
      (rest : ∀ o, Mutters book (next o)) : Mutters book (.ask (.call f args) next)
  | handleLog {label : Value} {values : List Value} {next : Except Failure Unit → Prog Object}
      (rest : Mutters book (next (.ok ()))) :
      Mutters book (.handle (.log label values) next)
  | handleAsks {r : Effect} {next : Except Failure r.Reply → Prog Object} (asks : r.asks = true)
      (rest : ∀ x, Mutters book (next x)) : Mutters book (.handle r next)
  | handleCall {f : Value} {args : List Object} {next : Except Failure Object → Prog Object}
      (called : Mutters book (book f args))
      (rest : ∀ x, Mutters book (next x)) : Mutters book (.handle (.call f args) next)

/-- The entry is written by what mutters on the owner's behalf. -/
def Entry.IsMuttered (owner : Owner) : Entry → Prop
  | logged o .. | called o .nested .. => o = owner
  | _ => False

/-- Error hooks are told in order, all of them or up to the first that raises: what is written
then, newest first. -/
inductive Informs (i : Nat) (error : Object) :
    List Value → (raised : Bool) → List Entry → Prop where
  | all : Informs i error [] false []
  | next {f : Value} {rest : List Value} {raised : Bool} {muttered later : List Entry}
      (muttered_ : ∀ e ∈ muttered, e.IsMuttered (.service i))
      (informs : Informs i error rest raised later) :
      Informs i error (f :: rest) raised
        (later ++ (muttered ++ [.called (.service i) (.hook .error) f [error]]))
  | raised {f : Value} {rest : List Value} {muttered : List Entry}
      (muttered_ : ∀ e ∈ muttered, e.IsMuttered (.service i)) :
      Informs i error (f :: rest) true (muttered ++ [.called (.service i) (.hook .error) f [error]])

/-- What those of the hooks do that observe errors. -/
def Hook.onError (hooks : List Hook) : List Value := hooks.filterMap (·.method? .error)

/-- The log record of a cancel callback that failed. -/
abbrev Entry.cancelFailed : Entry := .record .warning "Invocation cancel callback failed; ignoring"

/-- The log record of an error hook that failed in being told so. -/
abbrev Entry.hookFailed : Entry :=
  .record .warning "on_error hook failed while reporting a cancel error; ignoring"

/-- The failure of the cancel callback of a token, as error hooks are given it. -/
abbrev cancelError (i : Nat) (t : Option Token) (failure : Failure) : Object :=
  .fresh (.failure (.service i, (t.getD 0).toNat) failure)

/-- The failed cancel callback of a token is reported to the hooks: what is written then, newest
first. -/
inductive Reports (i : Nat) (hooks : List Hook) (t : Option Token) (failure : Failure) :
    List Entry → Prop where
  | told {told : List Entry}
      (informs : Informs i (cancelError i t failure) (Hook.onError hooks) false told) :
      Reports i hooks t failure (told ++ [.cancelFailed])
  | raised {told : List Entry}
      (informs : Informs i (cancelError i t failure) (Hook.onError hooks) true told) :
      Reports i hooks t failure (.hookFailed :: (told ++ [.cancelFailed]))

/-- An error hook was told that does not only mutter. -/
def Loud (book : Book) (journal : List Entry) : Prop :=
  ∃ owner f args, .called owner (.hook .error) f args ∈ journal ∧ ¬ (book f args).Mutters book

theorem Loud.mono {book : Book} {journal journal' : List Entry} (hp : journal <:+ journal')
    (h : Loud book journal) :
    Loud book journal' := by
  obtain ⟨owner, f, args, mem, loud⟩ := h
  exact ⟨owner, f, args, hp.subset mem, loud⟩

/-- The entries are written, given newest first, and nothing else has changed. -/
def World.Writes (w : World) (entries : List Entry) (w' : World) : Prop :=
  w' = { w with journal := entries ++ w.journal, points := w'.points, settings := w'.settings }

namespace World.Writes

variable {u v w : World} {entries later : List Entry}

theorem nil (w : World) : w.Writes [] w := rfl

theorem noted (h : w.Writes entries v) (e : Entry) : w.Writes (e :: entries) (v.noted e) := by
  unfold Writes World.noted
  rw [h]
  rfl

theorem trans (h : w.Writes entries v) (h' : v.Writes later u) : w.Writes (later ++ entries) u := by
  have journal : later ++ v.journal = later ++ entries ++ w.journal := by
    rw [h]
    exact (List.append_assoc ..).symm
  unfold Writes
  rw [← journal]
  exact Eq.trans h' (by rw [h])

end World.Writes

/-- What mutters on the owner's behalf has written something. -/
def World.Muttered (owner : Owner) (w v : World) : Prop :=
  ∃ muttered, w.Writes muttered v ∧ ∀ e ∈ muttered, e.IsMuttered owner

theorem World.Muttered.noted {owner : Owner} {w v : World} {e : Entry} (h : w.Muttered owner v)
    (he : e.IsMuttered owner) :
    w.Muttered owner (v.noted e) := by
  obtain ⟨muttered, writes, own⟩ := h
  exact ⟨e :: muttered, writes.noted e, List.forall_mem_cons.mpr ⟨he, own⟩⟩

namespace Run

/-- What halts is the want of fuel, or an ordinary failure in a world that satisfies `K`. -/
def Falters (K : World → Prop) (halt : Halt) (w : World) : Prop :=
  halt = .exhausted ∨ ∃ f, halt = .raised f ∧ f.isOrdinary = true ∧ K w

theorem Falters.imp {K K' : World → Prop} {halt : Halt} {w : World} (h : Falters K halt w)
    (hk : K w → K' w) :
    Falters K' halt w := by
  obtain rfl | ⟨f, rfl, ordinary, hw⟩ := h
  · exact .inl rfl
  · exact .inr ⟨f, rfl, ordinary, hk hw⟩

/-- An attempt returns where the computation returns or fails in an ordinary way, and is halted by
the rest. -/
theorem Ends.attempt_falters {α : Type} {P K : World → Prop} {x : Run α}
    (hx : Ends P x (fun _ => K) (Falters K)) :
    Ends P (Run.attempt x) (fun _ => K) (Falters K) := by
  refine .attempt hx (fun f w halted => ?_) fun _ => id
  obtain halted | ⟨-, -, -, hw⟩ := halted
  · cases halted
  · exact hw

/-- A service that is asked for may not be there. -/
theorem ends_asked {K : World → Prop} {α : Type} {i : Nat} {f : Service → α} :
    Ends K (do return f (← service i)) (fun _ => K) (Falters K) := by
  intro w hw
  rw [run_bind]
  cases hs : w.services[i]? with
  | none =>
    rw [run_service_none hs]
    exact .inr ⟨_, rfl, rfl, hw⟩
  | some s =>
    rw [run_service hs]
    exact hw

end Run

namespace Engine

open Run

variable {book : Book} {fuel i : Nat} {owner : Owner} {w : World}

theorem ends_asks {K : World → Prop} {r : Effect} (asks : r.asks = true) :
    Ends K ((ofBook book fuel).answer owner r) (fun _ => K) (Falters K) := by
  cases r with
  | isActive i t => exact ends_asked
  | state i => exact ends_asked
  | status i => exact ends_asked
  | sharedFuture n =>
    refine .look fun v _ => ?_
    split
    · exact .pure fun _ => id
    · exact .fail fun _ hw => .inr ⟨_, rfl, rfl, hw⟩
  | _ => cases asks

/-- What is called does what its program does. -/
theorem ends_nested {f : Value} {args : List Object} {fuel : Nat} {owner : Owner} {w : World}
    (called : ∀ fuel, Ends (w.Muttered owner) ((ofBook book fuel).exec owner (book f args) none)
      (fun _ => w.Muttered owner) (Falters (w.Muttered owner))) :
    Ends (w.Muttered owner)
      ((ofBook book fuel).answer owner (.call f args)) (fun _ => w.Muttered owner)
      (Falters (w.Muttered owner)) := by
  refine .bind (Q := fun _ => w.Muttered owner) (.note fun _ hw => hw.noted rfl) fun _ => ?_
  refine .bind (Q := fun _ => w.Muttered owner) ?_ fun _ => .pure fun _ => id
  cases fuel with
  | zero => exact .throw fun _ _ => .inl rfl
  | succ fuel => exact called fuel

/-- Running a program that mutters writes entries of its owner, and nothing else happens. -/
theorem ends_mutters {p : Prog Object} (h : p.Mutters book) (fuel : Nat) (owner : Owner)
    (w : World) :
    Ends (w.Muttered owner) ((ofBook book fuel).exec owner p none) (fun _ => w.Muttered owner)
      (Falters (w.Muttered owner)) := by
  induction h generalizing fuel owner w with
  | done o => exact .pure fun _ => id
  | @fail f ordinary => exact .fail fun _ hw => .inr ⟨f, rfl, ordinary, hw⟩
  | pending next => exact .fail fun _ hw => .inr ⟨_, rfl, rfl, hw⟩
  | write o next => exact .fail fun _ hw => .inr ⟨_, rfl, rfl, hw⟩
  | @log label values next rest ih =>
    exact .bind (.note fun _ hw => hw.noted (e := .logged owner label values) rfl) fun _ =>
      ih fuel owner w
  | asks asks rest ih => exact .bind (ends_asks asks) fun x => ih x fuel owner w
  | call called rest ihc ihr =>
    exact .bind (ends_nested fun fuel => ihc fuel owner w) fun o => ihr o fuel owner w
  | @handleLog label values next rest ih =>
    refine .bind (Q := fun r v => r = .ok () ∧ w.Muttered owner v)
      (.attempt (F := fun _ _ => False)
        (.note fun _ hw => ⟨rfl, hw.noted (e := .logged owner label values) rfl⟩)
          (fun _ _ => False.elim) fun _ => False.elim)
      fun r => .given (fun _ hv => hv.1) ?_
    rintro rfl
    exact (ih fuel owner w).pre fun _ hv => hv.2
  | handleAsks asks rest ih =>
    exact .bind (ends_asks asks).attempt_falters fun x => ih x fuel owner w
  | handleCall called rest ihc ihr =>
    exact .bind (ends_nested fun fuel => ihc fuel owner w).attempt_falters fun x =>
      ihr x fuel owner w

/-- What mutters is called. -/
def HasCalled (w : World) (owner : Owner) (role : Role) (f : Value) (args : List Object)
    (v : World) : Prop :=
  ∃ muttered, w.Writes (muttered ++ [.called owner role f args]) v ∧
    ∀ e ∈ muttered, e.IsMuttered owner

theorem ends_invoke {f : Value} {args : List Object} (h : (book f args).Mutters book)
    (role : Role) :
    Ends (· = w) ((ofBook book fuel).invoke owner role f args)
      (fun _ => HasCalled w owner role f args) (Falters (HasCalled w owner role f args)) := by
  have called {v : World} (hv : (w.noted (.called owner role f args)).Muttered owner v) :
      HasCalled w owner role f args v := by
    obtain ⟨muttered, writes, own⟩ := hv
    exact ⟨muttered, ((World.Writes.nil w).noted _).trans writes, own⟩
  refine .bind (Q := fun _ => (w.noted (.called owner role f args)).Muttered owner)
    (.note fun _ same => ?_) fun _ => ?_
  · obtain rfl := same
    exact ⟨[], .nil _, List.forall_mem_nil _⟩
  · refine .bind (Q := fun _ => HasCalled w owner role f args) ?_ fun _ => .pure fun _ => id
    cases fuel with
    | zero => exact .throw fun _ _ => .inl rfl
    | succ fuel =>
      exact (ends_mutters h fuel owner _).conseq (fun _ => id) (fun _ _ => called) fun _ _ hv =>
        hv.imp called

/-- Once an error hook was loud, it stays so whatever is done. -/
theorem ends_loud {α : Type} {x : Run α} (hx : x.Grows) :
    Ends (fun w => Loud book w.journal) x (fun _ w => Loud book w.journal) fun _ w =>
      Loud book w.journal :=
  Respects.ofRun fun w loud => loud.mono (hx w).journal

theorem observe_cons (g : Engine) (owner : Owner) (hook : Hook) (rest : List Hook) (m : Moment)
    (args : List Object) :
    g.observe owner (hook :: rest) m args = (match hook.method? m with
      | none => g.observe owner rest m args
      | some f => discard (g.invoke owner (.hook m) f args) >>= fun _ =>
        g.observe owner rest m args) := by
  show ((match hook.method? m with
    | none => pure ()
    | some f => discard (g.invoke owner (.hook m) f args)) >>= fun _ =>
      g.observe owner rest m args) = _
  cases hook.method? m with
  | none => exact pure_bind ..
  | some f => rfl

/-- Error hooks are told in order, up to the first that is halted, as long as none is loud. -/
theorem ends_observe (error : Object) (hooks : List Hook) (w : World) :
    Ends (· = w) ((ofBook book fuel).observe (.service i) hooks .error [error])
      (fun _ v => Loud book v.journal ∨ ∃ told, w.Writes told v ∧
        Informs i error (Hook.onError hooks) false told)
      fun halt v => Loud book v.journal ∨
        Falters (fun v => ∃ told, w.Writes told v ∧ Informs i error (Hook.onError hooks) true told)
          halt v := by
  have hooked (f : Value) :
      Mirrors Bond.void ((ofBook book fuel).invoke (.service i) (.hook .error) f [error]) :=
    (Bond.void_open.calls book fuel).invoke _ (.hook .error) nofun f _
  induction hooks generalizing w with
  | nil => exact .pure fun v same => .inr ⟨[], same ▸ .nil w, .all⟩
  | cons hook rest ih =>
    unfold Hook.onError at ih ⊢
    rw [observe_cons, List.filterMap_cons]
    cases hook.method? .error with
    | none => exact ih w
    | some f =>
      by_cases mutters : (book f [error]).Mutters book
      · refine .bind (Q := fun _ => HasCalled w (.service i) (.hook .error) f [error])
          (.discard ?_) fun _ => ?_
        · refine (ends_invoke mutters (.hook .error)).weaken fun halt v hv => .inr (hv.imp ?_)
          rintro ⟨muttered, writes, own⟩
          exact ⟨_, writes, .raised own⟩
        · refine .ofExists fun muttered v ⟨writes, own⟩ => ?_
          refine ((ih v).conseq (fun _ => id) (fun _ u => .imp id ?_) fun halt u =>
            .imp id fun hu => hu.imp ?_) v rfl
          all_goals
            rintro ⟨later, writes', informs⟩
            exact ⟨_, writes.trans writes', .next own informs⟩
      · have loud : Ends (· = w) ((ofBook book fuel).invoke (.service i) (.hook .error) f [error])
            (fun _ v => Loud book v.journal) fun _ v => Loud book v.journal := by
          refine .bind (Q := fun _ v => Loud book v.journal)
            (.note fun _ _ => ⟨_, f, [error], List.mem_cons_self, mutters⟩) ?_
          exact fun _ => .bind (ends_loud (grows_call book fuel _ _ _ _)) fun _ => .pure fun _ => id
        have rest : Grows ((ofBook book fuel).observe (.service i) rest .error [error]) :=
          Mirrors.grows (observe_echoes hooked rest)
        exact (Ends.bind (.discard loud) fun _ => ends_loud rest).conseq (fun _ => id)
          (fun _ _ => .inl) fun _ _ => .inl

/-- Callbacks are called in order, all of them or up to the first that is halted. -/
inductive Addresses (g : Engine) (owner : Owner) (role : Role) (args : List Object) :
    List Value → World → Except Halt Unit → World → Prop where
  | all (w : World) : Addresses g owner role args [] w (.ok ()) w
  | next {f : Value} {fs : List Value} {o : Object} {w u v : World} {r : Except Halt Unit}
      (returned : (g.invoke owner role f args).run w = (.ok o, u))
      (rest : Addresses g owner role args fs u r v) :
      Addresses g owner role args (f :: fs) w r v
  | last {f : Value} {fs : List Value} {halt : Halt} {w v : World}
      (halted : (g.invoke owner role f args).run w = (.error halt, v)) :
      Addresses g owner role args (f :: fs) w (.error halt) v

/-- The hooks of a moment are called in order, up to the first that is halted. -/
theorem observe_addresses (g : Engine) (owner : Owner) (hooks : List Hook) (m : Moment)
    (args : List Object) (w : World) :
    g.Addresses owner (.hook m) args (hooks.filterMap (·.method? m)) w
      ((g.observe owner hooks m args).run w).1 ((g.observe owner hooks m args).run w).2 := by
  induction hooks generalizing w with
  | nil => exact .all w
  | cons hook rest ih =>
    rw [observe_cons, List.filterMap_cons]
    cases hook.method? m with
    | none => exact ih w
    | some f =>
      dsimp only
      rw [run_bind, run_discard]
      cases called : (g.invoke owner (.hook m) f args).run w with
      | mk r u =>
        cases r with
        | error halt => exact .last called
        | ok o => exact .next called (ih u)

/-- The failure of a cancel callback was reported: error hooks were told in order, all of them or
up to the first that raised. -/
inductive Reported (g : Engine) (i : Nat) (hooks : List Hook) (t : Option Token) (failure : Failure)
    (w : World) :
    World → Prop where
  | told {v : World}
      (told : g.Addresses (.service i) (.hook .error) [cancelError i t failure] (Hook.onError hooks)
        (w.noted .cancelFailed) (.ok ()) v) : Reported g i hooks t failure w v
  | raised {f : Failure} {v : World} (ordinary : f.isOrdinary = true)
      (told : g.Addresses (.service i) (.hook .error) [cancelError i t failure] (Hook.onError hooks)
        (w.noted .cancelFailed) (.error (.raised f)) v) :
      Reported g i hooks t failure w (v.noted .hookFailed)

/-- A report that comes to an end was one. -/
theorem reported_of_ok (g : Engine) {s : Service} (hs : w.services[i]? = some s) (t : Option Token)
    (failure : Failure)
    (done : ((g.reportCancelFailure i t failure).run (w.noted .cancelFailed)).1 = .ok ()) :
    g.Reported i s.hooks t failure w
      ((g.reportCancelFailure i t failure).run (w.noted .cancelFailed)).2 := by
  have told := g.observe_addresses (.service i) s.hooks .error [cancelError i t failure]
    (w.noted .cancelFailed)
  unfold reportCancelFailure rescue at done ⊢
  dsimp only at done ⊢
  rw [run_tryCatch, run_bind, run_service (w := w.noted _) hs] at done ⊢
  dsimp only at done ⊢
  generalize (g.observe (.service i) s.hooks .error _).run _ = out at told done ⊢
  obtain ⟨halt | ⟨⟩, v⟩ := out
  · cases halt with
    | exhausted => cases done
    | raised f =>
      dsimp only at done ⊢
      by_cases ordinary : f.isOrdinary = true
      · rw [if_pos ordinary]
        exact .raised ordinary told
      · rw [if_neg ordinary] at done
        cases done
  · exact .told told

/-- The report of a failure, from the log record of it on. -/
theorem ends_report (book : Book) (fuel : Nat) {s : Service} (hs : w.services[i]? = some s)
    (t : Option Token) (failure : Failure) :
    Ends (· = w.noted .cancelFailed)
      ((ofBook book fuel).reportCancelFailure i t failure)
        (fun _ v => Loud book v.journal ∨ ∃ entries, w.Writes entries v ∧
        Reports i s.hooks t failure entries)
      fun halt v => Loud book v.journal ∨ halt = .exhausted := by
  let u := w.noted .cancelFailed
  have recorded : w.Writes [.cancelFailed] u := (World.Writes.nil w).noted _
  let error := cancelError i t failure
  have observed :
      Ends (· = u) (do (ofBook book fuel).observe (.service i) (← service i).hooks .error [error])
        (fun _ v => Loud book v.journal ∨ ∃ told, u.Writes told v ∧
          Informs i error (Hook.onError s.hooks) false told)
        fun halt v => Loud book v.journal ∨
        Falters (fun v => ∃ told, u.Writes told v ∧
          Informs i error (Hook.onError s.hooks) true told) halt v := by
    refine .bind (Q := fun s' v => s' = s ∧ v = u)
      (.service fun v same => ⟨s, same ▸ hs, rfl, same⟩) fun s' => ?_
    rintro v ⟨rfl, same⟩
    exact ends_observe error s'.hooks u v same
  refine .tryCatch (observed.post fun _ v => ?_) fun halt => ?_
  · rintro (loud | ⟨told, writes, informs⟩)
    · exact .inl loud
    · exact .inr ⟨_, recorded.trans writes, .told informs⟩
  · cases halt with
    | exhausted => exact .throw fun _ _ => .inr rfl
    | raised f =>
      refine .ite (fun ordinary => .note fun v => ?_) fun other => .throw fun v => ?_
      · rintro (loud | exhausted | ⟨f, -, -, told, writes, informs⟩)
        · exact .inl (loud.mono (List.suffix_cons _ _))
        · cases exhausted
        · exact .inr ⟨_, (recorded.trans writes).noted _, .raised informs⟩
      · rintro (loud | exhausted | ⟨f, same, ordinary, -⟩)
        · exact .inl loud
        · cases exhausted
        · cases same
          exact absurd ordinary other

/-! ### What comes of cancel callbacks -/

variable {g : Engine} {t : Option Token} {f : Value} {w' : World}

/-- Nothing more comes of a cancel callback that returns. -/
theorem run_dismiss_ok {o : Object}
    (returned : (g.invoke (.service i) (.cancel t) f []).run w = (.ok o, w')) :
    (g.dismiss i t (some f)).run w = (.ok (), w') := by
  unfold dismiss callCancel? callCancel rescue
  rw [run_bind, run_tryCatch, run_bind, run_discard, returned]
  rfl

theorem run_dismiss_raised {failure : Failure} (ordinary : failure.isOrdinary = true)
    (failed : (g.invoke (.service i) (.cancel t) f []).run w = (.error (.raised failure), w')) :
    (g.dismiss i t (some f)).run w =
      (g.reportCancelFailure i t failure).run (w'.noted .cancelFailed) := by
  unfold dismiss callCancel? callCancel rescue
  rw [run_bind, run_tryCatch, run_bind, run_discard, failed]
  dsimp only
  rw [if_pos ordinary]
  rfl

/-- What else halts a cancel callback is passed on. -/
theorem run_dismiss_halted {halt : Halt}
    (other : ∀ failure, halt = .raised failure → ¬ failure.isOrdinary = true)
    (halted : (g.invoke (.service i) (.cancel t) f []).run w = (.error halt, w')) :
    (g.dismiss i t (some f)).run w = (.error halt, w') := by
  unfold dismiss callCancel? callCancel rescue
  rw [run_bind, run_tryCatch, run_bind, run_discard, halted]
  dsimp only
  cases halt with
  | exhausted => rfl
  | raised failure =>
    dsimp only
    rw [if_neg (other failure rfl)]
    rfl

/-- The ordinary failure of a cancel callback is reported, and nothing else comes of it, as long
as all that is told of it mutters and there is enough fuel. -/
theorem dismiss_reports {failure : Failure} {s : Service}
    (failed : ((ofBook book fuel).invoke (.service i) (.cancel t) f []).run w =
      (.error (.raised failure), w'))
    (ordinary : failure.isOrdinary = true) (hs : w'.services[i]? = some s) :
    let out := ((ofBook book fuel).dismiss i t (some f)).run w
    Loud book out.2.journal ∨ out.1 = .error .exhausted ∨
      out.1 = .ok () ∧ (ofBook book fuel).Reported i s.hooks t failure w' out.2 ∧
        ∃ entries, w'.Writes entries out.2 ∧ Reports i s.hooks t failure entries := by
  have ends := ends_report book fuel hs t failure _ rfl
  have reported := reported_of_ok (ofBook book fuel) hs t failure
  dsimp only
  rw [run_dismiss_raised ordinary failed]
  generalize ((ofBook book fuel).reportCancelFailure i t failure).run _ = out at ends reported
  obtain ⟨halt | ⟨⟩, v⟩ := out
  · obtain loud | rfl := ends
    · exact .inl loud
    · exact .inr (.inl rfl)
  · exact ends.imp id fun reports => .inr ⟨rfl, reported rfl, reports⟩

end Engine
end FlatMachine
