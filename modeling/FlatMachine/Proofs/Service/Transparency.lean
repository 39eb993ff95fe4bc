import FlatMachine.Proofs.Service.Alone
import FlatMachine.Proofs.Service.Reporting

/-! # Cancel callbacks that fail

A cancel callback that fails in an ordinary way is as good as one that returns, but for the
report of its failure (**`World.cancel_failures_transparent`**), provided that error hooks only
mutter.

* **`Book.Mars`**: in a second book certain callables may fail at their end, and are otherwise
  the same.
* **`Interspersed`**: one journal is another with reports of failed cancel callbacks in between.
* **`Bond.marring`**: two worlds are the same but for such reports.  They stay so whatever is
  done in both, as long as those callables are called to cancel only
  (**`Engine.calls_marring`**).

The first of two worlds is the one in which cancel callbacks fail. -/

namespace FlatMachine

/-- The second program does what the first does, but where that is done, it may fail in an
ordinary way. -/
inductive Prog.Stumbles : Prog Object → Prog Object → Prop where
  | done (o : Object) : Stumbles (.done o) (.done o)
  | stumble (o : Object) {f : Failure} (ordinary : f.isOrdinary = true) :
      Stumbles (.done o) (.fail f)
  | fail (f : Failure) : Stumbles (.fail f) (.fail f)
  | pending {next next' : Context → Prog Object} (rest : ∀ c, Stumbles (next c) (next' c)) :
      Stumbles (.pending next) (.pending next')
  | write (o : Object) {next next' : Prog Object} (rest : Stumbles next next') :
      Stumbles (.write o next) (.write o next')
  | ask (r : Effect) {next next' : r.Reply → Prog Object}
      (rest : ∀ x, Stumbles (next x) (next' x)) :
      Stumbles (.ask r next) (.ask r next')
  | handle (r : Effect) {next next' : Except Failure r.Reply → Prog Object}
      (rest : ∀ x, Stumbles (next x) (next' x)) :
      Stumbles (.handle r next) (.handle r next')

/-- The second book differs from the first in the given callables only, which may fail at their
end. -/
structure Book.Mars (marred : Value → Prop) (book faulty : Book) : Prop where
  same : ∀ f, ¬ marred f → faulty f = book f
  stumbles : ∀ f args, marred f → (book f args).Stumbles (faulty f args)

/-- The first journal is the second with reports of failed cancel callbacks in between, each to
the hooks of its service. -/
inductive Interspersed (hooks : List (List Hook)) : List Entry → List Entry → Prop where
  | nil : Interspersed hooks [] []
  | cons {journal journal' : List Entry} (e : Entry) (rest : Interspersed hooks journal journal') :
      Interspersed hooks (e :: journal) (e :: journal')
  | report {journal journal' entries : List Entry} {i : Nat} {own : List Hook} {t : Option Token}
    {failure : Failure} (found : hooks[i]? = some own) (ordinary : failure.isOrdinary = true)
      (reports : Reports i own t failure entries)
    (rest : Interspersed hooks journal journal') : Interspersed hooks (entries ++ journal) journal'

theorem Interspersed.mono {hooks hooks' : List (List Hook)} {journal journal' : List Entry}
    (hp : hooks <+: hooks') (h : Interspersed hooks journal journal') :
    Interspersed hooks' journal journal' := by
  induction h with
  | nil => exact .nil
  | cons e rest ih => exact .cons e ih
  | report found ordinary reports rest ih =>
    obtain ⟨later, rfl⟩ := hp
    exact .report ((List.getElem?_append_left (List.getElem?_eq_some_iff.mp found).1).trans found)
      ordinary reports ih

theorem World.change_hooks (w : World) (i : Nat) {f : Service → Service}
    (kept : ∀ s, (f s).hooks = s.hooks) :
    (w.change i f).services.map (·.hooks) = w.services.map (·.hooks) := by
  refine List.ext_getElem? fun k => ?_
  rw [List.getElem?_map, List.getElem?_map, World.change_services]
  split
  · rw [Option.map_map]
    exact congrArg (Option.map · _) (funext kept)
  · rfl

/-- The worlds are the same, but for reports in between.  That ends where a callable that may
fail is called for anything but cancelling, or an error hook that does more than mutter is told. -/
def Bond.marring (marred : Value → Prop) (faulty : Book) : Bond where
  ties w v := w = { v with journal := w.journal, points := w.points, settings := w.settings } ∧
    Interspersed (v.services.map (·.hooks)) w.journal v.journal
  spent journal := Loud faulty journal ∨
    ∃ owner role f args, .called owner role f args ∈ journal ∧ marred f ∧ ∀ t, role ≠ .cancel t
  rise := by
    rintro e journal (loud | ⟨owner, role, f, args, mem, other⟩)
    · exact .inl (loud.mono (List.suffix_cons e journal))
    · exact .inr ⟨owner, role, f, args, List.mem_cons_of_mem e mem, other⟩

/-- A report in between leaves the worlds tied. -/
theorem Bond.marring_report {marred : Value → Prop} {faulty : Book} {w v u : World} {i : Nat}
    {s : Service} {t : Option Token} {failure : Failure} {entries : List Entry}
    (tied : (Bond.marring marred faulty).ties w v) (hs : w.services[i]? = some s)
    (ordinary : failure.isOrdinary = true) (writes : w.Writes entries u)
    (reports : Reports i s.hooks t failure entries) :
    (Bond.marring marred faulty).ties u v := by
  obtain ⟨same, between⟩ := tied
  have written : u.journal = entries ++ w.journal := by rw [writes]
  refine ⟨?_, ?_⟩
  · rw [written]
    rw [same] at writes
    exact writes
  · have found : (v.services.map (·.hooks))[i]? = some s.hooks := by
      rw [same] at hs
      rw [List.getElem?_map]
      exact congrArg (Option.map _) hs
    rw [written]
    exact .report found ordinary reports between

theorem Bond.marring_open (marred : Value → Prop) (faulty : Book) :
    (Bond.marring marred faulty).Open where
  beside := by
    rintro w v ⟨same, -⟩
    rw [same]
    rfl
  moved := by
    rintro w v u ⟨same, between⟩
    refine ⟨?_, between⟩
    rw [same]
    rfl
  same := by
    rintro w v ⟨same, -⟩
    rw [same]
  heard := by
    rintro w v ⟨same, -⟩
    rw [same]
  noted := by
    rintro w v e ⟨same, between⟩
    refine ⟨?_, .cons e between⟩
    rw [same]
    rfl
  changed := by
    rintro w v i f modest ⟨same, between⟩
    refine ⟨?_, ?_⟩
    · rw [same]
      rfl
    · rw [World.change_hooks v i fun s => (modest s).1]
      exact between
  subscribed := by
    rintro w v i listener ⟨same, between⟩
    refine ⟨?_, ?_⟩
    · rw [same]
      rfl
    · have hooks := World.change_hooks v i
        (f := fun s => { s with listeners := s.listeners ++ [listener] }) fun _ => rfl
      exact hooks ▸ between
  created := by
    rintro w v s - ⟨same, between⟩
    refine ⟨?_, ?_⟩
    · rw [same]
    · refine between.mono ?_
      rw [List.map_append]
      exact List.prefix_append ..

/-- The service is there, in one world. -/
def Bond.housing (i : Nat) : Bond := ⟨fun w v => w = v ∧ i < w.services.length, fun _ => False, id⟩

theorem Bond.housing_open (i : Nat) : (Bond.housing i).Open where
  beside := by
    rintro w v ⟨rfl, -⟩
    rfl
  moved := by
    rintro w v u ⟨rfl, there⟩
    exact ⟨rfl, there⟩
  same := fun tied => congrArg _ tied.1
  heard := fun tied => congrArg _ tied.1
  noted := by
    rintro w v e ⟨rfl, there⟩
    exact ⟨rfl, there⟩
  changed := by
    rintro w v k f - ⟨rfl, there⟩
    exact ⟨rfl, (List.length_modify ..).symm ▸ there⟩
  subscribed := by
    rintro w v k listener ⟨rfl, there⟩
    exact ⟨rfl, (List.length_modify ..).symm ▸ there⟩
  created := by
    rintro w v s - ⟨rfl, there⟩
    exact ⟨rfl, Nat.lt_of_lt_of_le there (List.length_append ▸ Nat.le_add_right ..)⟩

/-! ### Two books -/

namespace Run

variable {α β : Type} {B : Bond} {lax : Prop} {x y : Run α}

/-- The outcomes are alike, or where the second computation returns, the first has failed in an
ordinary way, in worlds that satisfy `E`. -/
inductive Strained (E : World → World → Prop) :
    Except Halt α × World → Except Halt α × World → Prop where
  | alike {out out' : Except Halt α × World} (alike : Alike (fun _ => E) E out out') :
      Strained E out out'
  | failed {f : Failure} {a : α} {w v : World} (ordinary : f.isOrdinary = true) (tied : E w v) :
      Strained E (.error (.raised f), w) (.ok a, v)

/-- In worlds that are tied, the second computation does what the first does, except that the
first may fail at its end. -/
structure Strains (B : Bond) (lax : Prop) (x y : Run α) : Prop where
  grows : x.Grows
  strained : ∀ w v, B.ties w v → B.Over lax (x.run w) ∨ Strained B.ties (x.run w) (y.run v)

namespace Strains

theorem ofEchoes (h : Echoes B lax x y) : Strains B lax x y :=
  ⟨Twins.grows h, fun w v tied => (Twins.alike h w v tied).imp id .alike⟩

theorem failed {f : Failure} {a : α} (ordinary : f.isOrdinary = true) :
    Strains B lax (Run.fail f) (pure a) :=
  ⟨World.Precedes.refl, fun _ _ tied => .inr (.failed ordinary tied)⟩

theorem bind {f f' : α → Run β} (hx : Echoes B lax x y) (hf : ∀ a, Strains B lax (f a) (f' a)) :
    Strains B lax (x >>= f) (y >>= f') := by
  refine ⟨Grows.bind (Twins.grows hx) fun a => (hf a).grows, fun w v tied => ?_⟩
  obtain past | alike := Twins.alike hx w v tied
  · exact .inl (past.bind fun a => (hf a).grows)
  · rw [run_bind, run_bind]
    generalize x.run w = out, y.run v = out' at alike
    cases alike with
    | ok holds => exact (hf _).strained _ _ holds
    | error tied => exact .inr (.alike (.error tied))

/-- Where the second computation does what the first does, except that the first may fail at its
end, it also does so when their results are mapped. -/
theorem returning (hx : Strains B lax x y) (f : α → β) :
    Strains B lax (x >>= fun a => pure (f a)) (y >>= fun a => pure (f a)) := by
  have pures (a : α) : Grows (pure (f a) : Run β) := World.Precedes.refl
  refine ⟨hx.grows.bind pures, fun w v tied => ?_⟩
  obtain past | strained := hx.strained w v tied
  · exact .inl (past.bind pures)
  · rw [run_bind, run_bind]
    generalize x.run w = out, y.run v = out' at strained
    obtain (⟨tied⟩ | ⟨tied⟩) | ⟨ordinary, tied⟩ := strained
    · exact .inr (.alike (.ok tied))
    · exact .inr (.alike (.error tied))
    · exact .inr (.failed ordinary tied)

end Strains
end Run

namespace Engine

open Run

variable {g g' : Engine} {B : Bond} {lax : Prop}

/-- By induction on where the program may fail: until then, both programs do the same. -/
theorem OpensWith.stumbles (h : g.OpensWith g' B lax) {p q : Prog Object} (hp : p.Stumbles q)
    (owner : Owner) (c : Option Context) :
    Strains B lax (g.exec owner q c) (g'.exec owner p c) := by
  induction hp generalizing c with
  | done o => exact .ofEchoes .pure
  | stumble o ordinary => exact .failed ordinary
  | fail f => exact .ofEchoes .fail
  | pending rest ih =>
    cases c with
    | none => exact .ofEchoes .fail
    | some c => exact ih c (some c)
  | write o rest ih =>
    cases c with
    | none => exact .ofEchoes .fail
    | some c => exact .bind (h.adopt owner o) fun c => ih (some c)
  | ask r rest ih => exact .bind (h.answer owner r) fun reply => ih reply c
  | handle r rest ih => exact .bind (h.answer owner r).attempt fun reply => ih reply c

/-- Services stay, whatever is called. -/
theorem found_of_invoke (book : Book) (fuel : Nat) {i : Nat} {w : World}
    (there : i < w.services.length) (owner : Owner) (role : Role) (f : Value) (args : List Object) :
    i < (((ofBook book fuel).invoke owner role f args).run w).2.services.length := by
  have invoked : Mirrors (Bond.housing i) ((ofBook book fuel).invoke owner role f args) := by
    rw [invoke_eq]
    refine .bind (.bind ?_ fun _ => (Bond.housing_open i).call book fuel ..) fun _ => .pure
    exact Twins.note fun _ _ => (Bond.housing_open i).noted _
  exact (invoked.run ⟨rfl, there⟩ id).2.2

variable {marred : Value → Prop} {book faulty : Book} {n i : Nat} {t : Option Token} {f : Value}

/-- Where a bond is at an end in a cancel callback, it is so in what comes of it. -/
theorem over_dismiss {w : World}
    (past : B.Over lax (((ofBook book n).invoke (.service i) (.cancel t) f []).run w)) :
    B.Over lax (((ofBook book n).dismiss i t (some f)).run w) := by
  have pures {α : Type} (a : α) : Grows (pure a : Run α) := World.Precedes.refl
  refine .bind (.tryCatch (.bind ?_ fun _ => pures _) (fun _ _ => rfl) fun halt => ?_)
    fun failure => ?_
  · rw [discard_eq]
    exact past.bind fun _ => pures _
  · cases halt with
    | exhausted => exact World.Precedes.refl
    | raised failure =>
      dsimp only
      split
      · exact .bind (fun w => .noted w _) fun _ => pures _
      · exact World.Precedes.refl
  · cases failure with
    | none => exact pures _
    | some failure =>
      have void := Bond.void_open.calls book n
      exact Mirrors.grows
        (reported_echoes (Bond.void_open.found i) (fun _ _ => Bond.void_open.noted _)
        (void.invoke (.service i) (.hook .error) nofun) t failure)

/-- If a cancel callback fails where it would have returned, what comes of it is the same, but
for the report. -/
theorem dismissed_marring (told : ∀ f args, Echoes (.marring marred faulty) True
      ((ofBook faulty n).invoke (.service i) (.hook .error) f args)
        ((ofBook book n).invoke (.service i) (.hook .error) f args))
    (strains : Strains (.marring marred faulty) True
      ((ofBook faulty n).invoke (.service i) (.cancel t) f [])
      ((ofBook book n).invoke (.service i) (.cancel t) f [])) :
    Twins (.marring marred faulty) True
      (fun w v => (Bond.marring marred faulty).ties w v ∧ w.services[i]?.isSome = true)
      ((ofBook faulty n).dismiss i t (some f)) ((ofBook book n).dismiss i t (some f))
      fun _ => (Bond.marring marred faulty).ties := by
  have marring := Bond.marring_open marred faulty
  refine ⟨((Bond.void_open.calls faulty n).dismissed i t (some f)).grows,
    fun w v ⟨tied, there⟩ => ?_⟩
  obtain past | strained := strains.strained w v tied
  · exact .inl (over_dismiss past)
  · obtain ⟨_, found⟩ := Option.isSome_iff_exists.mp there
    have kept :=
      found_of_invoke faulty n (List.getElem?_eq_some_iff.mp found).1 (.service i) (.cancel t) f []
    generalize hw : ((ofBook faulty n).invoke (.service i) (.cancel t) f []).run w = out,
      hv : ((ofBook book n).invoke (.service i) (.cancel t) f []).run v = out' at strained kept
    obtain (⟨tied⟩ | @⟨halt, w', v', tied⟩) | @⟨failure, a, w', v', ordinary, tied⟩ := strained
    · rw [run_dismiss_ok hw, run_dismiss_ok hv]
      exact .inr (.ok tied)
    · cases halt with
      | exhausted =>
        have other : ∀ f, Halt.exhausted = .raised f → ¬ f.isOrdinary = true :=
          fun _ same => nomatch same
        rw [run_dismiss_halted other hw, run_dismiss_halted other hv]
        exact .inr (.error tied)
      | raised failure =>
        by_cases ordinary : failure.isOrdinary = true
        · rw [run_dismiss_raised ordinary hw, run_dismiss_raised ordinary hv]
          exact (reported_echoes (marring.found i)
            (fun _ _ => marring.noted _) told t failure).alike _ _ (marring.noted _ tied)
        · have other : ∀ f, Halt.raised failure = .raised f → ¬ f.isOrdinary = true :=
            fun f same => Halt.raised.inj same ▸ ordinary
          rw [run_dismiss_halted other hw, run_dismiss_halted other hv]
          exact .inr (.error tied)
    -- Only in the first world there is something to report.
    · rw [run_dismiss_ok hv]
      have hs := List.getElem?_eq_getElem kept
      have reports := dismiss_reports hw ordinary hs
      dsimp only at reports
      generalize ((ofBook faulty n).dismiss i t (some f)).run w = out at reports
      obtain ⟨result, u⟩ := out
      dsimp only at reports
      obtain loud | exhausted | ⟨rfl, -, entries, writes, reports⟩ := reports
      · exact .inl (.inl (.inl loud))
      · exact .inl (.inr ⟨trivial, exhausted⟩)
      · exact .inr (.ok (Bond.marring_report tied hs ordinary writes reports))

/-- Whatever is called leaves the worlds tied, by induction on the fuel. -/
theorem calls_marring (mars : Book.Mars marred book faulty) (fuel : Nat) :
    (ofBook faulty fuel).CallsWith (ofBook book fuel) (.marring marred faulty) True := by
  have marring := Bond.marring_open marred faulty
  induction fuel with
  | zero => exact .ofCalls rfl marring.found (fun e _ => marring.noted e) fun _ _ _ _ => .throw
  | succ n ih =>
    have opens := marring.opens ih
    have same (owner : Owner) (role : Role) {f : Value} (args : List Object) (c : Option Context)
        (hf : ¬ marred f) :
        Echoes (.marring marred faulty) True
          (do note (.called owner role f args); (ofBook faulty (n + 1)).call owner f args c)
          (do note (.called owner role f args); (ofBook book (n + 1)).call owner f args c) := by
      refine .bind (opens.note _ nofun) fun _ => ?_
      show Echoes _ _ ((ofBook faulty n).exec owner (faulty f args) c)
        ((ofBook book n).exec owner (book f args) c)
      rw [mars.same f hf]
      exact opens.exec owner _ c
    have called (owner : Owner) (role : Role) (f : Value) (args : List Object) (c : Option Context)
        (hr : ∀ t, role ≠ .cancel t) : Echoes (.marring marred faulty) True
          (do note (.called owner role f args); (ofBook faulty (n + 1)).call owner f args c)
          (do note (.called owner role f args); (ofBook book (n + 1)).call owner f args c) := by
      by_cases hf : marred f
      · exact .ended (fun w v _ => .inr ⟨owner, role, f, args, List.mem_cons_self, hf, hr⟩)
          (grows_call faulty _ owner f args c)
      · exact same owner role args c hf
    have told (i : Nat) (f : Value) (args : List Object) : Echoes (.marring marred faulty) True
        ((ofBook faulty (n + 1)).invoke (.service i) (.hook .error) f args)
        ((ofBook book (n + 1)).invoke (.service i) (.hook .error) f args) := by
      rw [invoke_eq, invoke_eq]
      exact .bind (called _ _ f args none nofun) fun _ => .pure
    refine ⟨rfl, called, fun i t callback => ?_, grows_call faulty (n + 1)⟩
    cases callback with
    | none => exact .pure fun _ _ => And.left
    | some f =>
      by_cases hf : marred f
      · refine dismissed_marring (told i) ?_
        rw [invoke_eq, invoke_eq]
        refine .returning
          (.bind (opens.note (.called (.service i) (.cancel t) f []) nofun) fun _ => ?_) _
        exact opens.stumbles (mars.stumbles f [] hf) _ none
      · refine .pre (dismissed_echoes (marring.found i) (fun _ _ => marring.noted _) (told i) t
          fun f' hf' => ?_) fun _ _ => And.left
        cases hf'
        rw [invoke_eq, invoke_eq]
        exact .bind (same _ _ [] none hf) fun _ => .pure

end Engine

/-! ### Histories -/

/-- Two engines that call alike carry out a history alike, one command after the other, as long
as the first has enough fuel and the bond is not spent. -/
theorem Bond.Open.history {B : Bond} (h : B.Open) {book faulty : Book} {fuel : Nat}
    (calls : (Engine.ofBook faulty fuel).CallsWith (.ofBook book fuel) B True)
    {history : List Command} {w v : World} (tied : B.ties w v)
    (enough : w.lasts (.ofBook faulty fuel) history = true)
    (open_ : ¬ B.spent (w.after (.ofBook faulty fuel) history).journal)
    {earlier later : List Command} (split : history = earlier ++ later) :
    B.ties (w.after (.ofBook faulty fuel) earlier) (v.after (.ofBook book fuel) earlier) ∧
    ∀ c rest, later = c :: rest →
    (((Engine.ofBook faulty fuel).obey c).run (w.after (.ofBook faulty fuel) earlier)).1 =
      (((Engine.ofBook book fuel).obey c).run (v.after (.ofBook book fuel) earlier)).1 := by
  induction history generalizing w v earlier with
  | nil =>
    obtain ⟨rfl, rfl⟩ := List.append_eq_nil_iff.mp split.symm
    exact ⟨tied, nofun⟩
  | cons c rest ih =>
    obtain ⟨lasts, enough⟩ := Bool.and_eq_true_iff.mp enough
    have written :=
      (World.grows_after faulty fuel rest (((Engine.ofBook faulty fuel).obey c).run w).2).journal
    have stepped := Run.Echoes.run (h.obey calls c) tied <| by
      rintro (spent | ⟨-, exhausted⟩)
      · exact open_ (B.grown spent written)
      · rw [exhausted] at lasts
        cases lasts
    cases earlier with
    | nil =>
      obtain rfl : c :: rest = later := split
      refine ⟨tied, ?_⟩
      rintro c' rest' ⟨⟩
      exact stepped.1
    | cons c' earlier =>
      obtain ⟨rfl, rest⟩ := List.cons.inj split
      exact ih stepped.2 enough open_ rest

/-- Take any run, and let certain callables fail at their end in an ordinary way, of which only
cancel callbacks are called.  If error hooks do nothing but mutter, the run is the same, command
by command: everything in the world is, each command has the same outcome, and the journal is the
same but for the reports of failures.  Wherever a cancel callback fails, its failure is reported
to the error hooks, in order up to the first that raises, and nothing else comes of it. -/
theorem World.cancel_failures_transparent {marred : Value → Prop} {book faulty : Book}
    (mars : Book.Mars marred book faulty) (fuel : Nat) (looping : Bool) (history : List Command)
    (only : ∀ owner role f args, .called owner role f args ∈
      ((World.start looping).after (.ofBook faulty fuel) history).journal →
      marred f → ∃ t, role = .cancel t)
    (quiet : ∀ owner f args,
      .called owner (.hook .error) f args ∈
        ((World.start looping).after (.ofBook faulty fuel) history).journal →
      (faulty f args).Mutters faulty)
    (enough : (World.start looping).lasts (.ofBook faulty fuel) history = true) :
    (∀ earlier later, history = earlier ++ later →
      let w := (World.start looping).after (.ofBook faulty fuel) earlier
      let v := (World.start looping).after (.ofBook book fuel) earlier
      w = { v with journal := w.journal, points := w.points, settings := w.settings } ∧
      Interspersed (v.services.map (·.hooks)) w.journal v.journal ∧
      ∀ c rest, later = c :: rest →
        (((Engine.ofBook faulty fuel).obey c).run w).1 =
          (((Engine.ofBook book fuel).obey c).run v).1) ∧
    ∀ n i t f failure s (w v : World),
      ((Engine.ofBook faulty n).invoke (.service i) (.cancel t) f []).run w =
        (.error (.raised failure), v) →
      failure.isOrdinary = true → v.services[i]? = some s →
      let out := ((Engine.ofBook faulty n).callCancel (.service i) t f >>=
        (Engine.ofBook faulty n).reportCancelFailure? i t).run w
      (∀ owner f args, .called owner (.hook .error) f args ∈ out.2.journal →
        (faulty f args).Mutters faulty) →
      out.1 ≠ .error .exhausted →
      out.1 = .ok () ∧ (Engine.ofBook faulty n).Reported i s.hooks t failure v out.2 ∧
        ∃ entries, v.Writes entries out.2 ∧ Reports i s.hooks t failure entries := by
  have unspent :
      ¬ (Bond.marring marred faulty).spent
        ((World.start looping).after (.ofBook faulty fuel) history).journal := by
    rintro (⟨owner, f, args, mem, loud⟩ | ⟨owner, role, f, args, mem, hf, other⟩)
    · exact loud (quiet owner f args mem)
    · obtain ⟨t, cancels⟩ := only owner role f args mem hf
      exact other t cancels
  refine ⟨fun earlier later split => ?_,
    fun n i t f failure s w v failed ordinary hs mutters enough => ?_⟩
  · have tied : (Bond.marring marred faulty).ties (World.start looping) (World.start looping) :=
      ⟨rfl, .nil⟩
    obtain ⟨⟨same, between⟩, alike⟩ :=
      (Bond.marring_open marred faulty).history (Engine.calls_marring mars fuel) tied enough
      unspent split
    exact ⟨same, between, alike⟩
  · obtain ⟨owner, f, args, mem, loud⟩ | exhausted | reported :=
      Engine.dismiss_reports failed ordinary hs
    · exact absurd (mutters owner f args mem) loud
    · exact absurd exhausted enough
    · exact reported

namespace Frail

def here : Node :=
  ⟨[(.str "GO", .tuple [Swing.candidate "there"])], [], [],
    Invocation.toValue ⟨Swing.function 0, [], [], .bool true⟩, []⟩

def there : Node :=
  ⟨[(.str "BACK", .tuple [Swing.candidate "here"])], [], [],
    Invocation.toValue ⟨Swing.function 1, [], [], .bool true⟩, []⟩

def machine : Machine where
  id := .str "frail"
  initial := .str "here"
  context := .null
  states := [(.str "here", here.toValue), (.str "there", there.toValue)]

/-- The callables of the swing: both sources return a cancel callback, and that of there has its own
invocation cancelled before; the first hook is calm, the second one is not. -/
def codes (release : Prog Object) : Codes
  | .host 0, _, _ => .ask .future fun a => .done (.fresh (.tuple [a.toValue, Swing.function 2]))
  | .host 1, _, [_, _, access] =>
    match access.value with
    | .sourceAccess i t => .ask (.cancelInvocation i t) fun _ => .ask .future fun a =>
      .done (.fresh (.tuple [a.toValue, Swing.function 2]))
    | _ => .done (.fresh .null)
  | .host 2, _, _ => .ask (.log (.str "released") []) fun _ => release
  | .host 3, _, _ => .ask (.log (.str "told") []) fun _ => .done (.fresh .null)
  | .host 4, _, _ => .ask (.log (.str "told as well") []) fun _ => .fail (.raised .runtime "upset")
  | _, _, _ => .done (.fresh .null)

def sound : Book := Book.ofCodes (codes (.done (.fresh .null)))

def frail : Book := Book.ofCodes (codes (.fail (.raised .runtime "frail")))

/-- The cancel callback. -/
def isRelease : Value → Bool
  | .function _ _ (.host 2) _ => true
  | _ => false

theorem frail_mars : Book.Mars (fun f => isRelease f = true) sound frail where
  same := by
    intro f other
    funext args
    unfold isRelease at other
    cases f with
    | function owner name code held =>
      show codes _ code held args = codes _ code held args
      unfold codes
      split
      · rfl
      · rfl
      · exact absurd rfl other
      all_goals rfl
    | _ => rfl
  stumbles := by
    intro f args release
    unfold isRelease at release
    split at release
    · exact .ask _ fun _ => .stumble _ rfl
    · cases release

/-- The hooks that are told. -/
def isTold : Value → Bool
  | .function _ _ (.host 3) _ | .function _ _ (.host 4) _ => true
  | _ => false

theorem told_mutters {f : Value} (told : isTold f = true) (args : List Object) :
    (frail f args).Mutters frail := by
  unfold isTold at told
  split at told
  · exact .log (.done _)
  · exact .log (.fail rfl)
  · cases told

def birth : List Command := [.create machine.toValue .standard
  [[("on_error", Swing.function 3)], [("on_error", Swing.function 4)],
    [("on_error", Swing.function 5)]] true, .start 0 .null]

/-- The swing goes and comes back, is cancelled, goes and comes back again, and is stopped. -/
def life : List Command :=
  birth ++ [.send 0 (.str "GO"), .send 0 (.str "BACK"), .cancelInvocation 0 12, .send 0 (.str "GO"),
  .send 0 (.str "BACK"), .stop 0]

/-- The tokens whose cancel callbacks were called, and the numbers of the hooks that were told. -/
def seen? : Entry → Option Nat
  | .called _ (.cancel (some t)) .. => some t.toNat
  | .called _ (.hook .error) (.function _ _ (.host k) _) _ => some k
  | _ => none

/-- The frail swing is here, and its invocation is pending. -/
def started : World := (World.start true).after (.ofBook frail 9) birth

/-- The cancel callback of the pending invocation is called. -/
def release : Run Object :=
  (Engine.ofBook frail 9).invoke (.service 0) (.cancel (some 6)) (Swing.function 2) []

/-- The cancel callback of the pending invocation is called, and its failure is reported. -/
def dismissal : Run Unit := do
  (Engine.ofBook frail 9).reportCancelFailure? 0 (some 6)
    (← (Engine.ofBook frail 9).callCancel (.service 0) (some 6) (Swing.function 2))

def isFailure : Except Halt Object × World → Bool
  | (.error (.raised f), w) => f.isOrdinary && w.services[0]?.isSome
  | _ => false

/-- Whenever a cancel callback fails, the first two hooks are told; other than that, nothing
comes of it. -/
theorem frailty_transparent :
    let w := (World.start true).after (.ofBook frail 9) life
    let v := (World.start true).after (.ofBook sound 9) life
    (w = { v with journal := w.journal, points := w.points, settings := w.settings } ∧
      Interspersed (v.services.map (·.hooks)) w.journal v.journal ∧
      v.journal.reverse.filterMap seen? = [6, 9, 12, 15, 18] ∧
      w.journal.reverse.filterMap seen? = [6, 3, 4, 9, 3, 4, 12, 3, 4, 15, 3, 4, 18, 3, 4]) ∧
    ∃ s failure u u' entries, release.run started = (.error (.raised failure), u) ∧
    dismissal.run started = (.ok (), u') ∧
      u.services[0]? = some s ∧ (Engine.ofBook frail 9).Reported 0 s.hooks (some 6) failure u u' ∧
      u.Writes entries u' ∧ Reports 0 s.hooks (some 6) failure entries := by
  have released : ((World.start true).after (.ofBook frail 9) life).journal.all
      (Entry.callsOnly fun role f => role.isCancel || !isRelease f) = true := by decide +kernel
  have told : ((World.start true).after (.ofBook frail 9) life).journal.all
      (Entry.callsOnly fun role f => role != .hook .error || isTold f) = true := by decide +kernel
  have transparent := World.cancel_failures_transparent frail_mars 9 true life
    (fun owner role f args mem release => ?_) (fun owner f args mem => ?_) (by decide +kernel)
  · obtain ⟨same, between, -⟩ := transparent.1 life [] (List.append_nil _).symm
    refine ⟨⟨same, between, by decide +kernel, by decide +kernel⟩, ?_⟩
    have failed : isFailure (release.run started) = true := by decide +kernel
    have told : (dismissal.run started).2.journal.all
      (Entry.callsOnly fun role f => role != .hook .error || isTold f) = true := by decide +kernel
    have done : (dismissal.run started).1.toBool = true := by decide +kernel
    unfold isFailure at failed
    split at failed
    · rename_i failure u run
      obtain ⟨ordinary, there⟩ := Bool.and_eq_true_iff.mp failed
      obtain ⟨s, hs⟩ := Option.isSome_iff_exists.mp there
      obtain ⟨ok, reported, entries, writes, reports⟩ : (dismissal.run started).1 = .ok () ∧ _ :=
        transparent.2 9 0 (some 6) (Swing.function 2) failure s started u run ordinary hs
          (fun owner f args mem => told_mutters (List.all_eq_true.mp told _ mem) args)
            fun exhausted => absurd (done.symm.trans (congrArg Except.toBool exhausted)) nofun
      exact ⟨s, failure, u, _, entries, run, Prod.ext ok rfl, hs, reported, writes, reports⟩
    · cases failed
  · have cancels : (role.isCancel || !isRelease f) = true := List.all_eq_true.mp released _ mem
    rw [release] at cancels
    cases role with
    | cancel t => exact ⟨t, rfl⟩
    | _ => cases cancels
  · exact told_mutters (List.all_eq_true.mp told _ mem) args

end Frail

end FlatMachine
