import FlatMachine.Proofs.Service.Concerns

/-! # What actions accumulate

Actions are run one after the other on a pending context.  A run of them is followed to a point
where some of a program is left to do (**`Engine.ComesTo`**), so that it can be said whether one
of them writes and what one sends.

Whatever callbacks do, nothing that was handed over is taken back (**`World.Retains`**).  So an
action that fails takes the pending context with it, and leaves what was sent
(**`Engine.actions_accumulate`**). -/

namespace FlatMachine

/-- What was put into the tray and what was written are still there. -/
structure World.Retains (w w' : World) : Prop where
  tray : w.tray <+: w'.tray
  journal : w.journal <:+ w'.journal

namespace World.Retains

variable {w w' w'' : World}

theorem refl (w : World) : w.Retains w := ⟨List.prefix_rfl, List.suffix_rfl⟩

theorem trans (h : w.Retains w') (h' : w'.Retains w'') : w.Retains w'' :=
  ⟨h.tray.trans h'.tray, h.journal.trans h'.journal⟩

theorem noted (w : World) (e : Entry) : w.Retains (w.noted e) :=
  ⟨List.prefix_rfl, List.suffix_cons e _⟩

/-- What a world retains outlasts whatever is not about a given service. -/
theorem bystands (g : Engine) (i : Nat) (w : World) : g.Bystands i w.Retains where
  aside := fun advances h => ⟨h.tray.trans advances.tray, advances.journal ▸ h.journal⟩
  noted := fun _ _ h => h.trans (noted _ _)
  others := fun _ _ h => ⟨h.tray, h.journal⟩
  created := fun _ h => ⟨h.tray, h.journal⟩

end World.Retains

namespace Engine

open Run World

variable {book : Book} {fuel : Nat} {g : Engine} {owner : Owner} {e : Event} {c c' c₁ : Context}
  {w w' u : World} {actions before after : List Value} {f : Value}

/-! ### Nothing is taken back -/

theorem sustains_retains (book : Book) (fuel : Nat) (w : World) :
    (ofBook book fuel).Sustains w.Retains :=
  sustains_ofBook (fun _ hc => Bystands.heeds (fun i => Retains.bystands _ i w) hc 0) trivial fuel

theorem retains_exec (book : Book) (fuel : Nat) (owner : Owner) {α : Type} (p : Prog α)
    (c : Option Context) (w : World) :
    w.Retains (((ofBook book fuel).exec owner p c).run w).2 :=
  have heeds := Bystands.heeds (fun i => Retains.bystands (ofBook book fuel) i w)
    (sustains_retains book fuel w) 0
  (heeds.exec (sustains_retains book fuel w) trivial owner p c).run (.refl w)

theorem retains_runAction (book : Book) (fuel : Nat) (owner : Owner) (e : Event) (c : Context)
    (f : Value) (w : World) :
    w.Retains (((ofBook book fuel).runAction owner e c f).run w).2 := by
  refine Respects.run (K := w.Retains) (.bind (fun v h => h.trans (.noted v _)) fun _ => ?_)
    (.refl w)
  exact .bind (sustains_retains book fuel w _ _ _ _) fun _ => .pure

/-- What is still there after the first of two computations is so after the second. -/
theorem retains_bind {α β : Type} {x : Run α} {k : α → Run β} {v : World}
    (first : v.Retains (x.run w).2) (second : ∀ a (u : World), u.Retains ((k a).run u).2) :
    v.Retains ((x >>= k).run w).2 := by
  rw [run_bind]
  generalize x.run w = out at first
  obtain ⟨h | a, u⟩ := out
  · exact first
  · exact first.trans (second a u)

/-- An attempt retains what the computation retains that is attempted. -/
theorem retains_attempt {α : Type} {x : Run α} {v : World} (kept : v.Retains (x.run w).2) :
    v.Retains ((attempt x).run w).2 := by
  rw [run_attempt]
  generalize x.run w = out at kept
  obtain ⟨(f | _) | a, u⟩ := out <;> exact kept

theorem retains_runActions (book : Book) (fuel : Nat) (owner : Owner) (actions : List Value)
    (c : Context) (e : Event) (w : World) :
    w.Retains (((ofBook book fuel).runActions owner actions c e).run w).2 := by
  induction actions generalizing c w with
  | nil => exact .refl w
  | cons f rest ih =>
    exact retains_bind (retains_runAction book fuel owner e c f w) fun c u => ih c u

/-! ### Following a run -/

/-- Run in a world with a pending context, the program comes to a point, in another world and
with another context, where the second program is left to do. -/
inductive Leads (g : Engine) (owner : Owner) {α : Type} :
    Prog α → Context → World → Prog α → Context → World → Prop
  | here {p : Prog α} {c : Context} {w : World} : Leads g owner p c w p c w
  | pending {next : Context → Prog α} {q : Prog α} {c c' : Context} {w u : World}
      (later : Leads g owner (next c) c w q c' u) : Leads g owner (.pending next) c w q c' u
  | write {o : Object} {next q : Prog α} {c c₁ c' : Context} {w w₁ u : World}
      (adopted : (adopt owner o).run w = (.ok c₁, w₁))
      (later : Leads g owner next c₁ w₁ q c' u) : Leads g owner (.write o next) c w q c' u
  | ask {r : Effect} {next : r.Reply → Prog α} {q : Prog α} {x : r.Reply} {c c' : Context}
      {w w₁ u : World}
      (answered : (g.answer owner r).run w = (.ok x, w₁))
      (later : Leads g owner (next x) c w₁ q c' u) :
      Leads g owner (.ask r next) c w q c' u
  | handle {r : Effect} {next : Except Failure r.Reply → Prog α} {q : Prog α}
      {x : Except Failure r.Reply} {c c' : Context}
      {w w₁ u : World} (answered : (attempt (g.answer owner r)).run w = (.ok x, w₁))
      (later : Leads g owner (next x) c w₁ q c' u) : Leads g owner (.handle r next) c w q c' u

/-- What is left to do at such a point ends the run. -/
theorem run_exec_of_leads {α : Type} {p q : Prog α} (h : g.Leads owner p c w q c' u) :
    (g.exec owner p (some c)).run w = (g.exec owner q (some c')).run u := by
  induction h with
  | here => rfl
  | pending _ ih => exact ih
  | write adopted _ ih =>
    rw [exec, run_bind, adopted]
    exact ih
  | ask answered _ ih | handle answered _ ih =>
    rw [exec, run_bind, answered]
    exact ih

/-- A program that comes to no write hands the pending context back. -/
theorem exec_unwritten {α : Type} {p : Prog α}
    (unwritten : ∀ o next c' u, ¬ g.Leads owner p c w (.write o next) c' u) {a : α}
    {out : Option Context} (h : (g.exec owner p (some c)).run w = (.ok (a, out), w')) :
    out = some c := by
  induction p generalizing w with
  | done b => cases h; rfl
  | fail f => cases h
  | pending next ih =>
    exact ih c (fun o next' c' u later => unwritten o next' c' u (.pending later)) h
  | write o next ih => exact absurd .here (unwritten o next c w)
  | ask r next ih =>
    rw [exec, run_bind] at h
    split at h
    · rename_i x w₁ answered
      exact ih x (fun o next' c' u later => unwritten o next' c' u (.ask answered later)) h
    · cases h
  | handle r next ih =>
    rw [exec, run_bind] at h
    split at h
    · rename_i x w₁ answered
      exact ih x (fun o next' c' u later => unwritten o next' c' u (.handle answered later)) h
    · cases h

/-- The program sends next, whether or not it goes on if that fails. -/
inductive Sends (sender : Owner) (event : Value) : Prog Object → Prop
  | ask (next : Unit → Prog Object) : Sends sender event (.ask (.send sender event) next)
  | handle (next : Except Failure Unit → Prog Object) :
      Sends sender event (.handle (.send sender event) next)

/-- What an action is called with. -/
def actionArguments (owner : Owner) (e : Event) (c : Context) : List Object :=
  [.held c, .fresh e.toValue, .fresh (.actionAccess owner)]

/-- Running the actions comes to a point where the program is left to do of one of them. -/
def ComesTo (book : Book) (fuel : Nat) (owner : Owner) (e : Event) (actions : List Value)
    (c : Context) (w : World) (q : Prog Object) (c' : Context) (u : World) : Prop :=
  ∃ before f after c₁ w₁, actions = before ++ f :: after ∧
    ((ofBook book (fuel + 1)).runActions owner before c e).run w = (.ok c₁, w₁) ∧
    (ofBook book fuel).Leads owner (book f (actionArguments owner e c₁)) c₁
      (w₁.noted (.called owner .action f (actionArguments owner e c₁))) q c' u

theorem runActions_cons (owner : Owner) (f : Value) (rest : List Value) (c : Context) (e : Event) :
    g.runActions owner (f :: rest) c e = g.runAction owner e c f >>= fun c =>
      g.runActions owner rest c e := rfl

theorem run_runAction (owner : Owner) (e : Event) (c : Context) (f : Value) (w : World) :
    ((ofBook book (fuel + 1)).runAction owner e c f).run w =
      match ((ofBook book fuel).exec owner (book f (actionArguments owner e c)) (some c)).run
        (w.noted (.called owner .action f (actionArguments owner e c))) with
      | (.ok a, w') => (.ok (a.2.getD c), w')
      | (.error h, w') => (.error h, w') := by
  have stages : (ofBook book (fuel + 1)).runAction owner e c f = (do
      note (.called owner .action f (actionArguments owner e c))
      let a ← (ofBook book fuel).exec owner (book f (actionArguments owner e c)) (some c)
      pure (a.2.getD c)) := rfl
  rw [stages, run_bind, run_note]
  dsimp only
  rw [run_bind]
  rcases ((ofBook book fuel).exec owner (book f (actionArguments owner e c)) (some c)).run
    (w.noted (.called owner .action f (actionArguments owner e c))) with ⟨h | a, w'⟩ <;> rfl

/-! ### Lists of actions -/

/-- Unless one of the actions comes to a write, the context is the very same at the end. -/
theorem runActions_unwritten
    (unwritten : ∀ o next c' u, ¬ ComesTo book fuel owner e actions c w (.write o next) c' u)
    (h : ((ofBook book (fuel + 1)).runActions owner actions c e).run w = (.ok c', w')) :
    c' = c := by
  induction actions generalizing w with
  | nil => cases h; rfl
  | cons f rest ih =>
    rw [runActions_cons, run_bind] at h
    split at h
    · rename_i c₁ w₁ ran
      have kept : c₁ = c := by
        rw [run_runAction] at ran
        split at ran
        · rename_i a v executed
          have held :=
            exec_unwritten
              (fun o next c' u leads => unwritten o next c' u ⟨[], f, rest, c, w, rfl, rfl, leads⟩)
                executed
          cases ran
          rw [held]
          rfl
        · cases ran
      subst kept
      refine ih (fun o next c' u comes => ?_) h
      obtain ⟨before, f', after, c₂, w₂, rfl, first, leads⟩ := comes
      refine unwritten o next c' u ⟨f :: before, f', after, c₂, w₂, rfl, ?_, leads⟩
      rw [runActions_cons, run_bind, ran]
      exact first
    · cases h

/-- The actions fail if one of them does, and in no other case; those after it are not run. -/
theorem runActions_error_iff {h : Halt} : (g.runActions owner actions c e).run w = (.error h, w') ↔
    ∃ before f after c₁ w₁, actions = before ++ f :: after ∧ (g.runActions owner before c e).run w =
      (.ok c₁, w₁) ∧
      (g.runAction owner e c₁ f).run w₁ = (.error h, w') := by
  constructor
  · intro failed
    induction actions generalizing c w with
    | nil => cases failed
    | cons f rest ih =>
      rw [runActions_cons, run_bind] at failed
      split at failed
      · rename_i c₁ w₁ ran
        obtain ⟨before, f', after, c₂, w₂, rfl, first, raised⟩ := ih failed
        refine ⟨f :: before, f', after, c₂, w₂, rfl, ?_, raised⟩
        rw [runActions_cons, run_bind, ran]
        exact first
      · rename_i raised
        cases failed
        exact ⟨[], f, rest, c, w, rfl, rfl, raised⟩
  · rintro ⟨before, f, after, c₁, w₁, rfl, first, raised⟩
    rw [runActions_append, run_bind, first]
    dsimp only
    rw [runActions_cons, run_bind, raised]

/-- What an action has sent stays sent, however the actions end. -/
theorem runActions_sent {sender : Owner} {event : Value}
    {q : Prog Object} (sends : Sends sender event q)
    (comes : ComesTo book fuel owner e actions c w q c' u) :
    (((ofBook book fuel).sendFor sender event).run u).2.Retains
      (((ofBook book (fuel + 1)).runActions owner actions c e).run w).2 := by
  obtain ⟨before, f, after, c₁, w₁, rfl, first, leads⟩ := comes
  rw [runActions_append, run_bind, first]
  dsimp only
  rw [runActions_cons]
  refine retains_bind ?_ fun c₂ v => retains_runActions book (fuel + 1) owner after c₂ e v
  have sent : (((ofBook book fuel).sendFor sender event).run u).2.Retains
      (((ofBook book fuel).exec owner q (some c')).run u).2 := by
    cases sends with
    | ask next =>
      exact retains_bind (.refl _) fun x v => retains_exec book fuel owner (next x) (some c') v
    | handle next =>
      exact retains_bind (retains_attempt (.refl _)) fun x v =>
        retains_exec book fuel owner (next x) (some c') v
  rw [run_runAction, run_exec_of_leads leads]
  generalize ((ofBook book fuel).exec owner q (some c')).run u = out at sent
  obtain ⟨h | a, v⟩ := out <;> exact sent

/-- On the bench, what is sent is put into the tray. -/
theorem runActions_tray {event : Value} {q : Prog Object} (sends : Sends .bench event q)
    (comes : ComesTo book fuel owner e actions c w q c' u) :
    u.tray ++ [event] <+: (((ofBook book (fuel + 1)).runActions owner actions c e).run w).2.tray :=
  (runActions_sent sends comes).tray

/-! ### Assigning actions -/

/-- What an assigning action does: it calls its updater with the pending context and the event,
and takes what that returns for the context, whatever it is. -/
def assigned (g : Engine) (owner : Owner) (e : Event) (o : Origin) (updater : Value) (c : Context) :
    Run Context := do
  note (.called owner .action (.assign o updater) (actionArguments owner e c))
  let result ← g.invoke owner .nested updater [.held c, .fresh e.toValue]
  adopt owner result

theorem runAction_assign (codes : Codes) (fuel : Nat) (owner : Owner) (e : Event) (o : Origin)
    (updater : Value) (c : Context) :
    (ofBook (.ofCodes codes) (fuel + 1)).runAction owner e c (.assign o updater) =
      (ofBook (.ofCodes codes) fuel).assigned owner e o updater c := by
  have called : (ofBook (.ofCodes codes) (fuel + 1)).call owner (.assign o updater)
      (actionArguments owner e c) (some c) = (do
      let result ← (ofBook (.ofCodes codes) fuel).invoke owner .nested updater
        [.held c, .fresh e.toValue]
      let c' ← adopt owner result
      pure (.fresh .null, some c')) := rfl
  unfold runAction assigned
  change (note _ >>= fun _ =>
    (ofBook (.ofCodes codes) (fuel + 1)).call owner _ (actionArguments owner e c) _ >>= _) = _
  rw [called]
  simp only [bind_assoc, pure_bind, Option.getD_some, bind_pure]
  rfl

/-- The value of the context that an assigning action leaves is what its updater returned. -/
theorem assigned_value {o : Origin} {updater : Value}
    (h : (g.assigned owner e o updater c).run w = (.ok c', w')) :
    ∃ result w₁ w₂, (g.invoke owner .nested updater [.held c, .fresh e.toValue]).run w₁ =
      (.ok result, w₂) ∧
      c'.value = result.value := by
  unfold assigned at h
  rw [run_bind, run_note] at h
  dsimp only at h
  rw [run_bind] at h
  split at h
  · rename_i result w₂ returned
    refine ⟨result, _, w₂, returned, ?_⟩
    unfold adopt at h
    rw [run_bind] at h
    split at h <;> cases h
    rfl
  · cases h

/-- What running actions does, with a book and the fuel that they have, for an owner, an event
and a pending context. -/
structure Accumulates (book : Book) (fuel : Nat) (owner : Owner) (e : Event)
    (c : Context) : Prop where
  /-- Two lists are run like one: with the same outcome, the same events sent, and whatever else
  is done. -/
  composed : ∀ xs ys, (ofBook book (fuel + 1)).runActions owner (xs ++ ys) c e = (do
    let c₁ ← (ofBook book (fuel + 1)).runActions owner xs c e
    (ofBook book (fuel + 1)).runActions owner ys c₁ e)
  /-- Two assigning actions are two calls of updaters, the second on what the first returned. -/
  assigned : ∀ o f o' f',
      (ofBook book (fuel + 1)).runActions owner [.assign o f, .assign o' f'] c e = (do
    let c₁ ← (ofBook book fuel).assigned owner e o f c
    (ofBook book fuel).assigned owner e o' f' c₁)
  /-- What the second updater returns is the value of the context, callable or not. -/
  returned : ∀ o f o' f' w c₂ w',
    ((ofBook book (fuel + 1)).runActions owner [.assign o f, .assign o' f'] c e).run w =
      (.ok c₂, w') →
    ∃ r r' c₁ v₁ v₂ v₃ v₄,
      ((ofBook book fuel).invoke owner .nested f [.held c, .fresh e.toValue]).run v₁ = (.ok r, v₂) ∧
      c₁.value = r.value ∧
      ((ofBook book fuel).invoke owner .nested f' [.held c₁, .fresh e.toValue]).run v₃ =
        (.ok r', v₄) ∧ c₂.value = r'.value
  /-- If none of the actions comes to a write, the context is the very same. -/
  untouched : ∀ actions w,
    (∀ o next c' u, ¬ ComesTo book fuel owner e actions c w (.write o next) c' u) → ∀ c' w',
    ((ofBook book (fuel + 1)).runActions owner actions c e).run w = (.ok c', w') → c' = c
  /-- If one of them fails, so do all, with no context; those after it are not run. -/
  failed : ∀ actions w h w', ((ofBook book (fuel + 1)).runActions owner actions c e).run w =
    (.error h, w') ↔
    ∃ before f after c₁ w₁, actions = before ++ f :: after ∧
      ((ofBook book (fuel + 1)).runActions owner before c e).run w = (.ok c₁, w₁) ∧
      ((ofBook book (fuel + 1)).runAction owner e c₁ f).run w₁ = (.error h, w')
  /-- However they end, what one of them came to send was sent then, and all that it did is still
  there. -/
  sent : ∀ actions w sender event q c' u, Sends sender event q →
    ComesTo book fuel owner e actions c w q c' u →
    (((ofBook book fuel).sendFor sender event).run u).2.Retains
      (((ofBook book (fuel + 1)).runActions owner actions c e).run w).2
  /-- On the bench it is in the tray. -/
  tray : ∀ actions w event q c' u, Sends .bench event q →
    ComesTo book fuel owner e actions c w q c' u →
    u.tray ++ [event] <+: (((ofBook book (fuel + 1)).runActions owner actions c e).run w).2.tray

/-- **What a list of actions does**, whatever they are, is composed of what each does, and
commits all or nothing. -/
theorem actions_accumulate (codes : Codes) (fuel : Nat) (owner : Owner) (e : Event) (c : Context) :
    Accumulates (.ofCodes codes) fuel owner e c := by
  have assigned (o : Origin) (f : Value) (o' : Origin) (f' : Value) :
      (ofBook (.ofCodes codes) (fuel + 1)).runActions owner [.assign o f, .assign o' f'] c e = (do
        let c₁ ← (ofBook (.ofCodes codes) fuel).assigned owner e o f c
        (ofBook (.ofCodes codes) fuel).assigned owner e o' f' c₁) := by
    rw [runActions_cons, runAction_assign]
    refine bind_congr fun c₁ => ?_
    rw [runActions_cons, runAction_assign]
    exact bind_pure _
  refine ⟨fun xs ys => runActions_append _ owner xs ys c e, assigned, ?_, fun _ _ unwritten _ _ =>
    runActions_unwritten unwritten,
    fun _ _ _ _ => runActions_error_iff, fun _ _ _ _ _ _ _ =>
      runActions_sent, fun _ _ _ _ _ _ => runActions_tray⟩
  intro o f o' f' w c₂ w' ran
  rw [assigned, run_bind] at ran
  split at ran
  · rename_i c₁ w₁ first
    obtain ⟨r, v₁, v₂, returned, value⟩ := assigned_value first
    obtain ⟨r', v₃, v₄, returned', value'⟩ := assigned_value ran
    exact ⟨r, r', c₁, v₁, v₂, v₃, v₄, returned, value, returned', value'⟩
  · cases ran

end Engine

/-! ### A ledger -/

namespace Ledger

/-- The first action pays: it sends and writes.  The second looks at the context, the third
fails.  The fourth callable is an updater that returns a callable. -/
def codes : Codes
  | .host 0, _, _ => .ask (.send .bench (.str "PAID")) fun _ =>
    .write (.fresh (.int 5)) (.done (.fresh .null))
  | .host 1, _, _ => .pending fun c => .done (.held c)
  | .host 2, _, _ => .fail (.raised .value "overdrawn")
  | .host 3, _, _ => .done (.fresh (.function .own none (.host 1) []))
  | _, _, args => .done (args.headD (.fresh .null))

def callable (n : Nat) : Value := .function .own none (.host n) []

def balance : Context := ⟨7, .int 0⟩

def outcome : List Value → World → Except Halt Context × World := fun actions w =>
  ((Engine.ofBook (.ofCodes codes) 2).runActions .bench actions balance .init).run w

/-- Neither of two actions that look at the context comes to a write. -/
theorem unwritten (o : Object) (next : Prog Object) (c : Context) (u : World) :
    ¬ Engine.ComesTo (.ofCodes codes) 1 .bench .init [callable 1, callable 1] balance (.start false)
      (.write o next) c u := by
  rintro ⟨before, f, after, c₁, w₁, split, -, leads⟩
  have looks : f = callable 1 := by
    have mem : f ∈ [callable 1, callable 1] :=
      split ▸ List.mem_append_right before List.mem_cons_self
    simpa using mem
  subst looks
  have program : Book.ofCodes codes (callable 1) (Engine.actionArguments .bench .init c₁) =
    .pending fun c => .done (.held c) := rfl
  rw [program] at leads
  cases leads with
  | pending later => cases later

/-- Two updaters of which the first returns a callable, which is no updater for that; actions
that only look; and a payment before a failure. -/
theorem outcomes_accumulated :
    (∃ c w first second v v',
      outcome [.assign .own (callable 3), .assign .own (callable 4)] (.start false) = (.ok c, w) ∧
      ((Engine.ofBook (.ofCodes codes) 1).invoke .bench .nested (callable 4)
        [.held first, .fresh Event.init.toValue]).run v =
        (.ok second, v') ∧ c.value = second.value ∧ c.value.isCallable = true) ∧
    (∃ w, outcome [callable 1, callable 1] (.start false) = (.ok balance, w)) ∧
    ∃ h w, outcome [callable 0, callable 2, callable 1] (.start false) = (.error h, w) ∧
    [.str "PAID"] <+: w.tray := by
  have accumulates := Engine.actions_accumulate codes 1 .bench .init balance
  refine ⟨?_, ?_, ?_⟩
  · obtain ⟨c, w, assigned, callable⟩ :
      ∃ c w, outcome [.assign .own (callable 3), .assign .own (callable 4)] (.start false) =
      (.ok c, w) ∧ c.value.isCallable = true := ⟨_, _, rfl, rfl⟩
    obtain ⟨-, second, first, -, -, v, v', -, -, returned, value⟩ :=
      accumulates.returned _ _ _ _ _ c w assigned
    exact ⟨c, w, first, second, v, v', assigned, returned, value, callable⟩
  · obtain ⟨c, w, looked⟩ : ∃ c w, outcome [callable 1, callable 1] (.start false) = (.ok c, w) :=
      ⟨_, _, rfl⟩
    obtain rfl := accumulates.untouched _ _ unwritten c w looked
    exact ⟨w, looked⟩
  · obtain ⟨h, w, failed⟩ : ∃ h w, outcome [callable 0, callable 2, callable 1] (.start false) =
      (.error h, w) := ⟨_, _, rfl⟩
    have paid := accumulates.tray [callable 0, callable 2, callable 1] (.start false)
      (.str "PAID") _ _ _ (.ask _) ⟨[], callable 0, _, balance, .start false, rfl, rfl, .here⟩
    exact ⟨h, w, failed, (congrArg (fun out => out.2.tray) failed) ▸ paid⟩

end Ledger
end FlatMachine
