import FlatMachine.Proofs.Service.AmongOthers
import FlatMachine.Proofs.World.Meets

/-! # The turns of a service

The event loop gives turns to all services.  One that is alone takes the turns that it takes
among others, in the same order: a turn of its own is taken in both worlds
(**`World.Accords.ownTurn`**), and one of another service in the first only
(**`World.Accords.otherTurn`**).  So the service is left with the same when the loop has run
until it is idle (**`World.Accords.flush`**).  No turn fails, but the fuel may be used up
(**`Engine.ends_takeTurn`**). -/

namespace FlatMachine

open Run

variable {G : Ground} {book : Book} {i k : Nat} {w v : World}

namespace Engine

/-- What ends a turn is want of fuel, and no failure. -/
theorem ends_takeTurn (g : Engine) :
    Ends (fun _ => True) g.takeTurn (fun _ _ => True) fun halt _ => halt = .exhausted := by
  have settles (a : AwaitableId) (settlement : Settlement) :
      Ends (fun _ => True) (discard (settleAwaitable a settlement))
        (fun _ _ => True) fun halt _ => halt = .exhausted := by
    refine .discard fun w _ => ?_
    unfold settleAwaitable
    rw [run_bind, run_get]
    dsimp only
    generalize w.awaitables.lookup a = found
    obtain _ | _ | ⟨_ | _, _⟩ := found <;> trivial
  refine .bind (Q := fun _ _ => True) ?_ fun r => ?_
  · intro w _
    unfold takeReady
    rw [run_bind, run_get]
    dsimp only
    cases w.ready <;> trivial
  · cases r with
    | none => exact .pure fun _ => id
    | some r =>
      refine .bind (Q := fun _ _ => True) ?_ fun _ => .pure fun _ => id
      have any {α : Type} (x : Run α) : Ends (fun _ => True) x (fun _ _ => True) fun _ _ => True :=
        Meets.any
      obtain ⟨a, _ | pauses, body, args⟩ | ⟨waiter, a⟩ := r
      · refine .bind (Q := fun _ _ => True) (.tryCatch (any _) fun halt => ?_) fun settlement =>
          settles a settlement
        cases halt with
        | raised f => exact .pure fun _ => id
        | exhausted => exact .throw fun _ _ => rfl
      · exact fun _ => id
      · refine .bind (Q := fun _ _ => True) (fun _ => id) fun u => ?_
        split
        · refine .tryCatch (any _) fun halt => ?_
          cases halt with
          | raised f => exact .note fun _ => id
          | exhausted => exact .throw fun _ _ => rfl
        · exact .pure fun _ => id

end Engine

theorem Run.run_onLoop {α : Type} (body : Run α) (w : World) : (onLoop body).run w =
    match body.run { w with looping := true } with
    | (.ok a, w') => (.ok a, { w' with looping := w.looping })
    | (.error halt, w') => (.error halt, w') := by
  unfold onLoop
  rw [run_bind, run_get]
  dsimp only
  rw [run_bind]
  show ExceptT.run (body >>= fun a => _) { w with looping := true } = _
  rw [run_bind]
  generalize body.run { w with looping := true } = out
  obtain ⟨halt | a, w'⟩ := out <;> rfl

theorem Run.run_takeTurn {g : Engine} {r : Ready} {rest : List Ready} (hw : w.ready = r :: rest) :
    g.takeTurn.run w = (do g.turn r; return true).run { w with ready := rest } := by
  unfold Engine.takeTurn takeReady
  rw [run_bind, run_bind, run_get]
  dsimp only
  rw [hw]
  rfl

theorem Run.run_takeTurn_idle {g : Engine} (hw : w.ready = []) :
    g.takeTurn.run w = (.ok false, w) := by
  unfold Engine.takeTurn takeReady
  rw [run_bind, run_bind, run_get]
  dsimp only
  rw [hw]
  rfl

/-- Where something waits, there is a turn. -/
theorem Run.more_takeTurn {g : Engine} {r : Ready} {rest : List Ready} {w' : World} {more : Bool}
    (hw : w.ready = r :: rest) (run : g.takeTurn.run w = (.ok more, w')) : more = true := by
  rw [run_takeTurn hw, run_bind] at run
  generalize (g.turn r).run { w with ready := rest } = out at run
  obtain ⟨halt | u, w'⟩ := out <;> cases run
  rfl

theorem Run.run_runLoop (g : Engine) (n : Nat) (w : World) : (g.runLoop (n + 1)).run w =
    match g.takeTurn.run w with
    | (.ok more, w') => (if more then g.runLoop n else Pure.pure ()).run w'
    | (.error halt, w') => (.error halt, w') := by
  show ExceptT.run (g.takeTurn >>= fun more => if more then g.runLoop n else Pure.pure ()) w = _
  rw [run_bind]
  generalize g.takeTurn.run w = out
  obtain ⟨halt | more, w'⟩ := out <;> rfl

/-- What is written in a turn is still there when the others are done. -/
theorem Engine.grows_runLoop (book : Book) (fuel n : Nat) (w : World) :
    ((ofBook book fuel).takeTurn.run w).2.journal <:+
      (((ofBook book fuel).runLoop (n + 1)).run w).2.journal := by
  refine World.Precedes.journal
    (Grows.through (x := (ofBook book fuel).takeTurn) (fun more => ?_) w)
  exact Mirrors.grows
    (.ite (fun _ => (Bond.void_open.heeds (Bond.void_open.calls book fuel)).runLoop n)
      fun _ => .pure)

namespace World.Accords

variable {fuel : Nat} {r : Ready} {rest : List Ready}

/-- A turn on behalf of the service is taken in both worlds. -/
theorem ownTurn (accords : w.Accords G i v) (hw : w.ready = r :: rest)
    (own : r.awaitable.1 = .service i)
    (kept : ¬ Strayed G book ((Engine.ofBook book fuel).takeTurn.run w).2.journal) :
    ((Engine.ofBook book fuel).takeTurn.run w).1 = ((Engine.ofBook book fuel).takeTurn.run v).1 ∧
      ((Engine.ofBook book fuel).takeTurn.run w).2.Accords G i
        ((Engine.ofBook book fuel).takeTurn.run v).2 := by
  obtain ⟨shares, loops⟩ := accords
  obtain ⟨k, hr⟩ := shares.turns r (hw ▸ List.mem_cons_self)
  obtain rfl : k = i := Owner.service.inj (hr.owner.symm.trans own)
  have hv : v.ready = r :: rest.filter fun r => decide (r.awaitable.1 = .service k) := by
    rw [shares.ready, hw]
    exact List.filter_cons_of_pos (decide_eq_true own)
  have taken : World.Accords G k { w with ready := rest }
      { v with ready := rest.filter fun r => decide (r.awaitable.1 = .service k) } :=
    ⟨{ shares with
        ready := rfl
        turns := fun r mem => shares.turns r (hw ▸ List.mem_cons_of_mem _ mem) }, loops⟩
  rw [run_takeTurn hw] at kept ⊢
  rw [run_takeTurn hv]
  exact taken.both (.bind (Bond.sharing_hosts.turn fuel hr) fun _ => .pure) kept

/-- A turn on behalf of another service is taken in the first world only. -/
theorem otherTurn (accords : w.Accords G i v) (hw : w.ready = r :: rest)
    (other : r.awaitable.1 ≠ .service i)
    (kept : ¬ Strayed G book ((Engine.ofBook book fuel).takeTurn.run w).2.journal) :
    ((Engine.ofBook book fuel).takeTurn.run w).2.Accords G i v := by
  obtain ⟨shares, loops⟩ := accords
  obtain ⟨k, hr⟩ := shares.turns r (hw ▸ List.mem_cons_self)
  have hk : k ≠ i := fun same => other (same ▸ hr.owner)
  have hv : v.ready = rest.filter fun r => decide (r.awaitable.1 = .service i) := by
    rw [shares.ready, hw, List.filter_cons_of_neg (by simpa using other)]
  have taken : World.Accords G i { w with ready := rest } v :=
    ⟨{ shares with
        ready := hv
        turns := fun r mem => shares.turns r (hw ▸ List.mem_cons_of_mem _ mem) }, loops⟩
  rw [run_takeTurn hw] at kept ⊢
  exact taken.only (.bind ((Bond.beside_hosts hk).turn fuel hr) fun _ => .pure) kept

/-- The worlds accord still when it is said in both whether the event loop runs. -/
theorem looped (accords : w.Accords G i v) (looping : Bool) :
    World.Accords G i { w with looping } { v with looping } :=
  ⟨{ accords.1 with }, rfl⟩

/-- The turns of the service, among those of all; it takes no more of them. -/
theorem runLoop (accords : w.Accords G i v) {n m : Nat} (hn : n ≤ m)
    (kept : ¬ Strayed G book (((Engine.ofBook book fuel).runLoop n).run w).2.journal)
    (enough : (((Engine.ofBook book fuel).runLoop n).run w).1 ≠ .error .exhausted) :
    ∃ w' v', ((Engine.ofBook book fuel).runLoop n).run w = (.ok (), w') ∧
      ((Engine.ofBook book fuel).runLoop m).run v = (.ok (), v') ∧ w'.Accords G i v' := by
  induction n generalizing w v m with
  | zero => exact absurd rfl enough
  | succ n ih =>
    obtain ⟨m, rfl⟩ : ∃ m', m = m' + 1 := ⟨m - 1, by omega⟩
    have hn : n ≤ m := Nat.le_of_succ_le_succ hn
    have kept' : ¬ Strayed G book ((Engine.ofBook book fuel).takeTurn.run w).2.journal :=
      fun strayed =>
        kept ((Bond.sharing G book i).grown strayed (Engine.grows_runLoop book fuel n w))
    rw [run_runLoop] at kept enough ⊢
    cases hw : w.ready with
    | nil =>
      have hv : v.ready = [] := by rw [accords.1.ready, hw]; rfl
      rw [run_runLoop, run_takeTurn_idle hw, run_takeTurn_idle hv]
      exact ⟨w, v, rfl, rfl, accords⟩
    | cons r rest =>
      have ended := (Engine.ofBook book fuel).ends_takeTurn w trivial
      cases out : (Engine.ofBook book fuel).takeTurn.run w with
      | mk result w' =>
      rw [out] at kept enough ended kept'
      obtain halt | more := result
      · exact absurd (congrArg Except.error ended) enough
      obtain rfl := more_takeTurn hw out
      by_cases own : r.awaitable.1 = .service i
      · have turned := accords.ownTurn hw own (by rw [out]; exact kept')
        rw [run_runLoop]
        cases out' : (Engine.ofBook book fuel).takeTurn.run v with
        | mk result v' =>
        rw [out, out'] at turned
        obtain ⟨rfl, turned⟩ := turned
        exact ih turned hn kept enough
      · have turned := accords.otherTurn hw own (by rw [out]; exact kept')
        rw [out] at turned
        exact ih turned (Nat.le_succ_of_le hn) kept enough

/-- The event loop runs until nothing is left to do. -/
theorem flush (accords : w.Accords G i v)
    (kept : ¬ Strayed G book ((Engine.ofBook book fuel).flush.run w).2.journal)
    (enough : ((Engine.ofBook book fuel).flush.run w).1 ≠ .error .exhausted) :
    ((Engine.ofBook book fuel).flush.run w).2.Accords G i
      (v.after (.ofBook book fuel) [.flush]) := by
  let g := Engine.ofBook book fuel
  have inside := accords.looped true
  have run (u : World) := run_onLoop (g.runLoop g.bound) u
  change ¬ Strayed G book ((onLoop (g.runLoop g.bound)).run w).2.journal at kept
  change ((onLoop (g.runLoop g.bound)).run w).1 ≠ _ at enough
  show ((onLoop (g.runLoop g.bound)).run w).2.Accords G i ((onLoop (g.runLoop g.bound)).run v).2
  have kept' : ¬ Strayed G book ((g.runLoop g.bound).run { w with looping := true }).2.journal := by
    rw [run] at kept
    generalize (g.runLoop g.bound).run { w with looping := true } = out at kept
    obtain ⟨halt | more, w'⟩ := out <;> exact kept
  have enough' : ((g.runLoop g.bound).run { w with looping := true }).1 ≠ .error .exhausted := by
    rw [run] at enough
    generalize (g.runLoop g.bound).run { w with looping := true } = out at enough
    obtain ⟨halt | more, w'⟩ := out
    · exact enough
    · exact nofun
  obtain ⟨w', v', hw, hv, turned⟩ := inside.runLoop (Nat.le_refl g.bound) kept' enough'
  rw [run, run, hw, hv]
  exact ⟨{ turned.1 with }, accords.2⟩

end World.Accords
end FlatMachine
