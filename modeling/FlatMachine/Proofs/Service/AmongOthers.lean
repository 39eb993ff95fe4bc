import FlatMachine.Proofs.Service.LocalCallbacks

/-! # A service among others and a service alone

A service that is not alone in one world and alone in another one has the same in both
(**`World.Accords`**).  It stays so as long as callbacks keep to the service that calls them.

* **`Bond.sharing`** ties the two worlds; what the service does, it does in both
  (**`World.Accords.both`**).
* **`Bond.beside`** keeps an eye on the second world while another one is at work in the first;
  what that does makes no difference (**`World.Accords.only`**). -/

namespace FlatMachine

/-- The service has the same in both worlds, and in both or in neither is an event loop running. -/
def World.Accords (G : Ground) (i : Nat) (w v : World) : Prop :=
  w.Shares G i v ∧ w.looping = v.looping

/-- What was called does not keep to the service that called it. -/
def Strayed (G : Ground) (book : Book) (journal : List Entry) : Prop :=
  ∃ k role f args, .called (.service k) role f args ∈ journal ∧ role ≠ .nested ∧
    ¬ (book f args).Within G book k (role.ends k)

theorem Strayed.rise {G : Ground} {book : Book} {e : Entry} {journal : List Entry}
    (h : Strayed G book journal) :
    Strayed G book (e :: journal) := by
  obtain ⟨k, role, f, args, mem, hr, strays⟩ := h
  exact ⟨k, role, f, args, List.mem_cons_of_mem e mem, hr, strays⟩

namespace Bond

/-- The service is not alone in the first world, and alone in the second. -/
def sharing (G : Ground) (book : Book) (i : Nat) : Bond where
  ties := World.Accords G i
  spent := Strayed G book
  rise := Strayed.rise

/-- Beside a world in which the service is alone, there is one in which it is not. -/
def beside (G : Ground) (book : Book) (i : Nat) (v : World) (looping : Bool) : Bond where
  ties w w' := w = w' ∧ w.Shares G i v ∧ w.looping = looping
  spent := Strayed G book
  rise := Strayed.rise

end Bond

open Run

variable {G : Ground} {book : Book} {i k : Nat} {w v : World}

/-- The listener of a name is found, or made as agreed. -/
theorem Ground.Names.found {name : String} {callback : Option Value} (names : G.Names w.listeners)
    (allowed : G.Allows name callback) : ∃ listeners, G.Names listeners ∧
      (listenerNamed name callback).run w = (.ok (G.listener name), { w with listeners }) := by
  unfold listenerNamed
  rw [run_bind, run_get]
  dsimp only
  cases found : w.listeners.find? (·.name = name) with
  | some listener =>
    have named : listener.name = name := by simpa using List.find?_some found
    refine ⟨w.listeners, names, ?_⟩
    rw [names.meant listener (List.mem_of_find?_eq_some found), named]
    rfl
  | none =>
    obtain rfl | known := allowed
    · refine ⟨w.listeners ++ [G.listener name],
        ⟨fun listener mem => ?_, fun name' known => ?_⟩, rfl⟩
      · obtain mem | mem := List.mem_append.mp mem
        · exact names.meant listener mem
        · rw [List.mem_singleton.mp mem]
          rfl
      · obtain ⟨listener, mem, named⟩ := names.known name' known
        exact ⟨listener, List.mem_append_left _ mem, named⟩
    · obtain ⟨listener, mem, named⟩ := names.known name known
      exact absurd named (by simpa using List.find?_eq_none.mp found listener mem)

theorem Ground.early {first later : List (Nat × Listener)} {n : Nat} {p : Nat × Listener}
    (h : first[n]? = some p) :
    (first ++ later)[n]? = some p := by
  rw [List.getElem?_append_left (List.getElem?_eq_some_iff.mp h).1, h]

namespace Bond

/-- The bond of a service among others and the same service alone hosts the service. -/
theorem sharing_hosts : (sharing G book i).Hosts G book i where
  moves := fun m tied => ⟨m.own tied.1, by rw [m.looping, m.looping, tied.2]⟩
  same := fun tied => tied.1.service
  looping := fun tied => tied.2
  awaited := fun n tied => tied.1.awaitables n
  waiters := fun tied found => tied.1.awaited _ _ _ found
  named := fun {name callback} allowed => by
    refine .ofGrows (aside_listenerNamed _ _).grows fun w v tied => ?_
    obtain ⟨listeners, names, hw⟩ := Ground.Names.found tied.1.names.1 allowed
    obtain ⟨listeners', names', hv⟩ := Ground.Names.found tied.1.names.2 allowed
    rw [hw, hv]
    exact .ok ⟨⟨{ tied.1 with names := ⟨names, names'⟩ }, tied.2⟩, rfl⟩
  early := fun early tied => by
    obtain ⟨later, hw, hv⟩ := tied.1.subscriptions
    exact ⟨hw ▸ Ground.early early, hv ▸ Ground.early early⟩
  strays := fun hr strays _ => ⟨_, _, _, _, List.mem_cons_self, hr, strays⟩

/-- The bond that keeps an eye on the world of a service alone hosts every other service. -/
theorem beside_hosts {looping : Bool} (hk : k ≠ i) :
    (beside G book i v looping).Hosts G book k where
  moves := by
    rintro m w _ move ⟨rfl, shares, loops⟩
    exact ⟨rfl, move.other hk shares, by rw [move.looping, loops]⟩
  same := by rintro w _ ⟨rfl, -⟩; rfl
  looping := by rintro w _ ⟨rfl, -⟩; rfl
  awaited := by rintro w _ n ⟨rfl, -⟩; rfl
  waiters := by
    rintro w _ n x ⟨rfl, shares, -⟩ found
    exact shares.awaited _ _ _ found
  named := fun {name callback} allowed => by
    refine .ofGrows (aside_listenerNamed _ _).grows ?_
    rintro w _ ⟨rfl, shares, loops⟩
    obtain ⟨listeners, names, hw⟩ := Ground.Names.found shares.names.1 allowed
    rw [hw]
    exact .ok ⟨⟨rfl, { shares with names := ⟨names, shares.names.2⟩ }, loops⟩, rfl⟩
  early := by
    rintro w _ n listener early ⟨rfl, shares, -⟩
    obtain ⟨later, hw, -⟩ := shares.subscriptions
    exact ⟨hw ▸ Ground.early early, hw ▸ Ground.early early⟩
  strays := fun hr strays _ => ⟨_, _, _, _, List.mem_cons_self, hr, strays⟩

end Bond

/-- What the service does, it does in both worlds. -/
theorem World.Accords.both {α : Type} {x : Run α} (accords : w.Accords G i v)
    (hx : Mirrors (Bond.sharing G book i) x) (kept : ¬ Strayed G book (x.run w).2.journal) :
    (x.run w).1 = (x.run v).1 ∧ (x.run w).2.Accords G i (x.run v).2 :=
  hx.run accords kept

/-- What another one does makes no difference. -/
theorem World.Accords.only {α : Type} {x : Run α} (accords : w.Accords G i v)
    (hx : Mirrors (Bond.beside G book i v v.looping) x)
    (kept : ¬ Strayed G book (x.run w).2.journal) :
    (x.run w).2.Accords G i v :=
  (hx.run ⟨rfl, accords⟩ kept).2.2

end FlatMachine
