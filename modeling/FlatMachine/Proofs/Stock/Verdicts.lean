import FlatMachine.Proofs.Invocation.Cancel
import FlatMachine.Proofs.Service.AwaitableOrigin
import FlatMachine.Proofs.Service.Delivery
import FlatMachine.Proofs.Service.Order
import FlatMachine.Proofs.Stock.Edits
import FlatMachine.Proofs.Stock.FailingActions
import FlatMachine.Proofs.Stock.Submission

/-! # What a form says

In every history, as long as no hook is in the way: the values of a form are the initial ones
with the edits made since, wherever it was when they came in, and a change without a name or a
value is refused (**`World.form_edits_kept`**).  What its states say is so: where values were
refused, the messages are those of the values that are there, and what the context holds after a
submission is the settlement of the awaitable that the latest one returned
(**`World.form_states_meant`**). -/

namespace FlatMachine

open Stock

namespace Form

/-- A change that lacks its name or its value cannot be read. -/
theorem changeOf_of_lacking {e : Event}
    (h : e.payload.get? "name" = none ∨ e.payload.get? "value" = none) :
    ∃ key, changeOf e = .error (.missingKey key) := by
  unfold changeOf
  rw [Event.getItem_str e (by decide), Event.getItem_str e (by decide)]
  cases name : e.payload.get? "name" with
  | none => exact ⟨_, rfl⟩
  | some name' =>
    rw [h.resolve_left fun none => nomatch name.symm.trans none]
    exact ⟨_, rfl⟩

/-- Values that do not pass have a message that counts as true. -/
theorem Record.counts_of_refused {check : Value → Value.Entries} {r : Record}
    (h : r.passes check = false) :
    ∃ message ∈ check (.map r.values), message.2.truth = true := by
  have found : ((check (.map r.values)).map Prod.snd).any Value.truth = true := by
    unfold passes at h
    exact Bool.not_eq_eq_eq_not.mp h
  rw [List.any_map] at found
  exact List.any_eq_true.mp found

section Edits

variable {edits : List (Value × Value)}

theorem hasKey_touchedBy {edit : Value × Value} (h : edit ∈ edits) :
    Value.hasKey edit.1 (touchedBy edits) = true := by
  induction edits with
  | nil => cases h
  | cons latest earlier ih =>
    rcases List.mem_cons.mp h with rfl | h
    · exact Value.hasKey_insert_self ..
    · exact Value.hasKey_insert (ih h)

/-- What is touched was edited, and has a value. -/
theorem edited_of_touched {values : Value.Entries} {q : Value × Value} (h : q ∈ touchedBy edits) :
    q.2 = .bool true ∧ (∃ v, (q.1, v) ∈ edits) ∧
    Value.hasKey q.1 (withEdits edits values) = true := by
  induction edits generalizing q with
  | nil => cases h
  | cons latest earlier ih =>
    have before {k w : Value} (h : (k, w) ∈ touchedBy earlier) : (∃ v, (k, v) ∈ latest :: earlier) ∧
        Value.hasKey k (withEdits (latest :: earlier) values) = true := by
      obtain ⟨-, ⟨v, edited⟩, valued⟩ := ih h
      exact ⟨⟨v, List.mem_cons_of_mem _ edited⟩, Value.hasKey_insert valued⟩
    rcases Value.mem_insert h with h | ⟨value, key | ⟨w, h⟩⟩
    · exact ⟨(ih h).1, before h⟩
    · rw [key]
      exact ⟨value, ⟨latest.2, List.mem_cons_self⟩, Value.hasKey_insert_self ..⟩
    · exact ⟨value, before h⟩

end Edits

/-- The values that were submitted last were as they had been edited by then.  The submission
returned the awaitable, for which the invocation waited, and which is settled like this. -/
def Answered (d : Design) (w : World) (i : Nat) (journal : List Entry) (a : AwaitableId)
    (settlement : Settlement) : Prop :=
  ∃ earlier, w.LatestResult d.book i journal earlier d.submit
    (.map (withEdits (edits (story i earlier)) d.values)) a settlement

/-- Processing the event there raises a `KeyError`, unless a hook or want of fuel is in the way,
and leaves the state, the context, the slot and the snapshot as they are. -/
def Refuses (g : Engine) (i : Nat) (e : Event) (p : Point) (s : Service) : Prop :=
  ∀ v : World, v.now = p → ∃ halt w s', (g.process i (.event e)).run v = (.error halt, w) ∧
    ((∃ key, halt = .raised (.missingKey key)) ∨ Spoils i halt w.journal) ∧
    w.services[i]? = some s' ∧
    s'.stateName = s.stateName ∧ s'.context = s.context ∧ s'.slot = s.slot ∧
    s'.snapshot = s.snapshot

end Form

namespace World

open Form Run

variable {d : Design} {m : Machine} {fuel : Nat} {looping : Bool} {history : List Command} {i : Nat}
  {p : Point} {s : Service}

/-- When nobody drains it, a form that did anything, and whose drains were not spoiled, is at a
spot where its record agrees with its story. -/
theorem filed_of_passed (valid : d.Validates)
    (plain : ∀ override, .start i override ∈ history → override = .null)
    (hp : p ∈ ((World.start looping).after (.ofBook d.book fuel) history).passed)
    (hs : p.services[i]? = some s) (form : s.machine = d.chart.machine)
    (idle : s.queue.draining = false) (unspoiled : ¬ Spoiled i p.journal) :
    (∀ e ∈ p.journal, e.deed? ≠ some i) ∨ ∃ x, Sound d x ∧ d.chart.Shown i x s p.journal := by
  rcases Chart.held_of_passed d.keeps_sound (Design.performs_chart valid) fuel looping history plain
      hp hs idle with
    silent | (other | ⟨-, spoiled⟩) | ⟨x, sound, -, shown, -⟩
  · exact Or.inl silent
  · exact absurd form other
  · exact absurd spoiled unspoiled
  · exact Or.inr ⟨x, sound, shown⟩

/-- A change that cannot be read is refused: its failure is raised, and the form is as it was. -/
theorem form_refuses (valid : d.Validates)
    (plain : ∀ override, .start i override ∈ history → override = .null)
    (hp : p ∈ ((World.start looping).after (.ofBook d.book fuel) history).points)
    (hs : p.services[i]? = some s) (form : s.machine = d.chart.machine) {e : Event}
    (head : p.journal.head? = some (.taken i (.event e))) (change : e.type = "CHANGE")
    {failure : Failure} (unread : changeOf e = .error failure) (n : Nat) {v : World}
    (now : v.now = p) :
    ∃ halt w', ((Engine.ofBook d.book n).process i (.event e)).run v = (.error halt, w') ∧
      (halt = .raised failure ∨ Spoils i halt w'.journal) ∧ w'.Still i s := by
  subst now
  obtain ⟨x, shown, slot⟩ :=
    Chart.spot_of_taken (Design.performs_chart valid) fuel looping history plain
    (List.mem_cons_of_mem _ hp) hs form head
  obtain ⟨place, there⟩ := shown.placed
  obtain ⟨target, offers, stays⟩ := Design.offers_change there
  have busy : s.Busy := by
    obtain ⟨later, earlier, split⟩ := List.append_of_mem hp
    obtain ⟨u, s', next, now, -⟩ := next_of_taken ⟨later, split.symm⟩ head
    rw [now] at hs
    cases hs.symm.trans (taken_self (.event e) next.service)
    exact next.busy.alike rfl (Queue.draining_dequeue _)
  -- Only while values are being submitted is there something in the slot, and there the edge stays.
  have vacant (leaves : (editing target).stays x.name = false) : s.slot = .empty := by
    refine slot.resolve_right fun ⟨_, _, _, place', here, tasked⟩ => ?_
    obtain ⟨task, awaits⟩ := Option.isSome_iff_exists.mp tasked
    rw [stays (Design.submitting_of_task here awaits).1] at leaves
    cases leaves
  have fails :
      codesOf d.host (.form .change) [] [.held s.context, .fresh e.toValue] = .fail failure := by
    have program : codesOf d.host (.form .change) [] [.held s.context, .fresh e.toValue] = _ :=
      Design.book_change (d := d) e shown.record
    rw [program, unread]
    rfl
  have still : v.Still i s := ⟨s, hs, busy, ⟨rfl, rfl, rfl, rfl, rfl, Or.inl rfl⟩, rfl⟩
  have offered : place.offers e.type = [editing target] := change ▸ offers
  have refused := Chart.ends_refused (Engine.sparing_ofBook d.book n) shown.machine shown.name there
    offered rfl rfl vacant (Engine.balks_updating fails n i) v still
  show ∃ halt w', ((Engine.ofBook d.book n).processEvent i e).run v = (.error halt, w') ∧ _
  generalize ((Engine.ofBook d.book n).processEvent i e).run v = out at refused
  obtain ⟨halt | u, w'⟩ := out
  · exact ⟨halt, w', rfl, refused.2, refused.1⟩
  · exact refused.elim

/-- When nobody drains a form, its values are the initial ones with the edits of all changes that
it took, and exactly the names of these are touched, so all of them have values.  A change that
lacks its name or its value is refused wherever the form is: its `KeyError` is raised, and the
state, the context, the slot and the snapshot are as they were.  This is so in every history in
which the form is started without an override, whatever its submissions come to, as long as no
hook is in the way, if its validation is a function of the values. -/
theorem form_edits_kept (valid : d.Validates)
    (made : Machine.create (config d.values d.validate d.submit d.name) .standard = .ok m)
    (plain : ∀ override, .start i override ∈ history → override = .null) :
    let w := (World.start looping).after (.ofBook d.book fuel) history
    (∀ p ∈ w.passed, ∀ s, p.services[i]? = some s → s.machine = m → s.queue.draining = false →
      .began i ∈ p.journal →
      ¬ Spoiled i p.journal → ∃ r, s.context.value = Record.shown r ∧
      r.values = withEdits (edits (story i p.journal)) d.values ∧
        (∀ edit ∈ edits (story i p.journal), Value.hasKey edit.1 r.touched = true) ∧
        ∀ q ∈ r.touched, q.2 = .bool true ∧ (∃ v, (q.1, v) ∈ edits (story i p.journal)) ∧
        Value.hasKey q.1 r.values = true) ∧
    ∀ p ∈ w.points, ∀ s e, p.services[i]? = some s → s.machine = m →
    p.journal.head? = some (.taken i (.event e)) →
      e.type = "CHANGE" → (e.payload.get? "name" = none ∨ e.payload.get? "value" = none) →
        ∀ n, Refuses (.ofBook d.book n) i e p s := by
  cases Design.machine_of_create d made
  constructor
  · intro p hp s hs form idle began unspoiled
    rcases filed_of_passed valid plain hp hs form idle unspoiled with silent | ⟨x, sound, shown⟩
    · exact absurd rfl (silent _ began)
    · obtain ⟨values, touched, -⟩ := shown.story ▸ sound.agrees
      refine ⟨x.record, shown.record, values, fun edit h => touched ▸ hasKey_touchedBy h,
        fun q h => ?_⟩
      rw [values]
      exact edited_of_touched (touched ▸ h)
  · intro p hp s e hs form head change lacking n v now
    obtain ⟨key, unread⟩ := changeOf_of_lacking lacking
    obtain ⟨halt, w', run, why, s', hs', -, same, slot⟩ :=
      form_refuses valid plain hp hs form head change unread n now
    exact ⟨halt, w', s', run, why.imp_left fun raised => ⟨key, raised⟩, hs', same.stateName,
      same.context, slot, same.snapshot⟩

/-- What a submission that is over ended with is owed to the form. -/
theorem answered_of_ended {x : Spot Record} (sound : Sound d x)
    (shown : d.chart.Shown i x s p.journal)
    (hp : p ∈ ((World.start looping).after (.ofBook d.book fuel) history).passed)
    (hs : p.services[i]? = some s) (closed : x.name = "success" ∨ x.name = "failure") : ∃ o,
      ((World.start looping).after (.ofBook d.book fuel) history).Owed i o ∧ o.cancelled = false ∧
      (x.name = "success" → o.failed = false ∧ x.record.result = o.data ∧ x.record.error = .null) ∧
      (x.name = "failure" → o.failed = true ∧ x.record.error = o.error ∧ x.record.result = .null) ∧
      ∀ {e a settlement}, ((World.start looping).after (.ofBook d.book fuel) history).Awaited
        ⟨i, o.token, e⟩ a settlement →
        Answered d ((World.start looping).after (.ofBook d.book fuel) history) i p.journal a
          settlement := by
  obtain ⟨o, f, args, taken, valid, latest, done, failed⟩ := sound.ended closed
  have came : .accepted i (.outcome o) ∈ p.journal :=
    accepted_of_taken hp hs (mem_of_story (shown.story ▸ taken))
  have owed := outcome_awaited _ fuel looping history i o ((journal_of_passed hp).subset came)
  rw [← shown.story] at latest
  obtain ⟨earlier, called⟩ := called_of_latestCall latest
  have submitted := sound.agrees.calls _ f args (story i earlier)
    (shown.story ▸ story_suffix (Entry.chapter?_called i o.token f args) called)
  exact ⟨o, owed, valid, done, failed, fun awaited =>
    ⟨earlier, latestResult_of_awaited hp latest called submitted awaited⟩⟩

/-- When nobody drains a form, its state means what it says.  Where it is invalid, its messages
are what the validation says of its values, and one of them counts as true.  While values are
being submitted, it holds neither a result nor an error.  When that is over, it holds the value,
or the failure, with which the awaitable was settled that the latest submission returned, and not
the other.  The outcome of an earlier submission leaves nothing but a log record.  This is so in
every history in which the form is started without an override, as long as no hook is in the way,
if its validation is a function of the values. -/
theorem form_states_meant (valid : d.Validates)
    (made : Machine.create (config d.values d.validate d.submit d.name) .standard = .ok m)
    (plain : ∀ override, .start i override ∈ history → override = .null) :
    let w := (World.start looping).after (.ofBook d.book fuel) history
    (∀ p ∈ w.passed, ∀ s, p.services[i]? = some s → s.machine = m → s.queue.draining = false →
      ¬ Spoiled i p.journal →
      (s.stateName = .str "invalid" → ∃ r, s.context.value = Record.shown r ∧
        r.errors = d.check (.map r.values) ∧
        ∃ q ∈ r.errors, q.2.truth = true) ∧
      (s.stateName = .str "submitting" → ∃ r, s.context.value = Record.shown r ∧ r.result = .null ∧
        r.error = .null) ∧
      (s.stateName = .str "success" → ∃ a v r, s.context.value = Record.shown r ∧
        Answered d w i p.journal a (.value v) ∧ r.result = v ∧ r.error = .null) ∧
      (s.stateName = .str "failure" → ∃ a f r, s.context.value = Record.shown r ∧
        Answered d w i p.journal a (.failed f) ∧ r.error = .failure a f ∧ r.result = .null)) ∧
    ∀ p ∈ w.passed, ∀ s o, p.services[i]? = some s → s.machine = m →
    p.journal.head? = some (.taken i (.outcome o)) →
      (∀ f args, latestCall (story i p.journal) ≠ some (o.token, f, args)) →
      ∀ (g : Engine) (v : World), v.now = p →
        ∃ text, (g.process i (.outcome o)).run v = (.ok (), v.noted (.record .debug text)) := by
  cases Design.machine_of_create d made
  constructor
  · intro p hp s hs form idle unspoiled
    have filed {name : String} (named : s.stateName = .str name) (begun : name ≠ "idle") :
        ∃ x, Sound d x ∧ x.name = name ∧ d.chart.Shown i x s p.journal := by
      rcases filed_of_passed valid plain hp hs form idle unspoiled with silent | ⟨x, sound, shown⟩
      · exact absurd silent (Chart.begun_of_state (c := d.chart) hp hs form named begun)
      · exact ⟨x, sound, Value.str.inj (shown.name.symm.trans named), shown⟩
    refine ⟨fun named => ?_, fun named => ?_, fun named => ?_, fun named => ?_⟩
    · obtain ⟨x, sound, there, shown⟩ := filed named (by decide)
      obtain ⟨errors, refused⟩ := sound.invalid there
      exact ⟨x.record, shown.record, errors, errors ▸ Record.counts_of_refused refused⟩
    · obtain ⟨x, sound, there, shown⟩ := filed named (by decide)
      exact ⟨x.record, shown.record, sound.submitting there⟩
    · obtain ⟨x, sound, there, shown⟩ := filed named (by decide)
      obtain ⟨o, owed, valid, done, -, answered⟩ :=
        answered_of_ended sound shown hp hs (Or.inl there)
      obtain ⟨done, result, error⟩ := done there
      obtain ⟨e, a, awaited⟩ := owed.value valid done
      exact ⟨a, o.data, x.record, shown.record, answered awaited, result, error⟩
    · obtain ⟨x, sound, there, shown⟩ := filed named (by decide)
      obtain ⟨o, owed, -, -, failed, answered⟩ := answered_of_ended sound shown hp hs (Or.inr there)
      obtain ⟨failed, error, result⟩ := failed there
      obtain ⟨e, a, f, awaited, same⟩ := owed.failure failed
      exact ⟨a, f, x.record, shown.record, answered awaited, error.trans same, result⟩
  · rintro p hp s o hs form head earlier g v rfl
    obtain ⟨x, shown, slot⟩ :=
      Chart.spot_of_taken (Design.performs_chart valid) fuel looping history plain hp hs form head
    have inactive : s.slot.isActive o.token = false := by
      rcases slot with empty | ⟨t, token, calling, -⟩
      · rw [empty]
        rfl
      · obtain ⟨-, f, args, -, -, latest⟩ := since_calling calling
        refine Bool.eq_false_iff.mpr fun active => earlier f args ?_
        rw [shown.story, latest, Option.some.inj (token.symm.trans (Slot.isActive_iff.mp active))]
    exact ⟨_, Engine.run_settle_stale hs inactive⟩

end World

/-! ### A draft that is filled in

The address is changed before it is submitted, and again while that is done once more; then a
change comes in without a value. -/

namespace Draft

def worldOf (life : List Command) : World :=
  (World.start true).after (.ofBook design.book 4) (birth ++ life)

/-- The first submission fails. -/
def failing : List Command :=
  [.start 0 .null, .send 0 (change "x@y.z"), .send 0 (.str "SUBMIT"),
    .settle 0 (.failed .noLoop), .turn]

/-- The submission that fails is made again after a change, and succeeds. -/
def again : List Command :=
  failing ++ [.send 0 (.str "RETRY"), .send 0 (change "d@e.f"),
    .settle 1 (.value (.str "sent")), .turn]

/-- A change that lacks its value. -/
def lacking : Command := .send 0 (Stock.mapping [("type", .str "CHANGE"), ("name", .str "email")])

theorem machine_of_life {life : List Command} {s : Service}
    (hs : (worldOf life).services[0]? = some s) :
    s.machine = design.machine := World.machine_of_born born hs

/-- The form is in that state, at rest, and took that many changes that could be read; no drain
was halted. -/
def Stands (w : World) (name : String) (edits : Nat) : Bool :=
  w.services[0]?.any (fun s => s.stateName.same (.str name) && !s.queue.draining) &&
    w.journal.any (fun | .began 0 => true | _ => false) && w.journal.all (fun e => !e.isHalt) &&
      (Form.edits (story 0 w.journal)).length == edits

theorem of_stands {w : World} {name : String} {edits : Nat} (h : Stands w name edits = true) :
    ∃ s, w.services[0]? = some s ∧ s.stateName = .str name ∧ s.queue.draining = false ∧
    .began 0 ∈ w.journal ∧
      ¬ Spoiled 0 w.journal ∧ (Form.edits (story 0 w.journal)).length = edits := by
  obtain ⟨h, edited⟩ := Bool.and_eq_true_iff.mp h
  obtain ⟨h, unhalted⟩ := Bool.and_eq_true_iff.mp h
  obtain ⟨there, began⟩ := Bool.and_eq_true_iff.mp h
  cases hs : w.services[0]? with
  | none =>
    rw [hs] at there
    cases there
  | some s =>
    rw [hs] at there
    obtain ⟨named, idle⟩ := Bool.and_eq_true_iff.mp there
    refine ⟨s, rfl, Value.eq_of_same_str named, Bool.not_eq_eq_eq_not.mp idle, ?_, ?_,
      beq_iff_eq.mp edited⟩
    · obtain ⟨e, he, is⟩ := List.any_eq_true.mp began
      split at is
      · exact he
      · cases is
    · rintro ⟨halt, earlier, ended, -⟩
      exact unhalted_of_all unhalted halt (ended.subset List.mem_cons_self)

/-- The form takes a change that lacks its value. -/
def Lacks : Point → Bool
  | ⟨services, .taken 0 (.event e) :: _⟩ =>
    services[0]?.isSome && (e.type == "CHANGE" && (e.payload.get? "value").isNone)
  | _ => false

theorem of_lacks {p : Point} (h : Lacks p = true) : ∃ s e, p.services[0]? = some s ∧
    p.journal.head? = some (.taken 0 (.event e)) ∧ e.type = "CHANGE" ∧
    e.payload.get? "value" = none := by
  unfold Lacks at h
  split at h
  · rename_i e _
    obtain ⟨there, h⟩ := Bool.and_eq_true_iff.mp h
    obtain ⟨type, lacking⟩ := Bool.and_eq_true_iff.mp h
    obtain ⟨s, hs⟩ := Option.isSome_iff_exists.mp there
    exact ⟨s, e, hs, rfl, beq_iff_eq.mp type, Option.isNone_iff_eq_none.mp lacking⟩
  · cases h

/-- Both changes of the form are in its values, and the third one, which lacks its value, is
refused. -/
theorem edits_kept_and_refused :
    (∃ s r, (worldOf again).services[0]? = some s ∧ s.machine = design.machine ∧
      s.context.value = Form.Record.shown r ∧
      (Form.edits (story 0 (worldOf again).journal)).length = 2 ∧
      r.values = Form.withEdits (Form.edits (story 0 (worldOf again).journal)) design.values) ∧
    ∃ p ∈ (worldOf (again ++ [lacking])).points, ∃ s e, p.services[0]? = some s ∧
    e.type = "CHANGE" ∧
      e.payload.get? "value" = none ∧ Form.Refuses (.ofBook design.book 4) 0 e p s := by
  -- For all lives, so that the theorem is not applied to worlds that would be computed.
  have filed (life : List Command)
      (plain : ∀ override, .start 0 override ∈ birth ++ life → override = .null) (s : Service)
      (hs : (worldOf life).services[0]? = some s) (idle : s.queue.draining = false)
      (began : .began 0 ∈ (worldOf life).journal)
      (unspoiled : ¬ Spoiled 0 (worldOf life).journal) :
      ∃ r, s.context.value = Form.Record.shown r ∧
      r.values = Form.withEdits (Form.edits (story 0 (worldOf life).journal)) design.values := by
    have now : (worldOf life).now ∈ (worldOf life).passed := List.mem_cons_self
    have form := machine_of_life hs
    unfold worldOf at now hs began unspoiled ⊢
    obtain ⟨r, shown, values, -⟩ :=
      (World.form_edits_kept (d := design) (fun v => rfl) created plain).1 _ now s hs
        form idle began
      unspoiled
    exact ⟨r, shown, values⟩
  have refused (life : List Command)
      (plain : ∀ override, .start 0 override ∈ birth ++ life → override = .null) (p : Point)
      (hp : p ∈ (worldOf life).points) (s : Service) (e : Event) (hs : p.services[0]? = some s)
      (head : p.journal.head? = some (.taken 0 (.event e))) (change : e.type = "CHANGE")
      (lacks : e.payload.get? "value" = none) :
      Form.Refuses (.ofBook design.book 4) 0 e p s := by
    obtain ⟨s', hs', same⟩ : ∃ s', (worldOf life).services[0]? = some s' ∧ s'.machine = s.machine :=
      World.machine_of_passed (List.mem_cons_of_mem _ hp) hs
    have form := same.symm.trans (machine_of_life hs')
    unfold worldOf at hp
    exact (World.form_edits_kept (d := design) (fun v => rfl) created plain).2 p hp s e hs form
      head change (Or.inr lacks) 4
  constructor
  · have stands : Stands (worldOf again) "success" 2 = true := by decide +kernel
    obtain ⟨s, hs, -, idle, began, unspoiled, edited⟩ := of_stands stands
    obtain ⟨r, shown, values⟩ :=
      filed again (by simp [birth, failing, again]) s hs idle began unspoiled
    exact ⟨s, r, hs, machine_of_life hs, shown, edited, values⟩
  · have taken : (worldOf (again ++ [lacking])).points.any Lacks = true := by decide +kernel
    obtain ⟨p, hp, lacks⟩ := List.any_eq_true.mp taken
    obtain ⟨s, e, hs, head, change, lacks⟩ := of_lacks lacks
    exact ⟨p, hp, s, e, hs, change, lacks,
      refused _ (by simp [birth, failing, again, lacking]) p hp s e hs head change lacks⟩

/-- The context holds the failure of the first submission, and then the result of the second one. -/
theorem failure_then_result_held :
    (∃ s a f r, (worldOf failing).services[0]? = some s ∧ s.machine = design.machine ∧
      s.context.value = Form.Record.shown r ∧
      Form.Answered design (worldOf failing) 0 (worldOf failing).journal a (.failed f) ∧
      r.error = .failure a f ∧
      r.result = .null) ∧
    ∃ s a v r, (worldOf again).services[0]? = some s ∧ s.machine = design.machine ∧
    s.context.value = Form.Record.shown r ∧
      Form.Answered design (worldOf again) 0 (worldOf again).journal a (.value v) ∧ r.result = v ∧
      r.error = .null := by
  have meant (life : List Command)
      (plain : ∀ override, .start 0 override ∈ birth ++ life → override = .null) (s : Service)
      (hs : (worldOf life).services[0]? = some s) (idle : s.queue.draining = false)
      (unspoiled : ¬ Spoiled 0 (worldOf life).journal) :
      (s.stateName = .str "success" → ∃ a v r, s.context.value = Form.Record.shown r ∧
        Form.Answered design (worldOf life) 0 (worldOf life).journal a (.value v) ∧ r.result = v ∧
        r.error = .null) ∧
      (s.stateName = .str "failure" → ∃ a f r, s.context.value = Form.Record.shown r ∧
        Form.Answered design (worldOf life) 0 (worldOf life).journal a (.failed f) ∧
        r.error = .failure a f ∧
        r.result = .null) := by
    have now : (worldOf life).now ∈ (worldOf life).passed := List.mem_cons_self
    have form := machine_of_life hs
    unfold worldOf at now hs unspoiled ⊢
    obtain ⟨-, -, done, failed⟩ :=
      (World.form_states_meant (d := design) (fun v => rfl) created plain).1 _ now s hs form idle
      unspoiled
    exact ⟨done, failed⟩
  constructor
  · have stands : Stands (worldOf failing) "failure" 1 = true := by decide +kernel
    obtain ⟨s, hs, named, idle, -, unspoiled, -⟩ := of_stands stands
    obtain ⟨a, f, r, rest⟩ := (meant failing (by simp [birth, failing]) s hs idle unspoiled).2 named
    exact ⟨s, a, f, r, hs, machine_of_life hs, rest⟩
  · have stands : Stands (worldOf again) "success" 2 = true := by decide +kernel
    obtain ⟨s, hs, named, idle, -, unspoiled, -⟩ := of_stands stands
    obtain ⟨a, v, r, rest⟩ :=
      (meant again (by simp [birth, failing, again]) s hs idle unspoiled).1 named
    exact ⟨s, a, v, r, hs, machine_of_life hs, rest⟩

end Draft
end FlatMachine
