import FlatMachine.Proofs.Service.Exactness

/-! # The audience of a publication

What is published is for the listeners that are registered then, for each as often as it is
registered.  Whatever they do meanwhile, they are the ones that are notified, in the order of
their registration; only the failure of one of them ends the notifications before all have their
turn, and with them the drain.

* **`Engine.Notifies`**: listeners are notified one after the other, up to the first one whose
  notification is halted.
* **`Heard`**: what was told since a mark; nothing, unless the mark is a publication, and then to
  its audience.
* **`Attended`**: between two marks in a row, all was told that was to be; and nothing is
  published, and no drain begins, before that is over.

In every history, all marks of a service that follow each other are so
(**`World.publication_attended`**).  This holds of drains that are halted as well, so it is
proved beside the pace of the service, of which nothing is known once a drain was. -/

namespace FlatMachine

/-! ### What is told of a publication -/

/-- The listeners of the service at the point, in the order of their registration. -/
def Point.audience (i : Nat) (p : Point) : List Listener := p.services[i]?.elim [] Service.listeners

/-- What halted the drain that ended at the point, if anything did. -/
def Point.halt? (p : Point) : Option Halt :=
  match p.journal.head? with
  | some (.ended _ halt) => halt
  | _ => none

/-- The listeners are notified in turn, up to the first one whose notification is halted: the
ones that are reached, and how this ends. -/
inductive Engine.Notifies (g : Engine) (i : Nat) (sn : Snapshot) :
    List Listener → World → List Listener → Except Halt Unit → World → Prop where
  | all (w : World) : Notifies g i sn [] w [] (.ok ()) w
  | next {l : Listener} {listeners reached : List Listener} {w u v : World} {r : Except Halt Unit}
      (returned : (g.notify i sn l).run w = (.ok (), u))
      (rest : Notifies g i sn listeners u reached r v) :
      Notifies g i sn (l :: listeners) w (l :: reached) r v
  | halted {l : Listener} {listeners : List Listener} {w v : World} {halt : Halt}
      (raised : (g.notify i sn l).run w = (.error halt, v)) :
      Notifies g i sn (l :: listeners) w [l] (.error halt) v

/-- What was told since a mark of the service, given the journal until now and what halted the
drain: nothing, or the notifications of a publication, which are over. -/
inductive Heard (book : Book) (i : Nat) (p : Point) (journal : List Entry) (halt : Option Halt) :
    List Entry → Prop where
  | nothing (none : p.published? i = none) : Heard book i p journal halt []
  | notices {sn : Snapshot} {n : Nat} {v v' : World} {reached : List Listener}
      {r : Except Halt Unit}
      (published : p.published? i = some sn) (here : v.now = p)
      (run : (Engine.ofBook book n).Notifies i sn (p.audience i) v reached r v')
      (past : v'.journal <:+ journal)
      (halts : ∀ h, r = .error h → halt = some h) :
      Heard book i p journal halt (reached.reverse.map (Listener.notice i sn))

/-- One mark is followed by another.  Nothing is told but of a publication, and that is over when
the other mark is left; the next thing to come after it is neither another publication nor the
beginning of a drain. -/
structure Attended (book : Book) (i : Nat) (p q : Point) : Prop where
  heard : ∃ later, q.journal = later ++ p.journal ∧
    Heard book i p q.journal q.halt? (later.filter (Entry.tells i))
  alone : p.published? i ≠ none → q.published? i = none ∧ q.journal.head? ≠ some (.began i)

section Telling

variable {book : Book} {i : Nat} {p q : Point} {told journal journal' : List Entry}
  {halt : Option Halt}

theorem Heard.mono (h : Heard book i p journal halt told) (later : journal <:+ journal') :
    Heard book i p journal' halt told := by
  cases h with
  | nothing none => exact .nothing none
  | notices published here run past halts =>
    exact .notices published here run (past.trans later) halts

/-- Where nothing was halted, it makes no difference what ends the drain. -/
theorem Heard.ended (h : Heard book i p journal none told) : Heard book i p journal halt told := by
  cases h with
  | nothing none => exact .nothing none
  | notices published here run past halts =>
    exact .notices published here run past fun h hr => nomatch halts h hr

variable {g : Engine} {sn : Snapshot} {listeners reached : List Listener} {w v : World}
  {r : Except Halt Unit}

/-- The listeners that are reached come first, and all are unless one is halted. -/
theorem Engine.Notifies.first (h : g.Notifies i sn listeners w reached r v) :
    ∃ rest, listeners = reached ++ rest ∧ (r = .ok () → rest = []) := by
  induction h with
  | all w => exact ⟨[], rfl, fun _ => rfl⟩
  | next returned _ ih =>
    obtain ⟨rest, rfl, all⟩ := ih
    exact ⟨rest, rfl, all⟩
  | halted raised => exact ⟨_, rfl, nofun⟩

/-- What was told since a mark is all that was to be told, unless a publication was cut short. -/
theorem Heard.notices_eq (h : Heard book i p journal halt told)
    (uncut : (p.published? i).isSome = true → halt.isNone = true)
    (marked : p.journal.head?.any (Entry.paces i) = true) : told = p.notices i := by
  cases h with
  | nothing none =>
    obtain ⟨e, head, paces⟩ := (Option.any_eq_true _ _).mp marked
    refine (Point.notices_of_other head ?_ paces).symm
    rwa [Point.published?, head] at none
  | @notices sn n v v' reached r published here run past halts =>
    obtain ⟨rest, audience, all⟩ := run.first
    cases r with
    | error h =>
      rw [halts h rfl, published] at uncut
      cases uncut rfl
    | ok =>
      cases all rfl
      rw [List.append_nil] at audience
      unfold Point.notices
      unfold Point.audience at audience
      rw [Point.published?_eq_some.mp published, ← audience]

end Telling

/-! ### While a drain goes on -/

/-- The last mark was left at the point, these are the notifications since, and the marks before
attended to theirs. -/
structure Listens (book : Book) (i : Nat) (p : Point) (told journal : List Entry)
    (points : List Point) : Prop where
  since : Since i p told journal points
  attended : (marks i points).IsChain fun q p => Attended book i p q
  first : ∀ p ∈ (marks i points).getLast?, p.journal.filter (Entry.tells i) = []

section Listening

variable {book : Book} {i : Nat} {p q : Point} {e : Entry} {told journal : List Entry}
  {points : List Point} {halt : Option Halt}

namespace Listens

theorem noted (h : Listens book i p told journal points) (plain : e.paces i = false)
    (head : q.journal = e :: journal) :
    Listens book i p ([e].filter (Entry.tells i) ++ told) (e :: journal) (q :: points) := by
  have unmarked : marks i (q :: points) = marks i points := by
    rw [marks_cons head, plain]
    rfl
  exact ⟨h.since.noted plain head, unmarked ▸ h.attended, unmarked ▸ h.first⟩

theorem silent (h : Listens book i p told journal points) (plain : e.paces i = false)
    (untold : e.tells i = false) (head : q.journal = e :: journal) :
    Listens book i p told (e :: journal) (q :: points) := by
  have noted := h.noted plain head
  rwa [List.filter_cons_of_neg (by rw [untold]; exact nofun)] at noted

/-- The next mark is left, after all was told that was to be. -/
theorem mark (h : Listens book i p told journal points)
    (heard : Heard book i p journal q.halt? told) (paces : e.paces i = true)
    (untold : e.tells i = false) (head : q.journal = e :: journal)
    (alone : p.published? i ≠ none → e.published? i = none ∧ e ≠ .began i) :
    Listens book i q [] (e :: journal) (q :: points) := by
  have marked : marks i (q :: points) = q :: marks i points := by
    rw [marks_cons head, if_pos paces]
  obtain ⟨rest, before⟩ := h.since.marked
  have attended : Attended book i p q := by
    refine ⟨?_, fun published => ?_⟩
    · obtain ⟨later, written, -, told⟩ := h.since.later
      refine ⟨e :: later, by rw [head, written]; rfl, ?_⟩
      rw [List.filter_cons_of_neg (by rw [untold]; exact nofun), told]
      exact heard.mono (head ▸ List.suffix_cons e journal)
    · obtain ⟨other, continues⟩ := alone published
      rw [Point.published?, head]
      exact ⟨other, fun began => continues (Option.some.inj began)⟩
  refine ⟨.mark head paces, ?_, ?_⟩
  · rw [marked, before]
    exact List.isChain_cons_cons.mpr ⟨attended, before ▸ h.attended⟩
  · rw [marked, before, List.getLast?_cons_cons, ← before]
    exact h.first

end Listens

/-- The first mark of a service that did nothing before. -/
theorem Silent.listens (h : Silent i journal points) (book : Book) (paces : e.paces i = true)
    (untold : e.tells i = false) (head : q.journal = e :: journal) :
    Listens book i q [] (e :: journal) (q :: points) := by
  have marked : FlatMachine.marks i (q :: points) = [q] := by
    rw [marks_cons head, if_pos paces, h.marks]
  refine ⟨.mark head paces, by rw [marked]; exact .singleton _, ?_⟩
  rw [marked]
  intro p hp
  obtain rfl : q = p := Option.some.inj hp
  rw [head, List.filter_cons_of_neg (by rw [untold]; exact nofun), List.filter_eq_nil_iff]
  exact fun e he tells => h.journal e he (Entry.deed?_of_tells tells)

end Listening

namespace World

/-- The service is drained, and what came of its marks until the last one was told. -/
def Listening (book : Book) (i : Nat) (p : Point) (told : List Entry) (w : World) : Prop :=
  w.Busy i ∧ Listens book i p told w.journal w.points

/-- All was told that was to be of the last mark, if this is what ends the drain. -/
def Hushed (book : Book) (i : Nat) (halt : Option Halt) (w : World) : Prop :=
  ∃ p told, w.Listening book i p told ∧ Heard book i p w.journal halt told

/-- The last mark was no publication, so nothing is to be told of it. -/
def Unspoken (book : Book) (i : Nat) (w : World) : Prop :=
  ∃ p, w.Listening book i p [] ∧ p.published? i = none

section Listening

variable {book : Book} {i : Nat} {p : Point} {told : List Entry} {w w' : World} {halt : Option Halt}

theorem Unspoken.hushed (h : w.Unspoken book i) : w.Hushed book i halt := by
  obtain ⟨p, listening, none⟩ := h
  exact ⟨p, [], listening, .nothing none⟩

theorem Hushed.ended (h : w.Hushed book i none) : w.Hushed book i halt := by
  obtain ⟨p, told, listening, heard⟩ := h
  exact ⟨p, told, listening, heard.ended⟩

namespace Listening

theorem changed {f : Service → Service} (h : w.Listening book i p told)
    (hf : ∀ s : Service, (f s).status = s.status ∧
    (f s).queue.draining = s.queue.draining) : (w.change i f).Listening book i p told := by
  obtain ⟨⟨s, hs, busy⟩, listens⟩ := h
  obtain ⟨status, draining⟩ := hf s
  exact ⟨⟨f s, change_self f hs, busy.alike status draining⟩, listens⟩

theorem silent {e : Entry} (h : w.Listening book i p told) (plain : e.paces i = false)
    (untold : e.tells i = false) :
    (w.noted e).Listening book i p told :=
  ⟨h.1, h.2.silent plain untold rfl⟩

theorem spared (h : w.Listening book i p told) (spares : w.Spares i w') :
    w'.Listening book i p told := by
  obtain ⟨busy, since, attended, first⟩ := h
  have same : marks i w'.points = marks i w.points :=
    spares.filter_points fun _ => Entry.deed?_of_paces
  exact ⟨spares.busy busy, since.spared spares, same ▸ attended, same ▸ first⟩

theorem steady (book : Book) (i : Nat) (p : Point) (told : List Entry) :
    Steady i (Listening book i p told) where
  busy := fun h => h.1
  spared := fun spares h => h.spared spares

theorem working {g : Engine} (hg : g.Sparing) : g.Working i (Listening book i p told) where
  aside := ((steady book i p told).free hg).aside
  noted := fun he h => h.silent he.plain.1 he.plain.2
  changed := fun hf h => h.changed fun s => by
    obtain ⟨_, _, _, _, eq⟩ := hf s
    rw [eq]
    exact ⟨rfl, rfl⟩
  calls := (steady book i p told).sustained hg

end Listening

end Listening

end World

/-- While nobody drains the service, its last drain is over, and nothing was told since. -/
def Service.Attentive (book : Book) (i : Nat) : Account := fun _ _ journal points =>
  ∃ p, Listens book i p [] journal points ∧ ∃ halt, p.journal.head? = some (.ended i halt)

theorem Service.enduring_attentive (book : Book) (i : Nat) :
    Enduring i (Service.Attentive book i) where
  noted := by
    rintro time s e p journal points deed head - ⟨q, listens, ended⟩
    have plain : e.paces i = false :=
      Bool.eq_false_iff.mpr fun paces => deed (Entry.deed?_of_paces paces)
    have untold : e.tells i = false :=
      Bool.eq_false_iff.mpr fun tells => deed (Entry.deed?_of_tells tells)
    exact ⟨q, listens.silent plain untold head, ended⟩
  same := fun _ => id
  later := fun _ => id

namespace Engine

open Run World

variable {g : Engine} {book : Book} {i n : Nat} {p q : Point} {told : List Entry} {w : World}
  {s : Service}

/-! ### Publishing -/

/-- Whatever a listener does, it was notified, and nobody else is. -/
theorem meets_notice (hg : g.Sparing) (sn : Snapshot) (listener : Listener) :
    Meets (Listening book i p told) (g.notify i sn listener)
      (fun _ => Listening book i p (listener.notice i sn :: told))
      (Listening book i p (listener.notice i sn :: told)) := by
  refine meets_noticed ((Listening.steady book i p _).sustained hg) ?_
  rintro w ⟨busy, listens⟩
  have noted :=
    listens.noted (listener.paces_notice i sn) (q := (w.noted (listener.notice i sn)).now) rfl
  rw [List.filter_cons_of_pos (listener.tells_notice i sn)] at noted
  exact ⟨busy, noted⟩

/-- Listeners are notified one after the other, up to the first that is halted. -/
theorem notifies_listeners (hg : g.Sparing) (sn : Snapshot) (listeners : List Listener)
    (h : w.Listening book i p told) :
    ∃ reached r v, (listeners.forM (g.notify i sn)).run w = (r, v) ∧
    g.Notifies i sn listeners w reached r v ∧
      v.Listening book i p (reached.reverse.map (Listener.notice i sn) ++ told) := by
  induction listeners generalizing w told with
  | nil => exact ⟨[], .ok (), w, rfl, .all w, h⟩
  | cons l rest ih =>
    have noticed := meets_notice hg sn l w h
    rw [show (l :: rest).forM (g.notify i sn) = g.notify i sn l >>= fun _ =>
      rest.forM (g.notify i sn) from rfl, run_bind]
    cases run : (g.notify i sn l).run w with
    | mk result u =>
      rw [run] at noticed
      cases result with
      | error halt => exact ⟨[l], _, u, rfl, .halted run, noticed⟩
      | ok =>
        obtain ⟨reached, r, v, others, reaches, listening⟩ := ih noticed
        refine ⟨l :: reached, r, v, others, .next run reaches, ?_⟩
        rw [List.reverse_cons, List.map_append, List.append_assoc]
        exact listening

/-- A publication is a mark, and its audience is notified, up to the first listener that is
halted. -/
theorem ends_publication (hg : (ofBook book n).Sparing) :
    Ends (Unspoken book i) ((ofBook book n).publish i)
    (fun _ => Hushed book i none) fun halt => Hushed book i (some halt) := by
  refine .ofExists fun p => .given (fun _ hw => hw.2) fun none => ?_
  have working : (ofBook book n).Working i (Listening book i p []) := Listening.working hg
  have paces (sn : Snapshot) : (Entry.published i sn).paces i = true := beq_self_eq_true i
  refine .bind (Q := fun _ => Listening book i p []) ?_ fun sn =>
    .bind (Q := fun _ => Listening book i p [])
    (.update fun w hw => hw.changed fun _ => ⟨rfl, rfl⟩) fun _ =>
      .bind (Q := fun _ w => w.Listening book i w.now [] ∧
      w.now.published? i = some sn) (.note fun w hw => ?_) fun _ => ?_
  · have snapshot := working.quiet.free.currentSnapshot true
    exact (snapshot.ends fun _ w hw => Unspoken.hushed ⟨p, hw, none⟩).pre fun _ hw => hw.1
  · refine ⟨⟨hw.1, ?_⟩, Point.published?_eq_some.mpr rfl⟩
    exact hw.2.mark (q := (w.noted (.published i sn)).now) (.nothing none) (paces sn) rfl rfl
      fun published => absurd none published
  · rintro w ⟨listening, published⟩
    obtain ⟨s, hs, -⟩ := listening.1
    have audience : w.now.audience i = s.listeners := by
      unfold Point.audience
      rw [show w.now.services[i]? = some s from hs]
      rfl
    rw [run_bind, run_service hs]
    dsimp only
    obtain ⟨reached, r, v, run, reaches, told⟩ := notifies_listeners hg sn s.listeners listening
    rw [run]
    rw [List.append_nil] at told
    cases r with
    | ok =>
      refine ⟨w.now, _, told, .notices published rfl (audience ▸ reaches) (List.suffix_refl _) ?_⟩
      exact fun h raised => by cases raised
    | error halt =>
      refine ⟨w.now, _, told, .notices published rfl (audience ▸ reaches) (List.suffix_refl _) ?_⟩
      exact fun h raised => congrArg some (Except.error.inj raised)

/-! ### Drains -/

/-- An item is taken when all was told that was to be. -/
theorem unspoken_taken (item : Item) (h : w.Hushed book i none) (hs : w.services[i]? = some s) :
    (w.taken i item).Unspoken book i := by
  obtain ⟨p, told, ⟨⟨s', hs', busy⟩, listens⟩, heard⟩ := h
  cases hs.symm.trans hs'
  have paces : (Entry.taken i item).paces i = true := beq_self_eq_true i
  refine ⟨(w.taken i item).now,
    ⟨⟨_, taken_self item hs, busy.alike rfl (Queue.draining_dequeue _)⟩, ?_⟩, rfl⟩
  exact listens.mark (q := (w.taken i item).now) heard paces rfl rfl fun _ => ⟨rfl, nofun⟩

theorem rounds_hushed (hg : (ofBook book n).Sparing) : (ofBook book n).Rounds i (Hushed book i none)
    (fun _ _ => Unspoken book i) fun halt => Hushed book i (some halt) where
  halted := fun _ h => h.ended
  processed := by
    intro w s item hushed hs _ _
    refine .pre (.ofExists fun p => .given (fun _ hw => hw.2) fun none => ?_) fun v hv =>
      hv ▸ unspoken_taken item hushed hs
    have working : (ofBook book n).Working i (Listening book i p []) := Listening.working hg
    refine ((working.process item).ends fun halt v hv => Unspoken.hushed ⟨p, hv, none⟩).conseq
      (fun _ hw => hw.1) ?_ fun _ _ => id
    exact fun _ v hv => ⟨p, hv, none⟩
  skipped := fun unspoken _ _ => unspoken.hushed
  published := fun unspoken _ _ _ => (ends_publication hg).pre fun _ hv => hv ▸ unspoken
  lost := fun _ unspoken _ => unspoken.hushed

/-- The first drain publishes the initial state, and then takes items. -/
theorem ends_startBody (hg : (ofBook book n).Sparing) :
    Ends (Unspoken book i) ((ofBook book n).startBody i)
    (fun _ => Hushed book i none) fun halt => Hushed book i (some halt) := by
  refine .bind (Q := fun _ => Unspoken book i)
      (.ofExists fun p => .given (fun _ hw => hw.2) fun none => ?_) fun _ =>
    .bind (ends_publication hg) fun _ => (rounds_hushed hg).ends_processPending _
  have working : (ofBook book n).Working i (Listening book i p []) := Listening.working hg
  refine ((working.enter .init).ends fun halt v hv => Unspoken.hushed ⟨p, hv, none⟩).conseq
    (fun _ hw => hw.1) ?_ fun _ _ => id
  exact fun _ v hv => ⟨p, hv, none⟩

/-- A drain begins after the last one ended. -/
theorem hushed_entered {item : Item} (hs : w.services[i]? = some s) (running : s.status = .running)
    (attentive : s.Attentive book i w.clock w.journal w.points) :
    (w.prompted i item).Hushed book i none := by
  obtain ⟨p, listens, halt, ended⟩ := attentive
  have unpublished : p.published? i = none := by
    rw [Point.published?, ended]
    rfl
  have accepted := listens.silent (e := .accepted i item) (q := ⟨(w.change i fun s =>
    { s with queue := s.queue.enqueue item }).services, .accepted i item :: w.journal⟩) rfl rfl rfl
  have paces : (Entry.began i).paces i = true := beq_self_eq_true i
  refine Unspoken.hushed ⟨(w.prompted i item).now, ⟨⟨_, prompted_self item hs, rfl, ?_⟩, ?_⟩, rfl⟩
  · show s.status ≠ .notStarted
    rw [running]
    exact nofun
  · exact accepted.mark (q := (w.prompted i item).now) (.nothing unpublished) paces rfl rfl
      fun published => absurd unpublished published

theorem unspoken_opened {context : Context} {text : String} (book : Book)
    (hs : w.services[i]? = some s) (silent : Silent i w.journal w.points) :
    (opened w i context text).Unspoken book i := by
  have paces : (Entry.began i).paces i = true := beq_self_eq_true i
  have listens :=
    (silent.greeted context text).listens book (q := (opened w i context text).now) paces rfl rfl
  exact ⟨(opened w i context text).now,
    ⟨⟨_, opened_self hs context text, rfl, nofun⟩, listens⟩, rfl⟩

theorem regards_attentive (hg : (ofBook book n).Sparing) :
    (ofBook book n).Regards i (fun _ => True) (Upholds i (Service.Attentive book i)) := by
  have past {v : World} {s : Service} {p : Point} {halt : Option Halt}
      (hushed : v.Hushed book i halt)
      (head : p.journal = .ended i halt :: v.journal) :
      s.Attentive book i v.clock p.journal (p :: v.points) := by
    obtain ⟨q, told, ⟨-, listens⟩, heard⟩ := hushed
    have paces : (Entry.ended i halt).paces i = true := beq_self_eq_true i
    have halted : p.halt? = halt := by
      unfold Point.halt?
      rw [head]
      rfl
    refine ⟨p, ?_, halt, by rw [head]; rfl⟩
    rw [head]
    exact listens.mark (halted ▸ heard) paces rfl head fun _ => ⟨rfl, nofun⟩
  refine regards_upholds hg (Service.enduring_attentive book i) ?_ ?_ (ends_startBody hg)
    ((rounds_hushed hg).ends_processPending _) (fun hushed _ head _ => past hushed head)
      fun hushed _ head _ => past hushed head
  · exact fun item hs running _ attentive => hushed_entered hs running attentive
  · exact fun context text _ hs _ _ asleep _ _ => unspoken_opened book hs asleep.silent

end Engine

/-! ### Histories -/

/-- No publication is cut short, since no drain that is halted ends with one. -/
def Uncut (i : Nat) (ms : List Point) : Prop :=
  ms.IsChain fun q p => (p.published? i).isSome = true → q.halt?.isNone = true

instance (i : Nat) (ms : List Point) : Decidable (Uncut i ms) := by unfold Uncut; infer_instance

/-- By induction on the marks: until the last one, what was told is what was to be told of those
before. -/
theorem told_of_attended {book : Book} {i : Nat} {p : Point} {earlier : List Point}
    (attended : (p :: earlier).IsChain fun q p => Attended book i p q)
    (uncut : Uncut i (p :: earlier))
    (marked : ∀ q ∈ earlier, q.journal.head?.any (Entry.paces i) = true)
    (first : ∀ q ∈ (p :: earlier).getLast?, q.journal.filter (Entry.tells i) = []) :
    p.journal.filter (Entry.tells i) = earlier.flatMap (Point.notices i) := by
  induction earlier generalizing p with
  | nil => exact first p rfl
  | cons q rest ih =>
    obtain ⟨now, attended⟩ := List.isChain_cons_cons.mp attended
    obtain ⟨whole, uncut⟩ := List.isChain_cons_cons.mp uncut
    obtain ⟨marked, others⟩ := List.forall_mem_cons.mp marked
    rw [List.getLast?_cons_cons] at first
    obtain ⟨later, written, heard⟩ := now.heard
    rw [List.flatMap_cons, ← ih attended uncut others first, written, List.filter_append]
    rw [heard.notices_eq whole marked]

/-- Whoever is in the audience of each publication hears of all of them, in their order. -/
theorem sublist_notices {i : Nat} {l : Listener} {ms : List Point}
    (there : ∀ p ∈ ms, (p.published? i).isSome = true → l ∈ p.audience i) :
    ((ms.filterMap (Point.published? i)).map (l.notice i)).Sublist
      (ms.flatMap (Point.notices i)) := by
  induction ms with
  | nil => exact .slnil
  | cons p rest ih =>
    obtain ⟨here, there⟩ := List.forall_mem_cons.mp there
    rw [List.flatMap_cons]
    cases published : p.published? i with
    | none =>
      rw [List.filterMap_cons_none published]
      exact (ih there).trans (List.sublist_append_right _ _)
    | some sn =>
      rw [List.filterMap_cons_some published, List.map_cons, ← List.singleton_append]
      refine .append (List.singleton_sublist.mpr ?_) (ih there)
      have mem := here (by rw [published]; rfl)
      unfold Point.notices
      unfold Point.audience at mem
      rw [Point.published?_eq_some.mp published]
      exact List.mem_map_of_mem (List.mem_reverse.mpr mem)

namespace World

/-- Nothing was done by the service yet, or its last drain is over, and nothing was told since. -/
theorem attentive_after (book : Book) (fuel : Nat) (looping : Bool)
    (history : List Command) (i : Nat) :
    let w := (World.start looping).after (.ofBook book fuel) history
    Silent i w.journal w.points ∨
      ∃ p, Listens book i p [] w.journal w.points ∧
      ∃ halt, p.journal.head? = some (.ended i halt) := by
  intro w
  have upholds : w.Upholds i (Service.Attentive book i) :=
    upholds_after (fun n => Engine.regards_attentive (Engine.sparing_ofBook book n)) trivial fuel
      looping history
      fun _ _ => trivial
  cases hs : w.services[i]? with
  | none => exact .inl (upholds.unborn hs)
  | some s => exact (upholds.now s hs).either

/-- The snapshots published are those of the marks. -/
theorem published_marks (book : Book) (fuel : Nat) (looping : Bool)
    (history : List Command) (i : Nat) :
    let w := (World.start looping).after (.ofBook book fuel) history
    (marks i w.points).filterMap (Point.published? i) =
      w.journal.filterMap (Entry.published? i) := by
  intro w
  exact (filterMap_marks i w.points).trans (published_points book fuel looping history i)

/-- In every history, each publication reaches the listeners that are registered when it is made,
in the order of registration and as often as they are registered, up to the first one that is
halted, which halts the drain; nothing else is told to listeners, and the next publication, drain
or item comes after all that.  So as long as no publication is cut short, what was told is what
was to be told of each publication in turn, and whoever is registered at all of them hears of all
in their order. -/
theorem publication_attended (book : Book) (fuel : Nat) (looping : Bool)
    (history : List Command) (i : Nat) :
    let w := (World.start looping).after (.ofBook book fuel) history
    (marks i w.points).IsChain (fun q p => Attended book i p q) ∧
    (∀ p ∈ (marks i w.points).getLast?, p.journal.filter (Entry.tells i) = []) ∧
    (∀ p ∈ (marks i w.points).head?, p.published? i = none ∧
      ∃ later, w.journal = later ++ p.journal ∧ later.filter (Entry.tells i) = []) ∧
    (marks i w.points = [] → w.journal.filter (Entry.tells i) = []) ∧
    (Uncut i (marks i w.points) →
      w.journal.filter (Entry.tells i) = (marks i w.points).flatMap (Point.notices i) ∧
      ∀ l : Listener, (∀ p ∈ marks i w.points, (p.published? i).isSome = true → l ∈ p.audience i) →
        ((w.journal.filterMap (Entry.published? i)).map (l.notice i)).Sublist
          (w.journal.filter (Entry.tells i))) := by
  intro w
  have sublist (told : w.journal.filter (Entry.tells i) =
    (marks i w.points).flatMap (Point.notices i)) (l : Listener)
      (there : ∀ p ∈ marks i w.points, (p.published? i).isSome = true → l ∈ p.audience i) :
      ((w.journal.filterMap (Entry.published? i)).map (l.notice i)).Sublist
        (w.journal.filter (Entry.tells i)) := by
    rw [told, ← published_marks]
    exact sublist_notices there
  rcases attentive_after book fuel looping history
    i with silent | ⟨p, ⟨since, attended, first⟩, halt, ended⟩
  · have none : w.journal.filter (Entry.tells i) = [] :=
      List.filter_eq_nil_iff.mpr fun e he tells =>
        silent.journal e he (Entry.deed?_of_tells tells)
    have unmarked : marks i w.points = [] := silent.marks
    refine ⟨?_, ?_, ?_, fun _ => none, fun _ => ⟨?_, sublist ?_⟩⟩ <;> rw [unmarked]
    · exact .nil
    · exact nofun
    · exact nofun
    · exact none
    · exact none
  · obtain ⟨rest, marked⟩ := since.marked
    obtain ⟨later, written, -, told⟩ := since.later
    have unpublished : p.published? i = none := by
      rw [Point.published?, ended]
      rfl
    refine ⟨attended, first, ?_, fun unmarked => ?_, fun uncut => ?_⟩
    · rw [show marks i w.points = p :: rest from marked]
      rintro q ⟨⟩
      exact ⟨unpublished, later, written, told⟩
    · exact nomatch marked.symm.trans unmarked
    · have all :
          w.journal.filter (Entry.tells i) = (marks i w.points).flatMap (Point.notices i) := by
        have paces : ∀ q ∈ marks i w.points, q.journal.head?.any (Entry.paces i) = true :=
          fun q hq => (List.mem_filter.mp hq).2
        have before := paces p (by rw [marked]; exact List.mem_cons_self)
        rw [marked] at attended uncut paces first
        have earlier :=
          told_of_attended attended uncut (fun q hq => paces q (List.mem_cons_of_mem _ hq)) first
        rw [marked, List.flatMap_cons, written, List.filter_append, told, earlier]
        rw [Point.notices_of_other ended rfl (by rwa [ended] at before)]
      exact ⟨all, sublist all⟩

end World

/-! ### A crowd -/

namespace Crowd

def go : Transition := ⟨.str "loud", [], .null⟩

def back : Transition := ⟨.str "quiet", [], .null⟩

def quiet : Node := ⟨[(.str "GO", .tuple [go.toValue])], [], [], .null, []⟩

def loud : Node := ⟨[(.str "BACK", .tuple [back.toValue])], [], [], .null, []⟩

def machine : Machine where
  id := .str "crowd"
  initial := .str "quiet"
  context := .null
  states := [(.str "quiet", quiet.toValue), (.str "loud", loud.toValue)]

/-- Whoever is eager brings somebody along, turns the second one out and wants it quiet again. -/
def book : Book := Book.ofCodes fun
  | .host 0, _, _ => .ask (.subscribe 0 "late") fun _ => .ask (.unsubscribe 1) fun _ =>
    .ask (.send (.service 0) (.str "BACK")) fun _ => .done (.fresh .null)
  | _, _, _ => .done (.fresh .null)

def eager : Listener := ⟨"eager", some (Swing.function 0)⟩

def isEager : Listener → Bool
  | ⟨"eager", some (.function (.bench, 0) none (.host 0) [])⟩ => true
  | _ => false

theorem eq_of_isEager {l : Listener} (h : isEager l = true) : l = eager := by
  unfold isEager at h
  split at h
  · rfl
  · cases h

def life : List Command :=
  [.create machine.toValue .standard [] true, .subscribe 0 eager.name eager.callback,
  .subscribe 0 "plain" none, .start 0 .null, .send 0 (.str "GO")]

def world : World := (World.start true).after (.ofBook book 9) life

/-- The one who is turned out during a publication still hears of it, and the one who is brought
along does not. -/
theorem audiences_notified : world.journal.filter (Entry.tells 0) = (marks 0 world.points).flatMap
    (Point.notices 0) ∧
    ((world.journal.filterMap (Entry.published? 0)).map (eager.notice 0)).Sublist
      (world.journal.filter (Entry.tells 0)) ∧
    (marks 0 world.points).filterMap
      (fun p => (p.published? 0).map fun _ => (p.audience 0).map (·.name)) =
      [["eager", "late", "late"], ["eager", "late"], ["eager", "plain"]] := by
  have uncut : Uncut 0 (marks 0 world.points) := by decide +kernel
  obtain ⟨told, heard⟩ := (World.publication_attended book 9 true life 0).2.2.2.2 uncut
  have there : (marks 0 world.points).all (fun p => (p.audience 0).any isEager) = true := by
    decide +kernel
  refine ⟨told, heard eager fun p hp _ => ?_, by decide +kernel⟩
  obtain ⟨l, mem, eager⟩ := List.any_eq_true.mp (List.all_eq_true.mp there p hp)
  exact eq_of_isEager eager ▸ mem

end Crowd

end FlatMachine
