import Statechart.Proofs.Advancing
import Statechart.Proofs.Newcomers
import Statechart.Proofs.Registry

/-!
# Steps that spare all actors but one

Some steps of a delivery change one actor at most (`Delivery.Leads`). The others stay as they are
(`System.Spares`), and what something keeps besides that actor is kept afterwards as well
(`System.KeptBeside.spared`).

This is so when an actor winds up whose children have stopped (`Delivery.winds_up`), when an event
is sent to an actor that is not at work (`Delivery.send_running`), and when the calls end that have
led there (`Delivery.drain_closed`, `Delivery.leave_nested`).
-/

namespace Statechart

/-! ## Systems -/

namespace System

/-- Something keeps an actor besides some others: the application, a timer that none of them has
set, or an actor that is kept so and is none of them. -/
inductive KeptBeside (sys : System) (others : List Session) : Session → Prop
  | application {s : Session} (h : s ∈ sys.kept ∨ s ∈ sys.held.map Prod.snd) :
      KeptBeside sys others s
  | timer {s : Session} {entry : Scheduler.Key × Timer} (h : entry ∈ sys.scheduler.timers)
      (howner : entry.2.owner ∉ others) (hs : s ∈ entry.2.target.keeps) : KeptBeside sys others s
  | actor {s c : Session} {a : Actor} (h : KeptBeside sys others s) (hs : s ∉ others)
      (ha : sys.actor? s = some a) (hc : c ∈ a.keeps) : KeptBeside sys others c

/-- Of the actors that there were only one has changed, and only its timers are gone. What the
application holds is the same, and so are the errors that wait for the caller. -/
structure Spares (sys : System) (s : Session) (sys' : System) : Prop where
  others : ∀ t a, t ≠ s → sys.actor? t = some a → sys'.actor? t = some a
  timers : ∀ entry ∈ sys.scheduler.timers, entry.2.owner ≠ s → entry ∈ sys'.scheduler.timers
  kept : sys'.kept = sys.kept
  held : sys'.held = sys.held
  unhandled : sys'.unhandled = sys.unhandled

variable {sys sys' sys'' : System} {s t : Session} {others others' : List Session}

theorem Spares.trans (h : sys.Spares s sys') (h' : sys'.Spares s sys'') : sys.Spares s sys'' where
  others t a hts ha := h'.others t a hts (h.others t a hts ha)
  timers entry hentry howner := h'.timers entry (h.timers entry hentry howner) howner
  kept := h'.kept.trans h.kept
  held := h'.held.trans h.held
  unhandled := h'.unhandled.trans h.unhandled

/-- Everything but the actors is left alone. -/
theorem spares_of_eq (hactors : sys'.actors = sys.actors)
    (hscheduler : sys'.scheduler = sys.scheduler) (hkept : sys'.kept = sys.kept)
    (hheld : sys'.held = sys.held) (hunhandled : sys'.unhandled = sys.unhandled) : sys.Spares s sys' :=
  ⟨fun t a _ ha => by rwa [actor?, hactors], fun _ h _ => hscheduler ▸ h, hkept, hheld, hunhandled⟩

theorem spares_modify (hkeyed : sys.Keyed) {f : Actor → Actor}
    (hf : ∀ a, (f a).session = a.session) (s : Session) : sys.Spares s (sys.modify s f) := by
  refine ⟨fun t a hts ha => ?_, fun entry h _ => ?_, ?_, ?_, ?_⟩
  · rw [actor?_modify hkeyed hf, if_neg hts.symm, ha]
  · unfold modify
    split <;> exact h
  all_goals
    unfold modify
    split <;> rfl

theorem spares_setMailbox (hkeyed : sys.Keyed) (s : Session) (m : Mailbox) :
    sys.Spares s (sys.setMailbox s m) :=
  spares_modify (f := fun a => { a with mailbox := m }) hkeyed (fun _ => rfl) s

theorem spares_setSnapshot (hkeyed : sys.Keyed) (s : Session) (snapshot : Snapshot) :
    sys.Spares s (sys.setSnapshot s snapshot) :=
  spares_modify (f := fun a => { a with snapshot }) hkeyed (fun _ => rfl) s

/-- To make actors and to give notices spares everyone. -/
theorem spares_peopled (h : sys.Peopled sys') (hgrown : sys.Grown sys') : sys.Spares s sys' :=
  ⟨fun t a _ ha => hgrown.kept t a ha, fun _ h' _ => by rwa [h.rest], by rw [h.rest],
    by rw [h.rest], by rw [h.rest]⟩

theorem KeptBeside.kept (h : sys.KeptBeside others s) : Kept { sys with pins := [] } s := by
  induction h with
  | application h =>
      refine .outside ?_
      simp only [roots, List.mem_append]
      exact .inl (.inl h)
  | timer h _ hs =>
      refine .outside ?_
      simp only [roots, List.mem_append, List.mem_flatMap]
      exact .inr ⟨_, h, hs⟩
  | actor _ _ ha hc ih => exact .through ih ha hc

/-- What something keeps besides others is kept besides fewer of them. -/
theorem KeptBeside.mono (h : sys.KeptBeside others s) (hless : others' ⊆ others) :
    sys.KeptBeside others' s := by
  induction h with
  | application h => exact .application h
  | timer h howner hs => exact .timer h (fun h => howner (hless h)) hs
  | actor _ hs ha hc ih => exact .actor ih (fun h => hs (hless h)) ha hc

/-- What something keeps besides others is kept when one of these changes. -/
theorem KeptBeside.spared (h : sys.KeptBeside others s) (hspares : sys.Spares t sys')
    (ht : t ∈ others) : sys'.KeptBeside others s := by
  have hne : ∀ {x}, x ∉ others → x ≠ t := fun hx hxt => hx (hxt ▸ ht)
  induction h with
  | application h => exact .application (by rwa [hspares.kept, hspares.held])
  | timer h howner hs =>
      exact .timer (hspares.timers _ h (hne howner)) howner hs
  | actor _ hs ha hc ih => exact .actor ih hs (hspares.others _ _ (hne hs) ha) hc

/-- Only an actor that there is has stopped. -/
theorem exists_of_stopped (h : (sys.actor t).status = .stopped) : ∃ a, sys.actor? t = some a := by
  cases ha : sys.actor? t with
  | some a => exact ⟨a, rfl⟩
  | none =>
      rw [actor, ha] at h
      cases h

/-- Whoever else has stopped stays as it is. -/
theorem Spares.stopped (h : sys.Spares s sys') (hts : t ≠ s)
    (hstopped : (sys.actor t).status = .stopped) : sys'.actor t = sys.actor t := by
  obtain ⟨a, ha⟩ := exists_of_stopped hstopped
  rw [actor_eq ha, actor_eq (h.others t a hts ha)]

end System

namespace Delivery

variable {d e : Delivery} {s p : Session} {a b : Actor} {rest : List Frame} {n k : Nat}

/-! ## Within some steps -/

/-- One delivery comes of another within some steps. -/
def Within (n : Nat) (d e : Delivery) : Prop := ∃ k ≤ n, step^[k] d = e

/-- A delivery in a system that came about by itself, with its calls counted rightly. -/
structure Regular (d : Delivery) : Prop where
  reached : Reached d
  attuned : d.Attuned

theorem within_step (h : d.step = e) : Within 1 d e := ⟨1, Nat.le_refl 1, h⟩

theorem Within.trans {f : Delivery} (h : Within n d e) (h' : Within k e f) :
    Within (n + k) d f := by
  obtain ⟨i, hi, rfl⟩ := h
  obtain ⟨j, hj, rfl⟩ := h'
  exact ⟨j + i, by omega, Function.iterate_add_apply _ _ _ _⟩

theorem Within.mono (h : Within n d e) (hle : n ≤ k) : Within k d e := by
  obtain ⟨i, hi, he⟩ := h
  exact ⟨i, Nat.le_trans hi hle, he⟩

theorem Regular.step (h : d.Regular) : d.step.Regular :=
  ⟨h.reached.next (.step d), h.attuned.step⟩

theorem Within.regular (h : Within n d e) (hd : d.Regular) : e.Regular := by
  obtain ⟨k, -, rfl⟩ := h
  induction k generalizing d with
  | zero => exact hd
  | succ k ih => exact ih hd.step

/-- A delivery that is at its end within some steps is worked off. -/
theorem Within.run (h : Within n d e) (hdone : e.frames = []) (hle : n ≤ k) :
    d.run k = ({ e.system with pins := [] }, e.answer) := by
  obtain ⟨i, hi, rfl⟩ := h
  have hend : step^[k] d = step^[i] d := iterate_of_le hdone (hi.trans hle)
  rw [run_of_iterate (by rw [hend]; exact hdone), hend]

theorem Within.follows (h : Within n d e) (hd : d.Regular) : d.system.Follows e.system := by
  obtain ⟨k, -, rfl⟩ := h
  induction k generalizing d with
  | zero => exact .refl _
  | succ k ih => exact ((Happens.step d).follows hd.reached.sound).trans (ih hd.step)

/-! ## Steps -/

theorem quiet_pinned (d : Delivery) : d.system.Quiet d.pinned := quiet_pins _ _

theorem spares_pinned (d : Delivery) (s : Session) : d.system.Spares s d.pinned :=
  System.spares_of_eq rfl rfl rfl rfl rfl

/-- Within some steps one actor changes at most. -/
structure Leads (s : Session) (n : Nat) (d e : Delivery) : Prop where
  within : Within n d e
  spares : d.system.Spares s e.system

theorem Leads.trans {f : Delivery} (h : Leads s n d e) (h' : Leads s k e f) :
    Leads s (n + k) d f := ⟨h.within.trans h'.within, h.spares.trans h'.spares⟩

/-- What comes of the frame on top. -/
theorem leads_step {f : Frame} {x : Delivery} (hframes : d.frames = f :: rest)
    (hx : frame d.pinned d.answer f = x) (hspares : d.pinned.Spares s x.system) :
    Leads s 1 d (x.before rest) :=
  ⟨within_step (by rw [step_pinned hframes, hx]), (spares_pinned d s).trans hspares⟩

/-- A frame with which nothing is done. -/
theorem leads_done {f : Frame} (s : Session) (hframes : d.frames = f :: rest)
    (hx : frame d.pinned d.answer f = done d.pinned) : Leads s 1 d (doing d.pinned rest) :=
  leads_step hframes hx (System.spares_of_eq rfl rfl rfl rfl rfl)

/-! ## Winding up -/

theorem stop_stopped {sys : System} {c : Session} (h : (sys.actor c).status = .stopped) :
    stop sys c = done sys := by
  unfold stop
  split
  · rfl
  · rename_i a ha
    rw [System.actor_eq ha] at h
    simp only [h]

/-- To stop actors that have stopped does nothing. -/
theorem stopAll_stopped (s : Session) {sessions : List Session}
    (hframes : d.frames = .stopAll sessions :: rest)
    (hstopped : ∀ c ∈ sessions, (d.system.actor c).status = .stopped) :
    ∃ e, Leads s (sessions.length + 1) d e ∧ e.frames = rest ∧
      ∀ c, e.system.actor? c = d.system.actor? c := by
  induction sessions generalizing d with
  | nil => exact ⟨_, leads_done s hframes rfl, rfl, fun c => rfl⟩
  | cons c sessions ih =>
      have hstop : stop d.pinned c = done d.pinned :=
        stop_stopped (hstopped c List.mem_cons_self)
      have hfirst : Leads s 1 d (doing d.pinned (.stopAll sessions :: rest)) :=
        leads_step (x := doing d.pinned [.stopAll sessions]) hframes
          (by rw [frame, hstop]; rfl) (System.spares_of_eq rfl rfl rfl rfl rfl)
      obtain ⟨e, hleads, he, hactors⟩ := ih (d := doing d.pinned (.stopAll sessions :: rest)) rfl
        fun x hx => hstopped x (List.mem_cons_of_mem _ hx)
      refine ⟨e, ?_, he, hactors⟩
      rw [List.length_cons, Nat.add_comm sessions.length]
      exact hfirst.trans hleads

/-- With an actor only its timers go. -/
theorem spares_retire (sys : System) (s : Session) :
    (retire sys s).actors = sys.actors ∧ sys.Spares s (retire sys s) := by
  have hcancelled : sys.Spares s (sys.cancelOwner s) :=
    ⟨fun _ _ _ ha => ha,
      fun entry h howner => List.mem_filter.mpr ⟨h, decide_eq_true howner⟩, rfl, rfl, rfl⟩
  unfold retire System.unregister
  simp only
  split
  · exact ⟨rfl, hcancelled.trans (System.spares_of_eq rfl rfl rfl rfl rfl)⟩
  · split <;> exact ⟨rfl, hcancelled.trans (System.spares_of_eq rfl rfl rfl rfl rfl)⟩

/-- An actor that fails is closed, and retires as its children have stopped. -/
theorem winds_up {snapshot : Snapshot} (hd : d.Regular)
    (hframes : d.frames = .settle s snapshot none :: rest) (hstatus : snapshot.status = .error)
    (ha : d.system.actor? s = some a) (hopen : a.status ≠ .stopped)
    (hstopped : ∀ c ∈ a.snapshot.sessions, (d.system.actor c).status = .stopped) :
    ∃ e, Leads s (a.snapshot.sessions.length + 4) d e ∧
      e.frames = .failed s snapshot none :: rest ∧
      e.system.actor? s = some { a with mailbox := a.mailbox.close } := by
  have hkeyed := (quiet_pinned d).keyed hd.reached.sound.system.keyed
  -- the actor is to be halted
  let d₁ := doing d.pinned (.halt s :: .failed s snapshot none :: rest)
  have h₁ : Leads s 1 d d₁ :=
    leads_step (x := doing d.pinned [.halt s, .failed s snapshot none]) hframes
      (by rw [frame, settle]; simp only [hstatus]) (System.spares_of_eq rfl rfl rfl rfl rfl)
  -- it is closed
  let d₂ := doing (d₁.pinned.setMailbox s a.mailbox.close)
    (.stopAll a.snapshot.sessions :: .retire s :: .failed s snapshot none :: rest)
  have hself₁ : d₁.pinned.actor? s = some a := ha
  have hkeyed₁ : d₁.pinned.Keyed := hkeyed
  have hclose := System.puts_setMailbox hkeyed₁ hself₁ a.mailbox.close
  have h₂ : Leads s 1 d₁ d₂ :=
    leads_step (x := doing (d₁.pinned.setMailbox s a.mailbox.close)
      [.stopAll a.snapshot.sessions, .retire s]) rfl
      (by rw [frame, halt, System.actor_eq hself₁]) (System.spares_setMailbox hkeyed₁ s _)
  -- its children have stopped
  have hne : ∀ c ∈ a.snapshot.sessions, c ≠ s := by
    rintro c hc rfl
    have hc := hstopped c hc
    rw [System.actor_eq ha] at hc
    exact hopen hc
  obtain ⟨d₃, h₃, hframes₃, hactors₃⟩ := stopAll_stopped s (d := d₂) rfl fun c hc =>
    (congrArg Actor.status (h₂.spares.stopped (hne c hc) (hstopped c hc))).trans (hstopped c hc)
  -- it retires
  obtain ⟨hactors, hretired⟩ := spares_retire d₃.pinned s
  let d₄ := doing (retire d₃.pinned s) (.failed s snapshot none :: rest)
  have h₄ : Leads s 1 d₃ d₄ :=
    leads_step (x := done (retire d₃.pinned s)) hframes₃ rfl hretired
  refine ⟨d₄, ?_, rfl, ?_⟩
  · have hall := ((h₁.trans h₂).trans h₃).trans h₄
    rwa [show 1 + 1 + (a.snapshot.sessions.length + 1) + 1 = a.snapshot.sessions.length + 4 by
      omega] at hall
  · show SortedMap.find? s.number (retire d₃.pinned s).actors = _
    rw [hactors]
    exact (hactors₃ s).trans hclose.self

/-! ## Calls -/

/-- An event that is sent to an actor that runs and is not at work is worked off at once. -/
theorem send_running {sys : System} {event : Event} (hkeyed : sys.Keyed)
    (hb : sys.actor? p = some b) (haccepts : b.logic.accepts spawn event = .ok ())
    (hrunning : b.status = .running) (hfree : b.mailbox.flushing = false) :
    (send sys p event).frames = [.drain p, .leave] ∧
      (send sys p event).system.actor? p =
        some { b with mailbox := { b.mailbox.push event with flushing := true } } ∧
      sys.Spares p (send sys p event).system := by
  have hstatus : b.mailbox.status = .running := hrunning
  have henqueue :
      b.mailbox.enqueue event sys.config.deferEvents = (b.mailbox.push event, .ready) := by
    rw [Mailbox.enqueue, hstatus]
  have hbegin : (b.mailbox.push event).beginFlush? =
      some { b.mailbox.push event with flushing := true } := by
    unfold Mailbox.beginFlush?
    simp [Mailbox.push, hfree, hstatus]
  -- the event is queued
  let queued := (checkMailbox (sys.setMailbox p (b.mailbox.push event)) p).enter
  have hposted : sys.Puts p { b with mailbox := b.mailbox.push event } queued :=
    ((System.puts_setMailbox hkeyed hb _).quiet (quiet_checkMailbox _ p)).quiet
      (.of_eq rfl rfl rfl rfl)
  have hsend : send sys p event = doing
      (queued.setMailbox p { b.mailbox.push event with flushing := true }) [.drain p, .leave] := by
    unfold send
    simp only
    rw [System.actor_eq hb, haccepts, henqueue]
    simp only
    rw [flush, hposted.actor_self, hbegin]
  have hkeyed' := hposted.keyed hkeyed (hkeyed p b hb)
  have hchecked : (sys.setMailbox p (b.mailbox.push event)).Spares p queued := by
    show System.Spares _ p (System.enter (checkMailbox _ p))
    unfold checkMailbox
    simp only
    split <;> exact System.spares_of_eq rfl rfl rfl rfl rfl
  rw [hsend]
  exact ⟨rfl, (System.puts_setMailbox hkeyed' hposted.self _).self,
    ((System.spares_setMailbox hkeyed p _).trans hchecked).trans
      (System.spares_setMailbox hkeyed' p _)⟩

/-- Nothing is left in the mailbox of an actor that has been closed. -/
theorem drain_closed {kept : List Session} (hd : d.Regular)
    (hframes : d.frames = .keep kept :: .drain s :: rest) (ha : d.system.actor? s = some a)
    (hempty : a.mailbox.queue = []) : ∃ e, Leads s 2 d e ∧ e.frames = rest ∧
      e.system.actor? s = some { a with mailbox := { a.mailbox with flushing := false } } := by
  have hkeyed := (quiet_pinned d).keyed hd.reached.sound.system.keyed
  let d₁ := doing d.pinned (.drain s :: rest)
  have h₁ : Leads s 1 d d₁ := leads_done s hframes rfl
  have hself : d₁.pinned.actor? s = some a := ha
  have hkeyed₁ : d₁.pinned.Keyed := hkeyed
  have hnext := Mailbox.next_nil hempty
  let d₂ := doing (d₁.pinned.setMailbox s { a.mailbox with flushing := false }) rest
  have h₂ : Leads s 1 d₁ d₂ :=
    leads_step (x := done (d₁.pinned.setMailbox s { a.mailbox with flushing := false })) rfl
      (by rw [frame, System.actor_eq hself, hnext])
      (System.spares_setMailbox hkeyed₁ s _)
  exact ⟨d₂, h₁.trans h₂, rfl, (System.puts_setMailbox hkeyed₁ hself _).self⟩

/-- A call that another one has led to ends without an answer of its own. -/
theorem leave_nested (s : Session) (hd : d.Regular) (hframes : d.frames = .leave :: rest)
    (hleaves : 0 < leaves rest) : ∃ e, Leads s 1 d e ∧ e.frames = rest ∧
      ∀ c, e.system.actor? c = d.system.actor? c := by
  have hdepth : d.pinned.depth - 1 ≠ 0 := by
    have hcount : d.pinned.depth = leaves (.leave :: rest) := hframes ▸ hd.attuned.depth
    have hone : leaves (.leave :: rest) = leaves rest + 1 := by
      rw [leaves_cons]
      exact Nat.add_comm _ _
    omega
  have hleave : d.pinned.leave = ({ d.pinned with depth := d.pinned.depth - 1 }, .ok ()) := by
    rw [System.leave, if_neg hdepth]
  refine ⟨_, leads_step (x := done { d.pinned with depth := d.pinned.depth - 1 }) hframes ?_
    (System.spares_of_eq rfl rfl rfl rfl rfl), rfl, fun c => rfl⟩
  rw [frame, hleave]
  rfl

/-- The outermost call ends with the first error that has been kept. -/
theorem leave_outermost {x : ActorError} (hd : d.Regular) (hframes : d.frames = [.leave])
    (hunhandled : d.system.unhandled = [x]) : ∃ e, Within 1 d e ∧ e.frames = [] ∧
      e.answer = .error x ∧ ∀ c, e.system.actor? c = d.system.actor? c := by
  have hdepth : d.pinned.depth - 1 = 0 := by
    have hcount : d.pinned.depth = leaves [.leave] := hframes ▸ hd.attuned.depth
    rw [hcount]
    rfl
  have hleave : d.pinned.leave = ({ d.pinned with depth := 0, unhandled := [] }, .error x) := by
    rw [System.leave, if_pos hdepth, hdepth, show d.pinned.unhandled = [x] from hunhandled]
  refine ⟨_, within_step (step_pinned hframes), ?_, ?_, fun c => ?_⟩ <;> rw [frame, hleave] <;> rfl

end Delivery

end Statechart
