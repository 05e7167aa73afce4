import Statechart.Proofs.Ledgers
import Statechart.Proofs.Ownership
import Statechart.Proofs.Release

/-!
# Reports of an end

An actor that is done, or that has failed, reports so to its parent once, and nothing else is ever
reported of it (`Delivery.completion_reported_once`). What the report is made of does not change any
more (`Run.final`). It is sent to the parent if that can be found (`Run.sends`), and a parent that goes
on after it has taken the report no longer has the child (`Happens.releases`).
-/

namespace Statechart

/-! ## Names of reports -/

namespace Event

theorem completedChild?_doneActor (id : String) (output : Json) :
    (doneActor id output).completedChild? = some id := by
  simp [completedChild?, doneActor, platform, Text.stripStart?_append]

theorem completedChild?_errorPlatform (id : String) (data : Json) :
    (errorPlatform id data).completedChild? = some id := by
  have hnone : Text.stripStart? doneActorStart (platformErrorStart ++ id) = none := by
    simp [Text.stripStart?, doneActorStart, platformErrorStart, Text.after?]
  simp [completedChild?, errorPlatform, platform, hnone, Text.stripStart?_append]

/-- A report is no signal. -/
theorem Reports.name {event : Event} {c : String × Session} (h : event.Reports c) :
    event.name ≠ initName ∧ event.name ≠ stopName := by
  have hid := h.1
  unfold completedChild? at hid
  constructor
  all_goals
    intro hname
    rw [hname] at hid
    exact absurd hid (by simp [Text.stripStart?, Text.after?, doneActorStart, platformErrorStart,
      initName, stopName])

end Event

namespace Delivery

variable {s p c : Session} {a : Actor} {event : Event}

/-- What is to be told of an actor reports its end. -/
theorem completion_reports (hsession : a.session = s) (h : completion a = some event) :
    event.Reports (a.id, s) := by
  unfold completion at h
  split at h <;> cases h
  · exact ⟨Event.completedChild?_doneActor a.id (a.snapshot.output.getD .null),
      by rw [fromChild, hsession]⟩
  · exact ⟨Event.completedChild?_errorPlatform a.id (a.snapshot.error.getD .null),
      by rw [fromChild, hsession]⟩

theorem completion_ne_none :
    completion a ≠ none ↔ a.snapshot.status = .done ∨ a.snapshot.status = .error := by
  unfold completion
  split <;> simp_all

/-! ## Taking an event -/

section Taking

variable {sys sys' : System} {top : Option Frame} {rest xs : List Frame}

/-- What comes of an event that an actor takes. -/
inductive Processes (sys : System) (s : Session) (a : Actor) (event : Event) (sys' : System) : Prop
  | passed (hstop : event.name ≠ Event.stopName) (hinactive : a.snapshot.status ≠ .active)
      (hsnapshot : (sys'.actor s).snapshot = a.snapshot)
  | begun (hinit : event.name = Event.initName)
  | stopped (hstop : event.name = Event.stopName)
      (hsnapshot : (sys'.actor s).snapshot.status = .stopped)
  | reacted {m : Mailbox} {sys₀ sys₁ : System} {effects : List Effect}
      {failure : Option ActorError} (hstop : event.name ≠ Event.stopName)
      (hactive : a.snapshot.status = .active) (htook : sys.Puts s { a with mailbox := m } sys₀)
      (hreacts : Reacts sys₀ { a with mailbox := m } event sys₁ (sys'.actor s).snapshot effects
        failure)

theorem Moves.processes (h : Moves sys top sys' xs) (htakes : takes sys top s = some event) :
    ∃ a, sys.actor? s = some a ∧ Processes sys s a event sys' := by
  obtain rfl : top = some (.drain s) := by
    unfold takes at htakes
    split at htakes
    · rw [(Option.ite_none_right_eq_some.mp htakes).1]
    · cases htakes
  -- the event is the one that the mailbox hands out
  have hevent : ∀ {a : Actor} {m : Mailbox} {next : Option Event}, sys.actor? s = some a →
      a.mailbox.next = (m, next) → next = some event := by
    intro a m next ha hnext
    rw [(takes_drain ha).1, (Mailbox.taken_next hnext).1] at htakes
    exact htakes
  cases h with
  | idled htop => exact absurd (htop _ rfl).stage (by simp [Frame.stage])
  | called hcalls => cases hcalls
  | resumed hf => cases hf
  | posted hf => cases hf
  | emptied ha hnext => cases hevent ha hnext
  | passed ha hnext _ hstop hinactive hputs =>
      cases hevent ha hnext
      exact ⟨_, ha, .passed hstop hinactive (by rw [hputs.actor_self])⟩
  | begun ha hnext hinit =>
      cases hevent ha hnext
      exact ⟨_, ha, .begun hinit⟩
  | stopped ha hnext hstop _ hends hputs =>
      cases hevent ha hnext
      exact ⟨_, ha, .stopped hstop (by rw [hputs.actor_self]; exact hends.status)⟩
  | @reacted _ a _ _ _ _ _ next _ _ _ ha hnext _ hstop hactive htook hreacts hputs =>
      cases hevent ha hnext
      have hsnapshot : (sys'.actor s).snapshot = next := by rw [hputs.actor_self]
      exact ⟨a, ha, .reacted hstop hactive htook (hsnapshot ▸ hreacts)⟩

/-- Who is still active after a report of a child's end no longer has the child. -/
theorem Reacts.releases {child : Actor} {next : Snapshot} {effects : List Effect}
    {failure : Option ActorError} (h : Reacts sys a event sys' next effects failure)
    (hsound : sys.Sound) (ha : sys.actor? p = some a) (hc : sys.actor? c = some child)
    (hreports : event.Reports (child.id, c)) (hbefore : a.snapshot.status = .active)
    (hactive : next.status = .active) : c ∉ next.sessions := by
  have hsuits := hsound.suits p a ha
  obtain ⟨-, hnext, -⟩ := h.spec hsound ha
  have hown : ∀ k, (k, c) ∈ a.snapshot.children → k = child.id := by
    intro k hk
    obtain ⟨b, hb, hid, -⟩ := hsuits.children (k, c) hk
    rw [hc] at hb
    cases hb
    exact hid.symm
  suffices hgone : ∀ k, (k, c) ∉ next.children by
    intro hmem
    obtain ⟨⟨k, t⟩, hk, rfl⟩ := List.mem_map.mp hmem
    exact hgone k hk
  -- only machines have children
  have hvalue : ∀ v, next = .value v → ∀ k, (k, c) ∉ next.children := by
    rintro v rfl k hk
    cases hk
  cases h with
  | error h =>
      rw [Snapshot.status_failed] at hactive
      cases hactive
  | ok h =>
      cases next with
      | value v => exact hvalue v rfl
      | machine next =>
          cases hlogic : a.logic with
          | machine definition implementations =>
              cases hs : a.snapshot with
              | value v =>
                  rw [hlogic, hs] at hsuits
                  exact hsuits.elim
              | machine s =>
                  rw [hs] at hbefore hown
                  rw [hlogic, hs] at h hsuits
                  obtain ⟨hscope, hresult⟩ := Prod.mk.inj h
                  obtain ⟨s', hok, hs'⟩ := Except.map_eq_ok.mp hresult
                  cases hs'
                  have hbelongs := belongs_scopeOf hsound ha
                  exact Machine.transition_releases (Prod.ext hscope hok) sound_spawn hsound
                    (hbelongs p rfl).1.symm hbelongs hsuits hbefore hactive hreports.1 hreports.2
                    (hsound.fresh c child hc) hown
          | reducer initial step =>
              rw [hlogic] at hnext
              exact hnext.elim
          | task run =>
              rw [hlogic] at hnext
              exact hnext.elim

end Taking

/-! ## Runs -/

variable {d d' e : Delivery} {past before : List Delivery} {sys : System}

/-- What comes of an event that an actor takes. -/
theorem Happens.processes (h : d.Happens d') (hd : d.Sound) (htaking : d.taking s = some event) :
    ∃ sys a, d.system.Quiet sys ∧ sys.actor? s = some a ∧ Processes sys s a event d'.system := by
  obtain ⟨sys, top, rest, xs, hgoes⟩ := h.goes hd
  obtain ⟨a, ha, hprocesses⟩ := hgoes.moves.processes ((hgoes.takes s).trans htaking)
  exact ⟨sys, a, hgoes.quiet, ha, hprocesses⟩

/-- A parent that is still active after it has taken a report of a child's end no longer has the
child. -/
theorem Happens.releases (h : d.Happens d') (hd : d.Sound) (htaking : d.taking p = some event)
    {child : Actor} (hc : d.system.actor? c = some child) (hreports : event.Reports (child.id, c))
    (hactive : (d'.system.actor p).snapshot.status = .active) :
    c ∉ (d'.system.actor p).snapshot.sessions := by
  obtain ⟨sys, a, hquiet, ha, hprocesses⟩ := h.processes hd htaking
  have hsound : sys.Sound := hd.system.quiet hquiet
  cases hprocesses with
  | passed _ hinactive hsnapshot =>
      rw [hsnapshot] at hactive
      exact absurd hactive hinactive
  | begun hinit => exact absurd hinit hreports.name.1
  | stopped _ hsnapshot =>
      rw [hsnapshot] at hactive
      cases hactive
  | reacted _ hbefore htook hreacts =>
      have hsound₀ := hsound.puts htook ha rfl (hsound.suits p a ha)
      obtain ⟨child', hc', hbecomes⟩ :=
        (htook.follows ha rfl).actor c child ((hquiet.actor? c).trans hc)
      have hid : child'.id = child.id := by rw [hbecomes]
      exact hreacts.releases hsound₀ htook.self hc' (hid ▸ hreports) hbefore hactive

/-- Who takes the stop signal has a snapshot that says so. -/
theorem Happens.ends (h : d.Happens d') (hd : d.Sound) (htaking : d.taking s = some event)
    (hstop : event.name = Event.stopName) : (d'.system.actor s).snapshot.status = .stopped := by
  obtain ⟨sys, a, -, -, hprocesses⟩ := h.processes hd htaking
  cases hprocesses with
  | stopped _ hsnapshot => exact hsnapshot
  | begun hinit =>
      rw [hstop] at hinit
      exact absurd hinit (by decide)
  | passed hname => exact absurd hstop hname
  | reacted hname => exact absurd hstop hname

/-- A snapshot that says that its actor was stopped goes on saying so. -/
theorem Happens.ended (h : d.Happens d') (hd : d.Sound)
    (hstopped : (d.system.actor s).snapshot.status = .stopped) :
    (d'.system.actor s).snapshot.status = .stopped := by
  cases ha : d.system.actor? s with
  | none =>
      rw [System.actor, ha] at hstopped
      cases hstopped
  | some a =>
      obtain ⟨sys, top, rest, xs, hgoes⟩ := h.goes hd
      obtain ⟨a', ha', -, hevolves⟩ := (hgoes.evolution hd).actor s a ha
      rw [System.actor_eq ha] at hstopped
      rw [System.actor_eq ha']
      have hinactive : a.snapshot.status ≠ .active := by simp [hstopped]
      cases hevolves with
      | kept _ hsnapshot | started _ _ _ hsnapshot | closed _ _ hsnapshot => rwa [hsnapshot]
      | dismissed _ _ hsnapshot => rw [hsnapshot, Snapshot.status_stopped]
      | ended _ _ _ _ _ _ _ _ hfinal => exact hfinal
      | reacted _ _ _ _ hactive => exact absurd hactive hinactive
      | launched _ _ _ _ hsame => rwa [hsame hinactive]

/-- What an actor has told its parent in a run, if there is one, in order. -/
def toldOn (past : List Delivery) (s : Session) : List Event :=
  past.reverse.filterMap fun d => tells d.frames.head? s

theorem toldOn_cons (d : Delivery) (past : List Delivery) :
    toldOn (d :: past) = telling (toldOn past) d.frames.head? := by
  funext s
  rw [toldOn, List.reverse_cons, List.filterMap_append, telling]
  cases htells : tells d.frames.head? s <;> simp [htells, toldOn]

/-- What has been told was told in a step of the run, on top of what was still to be done. -/
theorem Run.tells {first : Delivery} (h : first.Run past d) (hevent : event ∈ toldOn past s) :
    ∃ e before after rest, past = after ++ e :: before ∧ e.frames = .tellParent s event :: rest ∧
      first.Run before e ∧ e.step.Run after d := by
  obtain ⟨e, he, htells⟩ := List.mem_filterMap.mp hevent
  obtain ⟨rest, hframes⟩ : ∃ rest, e.frames = .tellParent s event :: rest := by
    cases hall : e.frames with
    | nil =>
        rw [hall] at htells
        cases htells
    | cons top rest =>
        rw [hall] at htells
        cases top with
        | tellParent t told =>
            obtain ⟨rfl, rfl⟩ := Option.ite_some_none_eq_some.mp htells
            exact ⟨rest, rfl⟩
        | _ => cases htells
  obtain ⟨e', before, after, hbefore, hnext, hafter, hpast⟩ := h.goesOn (List.mem_reverse.mp he)
  obtain rfl := hnext.eq_step (by rw [hframes]; exact List.cons_ne_nil _ _)
  exact ⟨e, before, after, rest, hpast, hframes, hbefore, hafter⟩

/-- Who is told of an actor is its parent, if that can be found. -/
theorem tellParent_eq {sys : System} (ha : sys.actor? s = some a) (event : Event) :
    (∀ p, a.parent.bind sys.lookup? = some p → tellParent sys s event = send sys p event) ∧
      (a.parent.bind sys.lookup? = none → tellParent sys s event = done sys) := by
  rw [tellParent, System.actor_eq ha]
  refine ⟨fun p hp => ?_, fun hnone => ?_⟩
  · rw [hp]
  · rw [hnone]

/-- The account of a run. -/
theorem Run.ledger {sys : System} (hnil : sys.actors = []) (h : (done sys).Run past d) :
    Ledger d.frames.head? (toldOn past) d.system d.frames := by
  induction h with
  | refl =>
      refine ⟨fun _ _ => rfl, fun s a ha => ?_⟩
      rw [done, System.actor?, hnil] at ha
      cases ha
  | @next past d d' hbefore hnext ih =>
      have hd := (hbefore.reached (.fresh sys hnil)).sound
      obtain ⟨sys', top, rest, xs, hgoes⟩ := hnext.goes hd
      have hsys : Orderly (closing d.frames) sys' d.frames := hd.quiet hgoes.quiet
      have hledger := ih.quiet hgoes.quiet
      rw [hgoes.head.1, hgoes.frames] at hledger
      rw [hgoes.frames] at hsys
      rw [toldOn_cons, hgoes.head.1, hgoes.result]
      exact hgoes.moves.ledger hsys hgoes.outside hledger

/-- The snapshot of an actor that has been opened does not change any more once it is done or has
failed. -/
theorem Happens.final {told : Session → List Event} (h : d.Happens d') (hd : d.Sound)
    (hl : Ledger d.frames.head? told d.system d.frames)
    (hopened : (d.system.actor s).status ≠ .notStarted)
    (hfinal : completion (d.system.actor s) ≠ none) :
    (d'.system.actor s).snapshot = (d.system.actor s).snapshot := by
  cases ha : d.system.actor? s with
  | none =>
      rw [System.actor, ha] at hopened
      exact absurd rfl hopened
  | some a =>
      obtain ⟨sys, top, rest, xs, hgoes⟩ := h.goes hd
      obtain ⟨a', ha', -, hevolves⟩ := (hgoes.evolution hd).actor s a ha
      rw [System.actor_eq ha] at hopened hfinal ⊢
      rw [System.actor_eq ha']
      have hinactive : a.snapshot.status ≠ .active := fun hactive => by
        rw [completion, hactive] at hfinal
        exact hfinal rfl
      cases hevolves with
      | kept _ hsnapshot => exact hsnapshot
      | started _ hnew => exact absurd hnew hopened
      | dismissed hnew => exact absurd hnew hopened
      | closed _ _ hsnapshot => exact hsnapshot
      | reacted _ _ _ _ hactive => exact absurd hactive hinactive
      | launched _ _ _ _ hsame => exact hsame hinactive
      | @ended effects m event htop hrunning hnext hname =>
          -- the only signal that such an actor takes is the one that makes it begin
          obtain ⟨hhead, -⟩ := Mailbox.taken_next hnext
          rcases (hl.reporting s a ha).finishing hrunning hfinal with
            ⟨x, hx, hsettles⟩ | ⟨-, first, hfirst, hinit⟩
          · have hsys : Orderly (closing d.frames) d.system d.frames := hd
            rw [hgoes.frames, htop] at hsys hx
            have hnil : stages s rest = [] := Orderly.below_drain hsys ha
            obtain rfl : x = .drain := by
              simpa [stages_cons, Frame.stageOf, Frame.stage, hnil] using hx
            exact absurd mute_drain hsettles.not_mute
          · rw [hhead] at hfirst
            cases hfirst
            rw [hname] at hinit
            exact absurd hinit (by decide)

/-- Who is done or has failed keeps its snapshot. -/
theorem Run.final (hnil : sys.actors = []) (hbefore : (done sys).Run before e) (h : e.Run past d)
    (hopened : (e.system.actor s).status ≠ .notStarted)
    (hfinal : completion (e.system.actor s) ≠ none) :
    (d.system.actor s).snapshot = (e.system.actor s).snapshot := by
  have hfresh : Reached (done sys) := .fresh sys hnil
  induction h with
  | refl => rfl
  | next hbetween hnext ih =>
      have hwhole := hbefore.trans hbetween
      refine (hnext.final (hwhole.reached hfresh).sound (hwhole.ledger hnil)
        (hbetween.opened (hbefore.reached hfresh) hopened) ?_).trans ih
      rw [completion_ne_none] at hfinal ⊢
      rwa [ih]

/-- An actor is stopped: its snapshot says so, or it takes the stop signal. -/
def Halts (d : Delivery) (s : Session) : Prop :=
  (d.system.actor s).snapshot.status = .stopped ∨
    ∃ event, d.taking s = some event ∧ event.name = Event.stopName

/-- Whoever is stopped has a snapshot that says so in the end. -/
theorem Run.ended (h : e.Run past d) (he : Reached e) (hhalts : ∃ e ∈ past, e.Halts s) :
    (d.system.actor s).snapshot.status = .stopped := by
  induction h with
  | refl =>
      obtain ⟨e, hmem, -⟩ := hhalts
      cases hmem
  | @next past d d' hbefore hnext ih =>
      have hd := (hbefore.reached he).sound
      obtain ⟨e, hmem, hhalts⟩ := hhalts
      rcases List.mem_cons.mp hmem with rfl | hmem
      · rcases hhalts with hstopped | ⟨event, htaking, hstop⟩
        · exact hnext.ended hd hstopped
        · exact hnext.ends hd htaking hstop
      · exact hnext.ended hd (ih ⟨e, hmem, hhalts⟩)

/-- What has been told of an actor is what its snapshot says, and is told once. -/
theorem Reporting.told {head : Option Frame} {told : List Event} {frames : List Frame}
    (h : Reporting head told frames s a) :
    told = [] ∨ ∃ event, completion a = some event ∧ told = [event] := by
  have hbalance := h.balance
  unfold due at hbalance
  split at hbalance
  · cases hcompletion : completion a with
    | none =>
        rw [hcompletion] at hbalance
        exact .inl (List.append_eq_nil_iff.mp hbalance).1
    | some event =>
        rw [hcompletion] at hbalance
        rcases List.append_eq_singleton_iff.mp hbalance with ⟨hnone, -⟩ | ⟨hsome, -⟩
        · exact .inl hnone
        · exact .inr ⟨event, rfl, hsome⟩
  · exact .inl (List.append_eq_nil_iff.mp hbalance).1

theorem Reporting.reports {head : Option Frame} {told : List Event} {frames : List Frame}
    (h : Reporting head told frames s a) (hevent : event ∈ told) : completion a = some event := by
  rcases h.told with hnone | ⟨told, hcompletion, htold⟩
  · rw [hnone] at hevent
    cases hevent
  · rw [htold] at hevent
    rw [List.mem_singleton.mp hevent, hcompletion]

/-- Without frames nothing is left to be told. -/
theorem Reporting.idle {told : List Event} (h : Reporting none told [] s a) :
    (a.status = .running → completion a = none) ∧
      (a.status = .stopped → told = (completion a).toList) := by
  constructor
  · intro hrunning
    by_contra hfinal
    rcases h.finishing hrunning hfinal with ⟨x, hx, -⟩ | ⟨hhead, -⟩
    · cases hx
    · cases hhead
  · intro hstopped
    have hbalance := h.balance
    rw [due, if_pos (.inl hstopped), owed_nil, List.append_nil] at hbalance
    exact hbalance

/-- What has been told of an actor was sent to its parent, if that could be found. -/
theorem Run.sends {first : Delivery} (h : first.Run past d) (hfirst : Reached first)
    (ha : d.system.actor? s = some a) (hevent : event ∈ toldOn past s) :
    ∃ e before after rest, past = after ++ e :: before ∧
      e.frames = .tellParent s event :: rest ∧ e.step.Run after d ∧
      (∀ p, a.parent.bind e.pinned.lookup? = some p →
        e.step = (send e.pinned p event).before rest) ∧
      (a.parent.bind e.pinned.lookup? = none → e.step = (done e.pinned).before rest) := by
  obtain ⟨e, before, after, rest, hpast, hframes, hbefore, hafter⟩ := h.tells hevent
  have he := hbefore.reached hfirst
  have hmem : .tellParent s event ∈ e.frames := by
    rw [hframes]
    exact List.mem_cons_self
  obtain ⟨b, hb⟩ := he.sound.known _ hmem s .tell rfl
  -- an actor has the same parent at all times
  have hfollows : e.system.Follows d.system :=
    ((Happens.step e).follows he.sound).trans (hafter.follows (he.next (.step e)))
  obtain ⟨a', ha', hbecomes⟩ := hfollows.actor s b hb
  rw [ha] at ha'
  cases ha'
  have hparent : a.parent = b.parent := by rw [hbecomes]
  have hpinned : e.pinned.actor? s = some b := hb
  have hstep : e.step = (tellParent e.pinned s event).before rest := step_pinned hframes
  obtain ⟨hsends, hnothing⟩ := tellParent_eq hpinned event
  refine ⟨e, before, after, rest, hpast, hframes, hafter, fun p hp => ?_, fun hp => ?_⟩
  · rw [hparent] at hp
    rw [hstep, hsends p hp]
  · rw [hparent] at hp
    rw [hstep, hnothing hp]

/-- An actor is reported to its parent at most once: what is told is what its snapshot says, which
does not change any more once it is done or has failed. When no call is in progress, an actor that
has such a snapshot and has begun is stopped and has told it. An actor that is stopped tells
nothing. Who takes the report, and is active afterwards, no longer has the child.

To tell the report is to send it to the parent, if that can be found then, and else to do nothing. -/
theorem completion_reported_once (hnil : sys.actors = []) (h : (done sys).Run past d)
    (ha : d.system.actor? s = some a) :
    (toldOn past s = [] ∨ ∃ event, completion a = some event ∧ toldOn past s = [event]) ∧
    (d.frames = [] → (a.status = .running → completion a = none) ∧
      (a.status = .stopped → toldOn past s = (completion a).toList)) ∧
    (∀ e ∈ past, (e.system.actor s).status ≠ .notStarted → completion (e.system.actor s) ≠ none →
      a.snapshot = (e.system.actor s).snapshot) ∧
    ((∃ e ∈ past, e.Halts s) → toldOn past s = []) ∧
    (∀ event ∈ toldOn past s, event.Reports (a.id, s) ∧ ∀ d' p, d.Happens d' →
      d.taking p = some event → (d'.system.actor p).snapshot.status = .active →
        s ∉ (d'.system.actor p).snapshot.sessions) ∧
    ∀ event ∈ toldOn past s, ∃ e before after rest, past = after ++ e :: before ∧
      e.frames = .tellParent s event :: rest ∧ e.step.Run after d ∧
      (∀ p, a.parent.bind e.pinned.lookup? = some p →
        e.step = (send e.pinned p event).before rest) ∧
      (a.parent.bind e.pinned.lookup? = none → e.step = (done e.pinned).before rest) := by
  have hfresh : Reached (done sys) := .fresh sys hnil
  have hd := (h.reached hfresh).sound
  have hreporting := (h.ledger hnil).reporting s a ha
  refine ⟨hreporting.told, fun hidle => ?_, fun e he hopened hfinal => ?_, fun hhalts => ?_,
    fun event hevent => ?_, fun event hevent => ?_⟩
  · rw [hidle] at hreporting
    exact hreporting.idle
  · obtain ⟨before, after, hbefore, hafter, -⟩ := h.split he
    rw [← System.actor_eq ha]
    exact Run.final hnil hbefore hafter hopened hfinal
  · have hstopped := h.ended hfresh hhalts
    rw [System.actor_eq ha] at hstopped
    refine hreporting.told.resolve_right ?_
    rintro ⟨event, hcompletion, -⟩
    rw [completion, hstopped] at hcompletion
    cases hcompletion
  · have hreports := completion_reports (hd.system.keyed s a ha) (hreporting.reports hevent)
    exact ⟨hreports, fun d' p hnext htaking hactive =>
      hnext.releases hd htaking ha hreports hactive⟩
  · exact h.sends hfresh ha hevent

/-- A behaviour that is done as soon as it starts. -/
def errand : Logic := .task fun _ input => { result := .ok input }

/-- An office whose worker only has an errand to run. -/
def errandOffice : Logic :=
  .machine ((Definition.build (officeConfig [])).toOption.getD default)
    { (default : Implementations Logic) with actors := fun _ => some errand }

/-- Such an office that has been opened, with what has happened before. -/
def errandRun : List Delivery × Delivery := startRun errandOffice 40

set_option maxRecDepth 100000 in
/-- The worker of the office reports once that its errand is run. The office is found, is sent the
report, and lets the worker go. -/
theorem errand_reported :
    (toldOn errandRun.1 ⟨1⟩).map Event.name = ["done.actor.c"] ∧
      (errandRun.2.system.actor ⟨0⟩).snapshot.sessions = [] ∧
      ∀ event ∈ toldOn errandRun.1 ⟨1⟩, ∃ e ∈ errandRun.1, ∃ rest,
        e.frames = .tellParent ⟨1⟩ event :: rest ∧ e.step = (send e.pinned ⟨0⟩ event).before rest := by
  have hrun : (done {}).Run errandRun.1 errandRun.2 := run_startRun errandOffice 40
  have hidle : errandRun.2.frames.isEmpty = true := by decide +kernel
  obtain ⟨a, ha⟩ : ∃ a, errandRun.2.system.actor? ⟨1⟩ = some a :=
    Option.isSome_iff_exists.mp (by decide +kernel)
  have hactor : errandRun.2.system.actor ⟨1⟩ = a := System.actor_eq ha
  have hstopped : (errandRun.2.system.actor ⟨1⟩).status = .stopped := by decide +kernel
  have hname : ((completion (errandRun.2.system.actor ⟨1⟩)).toList).map Event.name =
      ["done.actor.c"] := by decide +kernel
  have hparent : (errandRun.2.system.actor ⟨1⟩).parent = some ⟨0⟩ := by decide +kernel
  have hfound : ∀ e ∈ errandRun.1, (tells e.frames.head? ⟨1⟩).isSome = true →
      e.pinned.lookup? ⟨0⟩ = some ⟨0⟩ := by
    decide +kernel
  rw [hactor] at hstopped hname hparent
  obtain ⟨-, htold, -, -, -, hsends⟩ := completion_reported_once rfl hrun ha
  refine ⟨?_, by decide +kernel, fun event hevent => ?_⟩
  · rw [(htold (List.isEmpty_iff.mp hidle)).2 hstopped]
    exact hname
  · obtain ⟨e, before, after, rest, hpast, hframes, -, hsent, -⟩ := hsends event hevent
    have he : e ∈ errandRun.1 := by
      rw [hpast]
      exact List.mem_append_right _ List.mem_cons_self
    have htells : (tells e.frames.head? ⟨1⟩).isSome = true := by
      rw [hframes]
      rfl
    refine ⟨e, he, rest, hframes, hsent ⟨0⟩ ?_⟩
    rw [hparent]
    exact hfound e he htells

end Delivery

end Statechart
