import Statechart.Proofs.Running

/-!
# How mailboxes are worked off

Events are taken one at a time by the frame that works off a mailbox (`Delivery.taking`), and each
is processed to its end before the next one is taken. The log of a mailbox accounts for what its
actor has processed in a run (`Run.taken`), so that what it says of the order of events holds of
their processing.
-/

namespace Statechart

/-! ## Mailboxes -/

namespace Mailbox

variable {m m' : Mailbox}

theorem taken_cons {p : Posting} (h : m'.journal = p :: m.journal) :
    takenIn m'.log = takenIn m.log ++ p.taken?.toList := by
  rw [log_cons h, takenIn, takenIn, List.filterMap_append]
  cases hp : p.taken? <;> simp [hp]

theorem Turns.taken {c : Call} (h : m.Turns c m') : takenIn m'.log = takenIn m.log := by
  have hpush : ∀ event, takenIn (m.push event).log = takenIn m.log := fun event =>
    (taken_cons rfl).trans (List.append_nil _)
  cases h with
  | sent event defer =>
      unfold enqueue
      split
      · rfl
      · split
        · exact hpush event
        · rfl
      · exact hpush event
  | started hstart =>
      obtain ⟨-, hm⟩ := Option.ite_none_right_eq_some.mp hstart
      cases hm
      exact (taken_cons rfl).trans (List.append_nil _)
  | stopAsked => exact (taken_cons rfl).trans (List.append_nil _)

theorem taken_beginFlush (h : m.beginFlush? = some m') : takenIn m'.log = takenIn m.log := by
  obtain ⟨-, hm⟩ := Option.ite_none_left_eq_some.mp h
  cases hm
  rfl

theorem taken_close (m : Mailbox) : takenIn m.close.log = takenIn m.log :=
  (taken_cons rfl).trans (List.append_nil _)

/-- What is taken is logged. -/
theorem taken_next {event? : Option Event} (h : m.next = (m', event?)) :
    m.queue.head? = event? ∧ takenIn m'.log = takenIn m.log ++ event?.toList := by
  rcases next_eq h with ⟨hqueue, rfl, rfl⟩ | ⟨event, rfl, hqueue, hm⟩
  · rw [hqueue]
    exact ⟨rfl, (List.append_nil _).symm⟩
  · rw [hqueue]
    exact ⟨rfl, taken_cons (p := .taken _) (by rw [hm])⟩

end Mailbox

namespace Delivery

/-! ## Taking events -/

/-- The event that an actor takes next, if its mailbox is worked off on top. -/
def takes (sys : System) (top : Option Frame) (s : Session) : Option Event :=
  match top with
  | some (.drain t) => if t = s then (sys.actor s).mailbox.queue.head? else none
  | _ => none

/-- The event that an actor is about to take. -/
def taking (d : Delivery) (s : Session) : Option Event := takes d.system d.frames.head? s

/-- The events that an actor has taken in a run, in order. -/
def takenOn (past : List Delivery) (s : Session) : List Event :=
  past.reverse.filterMap fun d => d.taking s

variable {sys sys' : System} {top : Option Frame} {rest xs : List Frame}

/-- Only what is taken from a mailbox is added to what its log says was taken. -/
def Logs (sys : System) (top : Option Frame) (sys' : System) : Prop :=
  ∀ t, takenIn (sys'.actor t).mailbox.log =
    takenIn (sys.actor t).mailbox.log ++ (takes sys top t).toList

theorem logs_same (htop : ∀ t, takes sys top t = none)
    (hmailbox : ∀ t, (sys'.actor t).mailbox = (sys.actor t).mailbox) : Logs sys top sys' := by
  intro t
  rw [hmailbox, htop, Option.toList_none, List.append_nil]

theorem logs_quiet (htop : ∀ t, takes sys top t = none) (h : sys.Quiet sys') : Logs sys top sys' :=
  logs_same htop fun t => by rw [h.actor t]

theorem logs_alters {s : Session} {a a' : Actor} (h : sys.Alters s a' sys')
    (ha : sys.actor? s = some a) (htop : ∀ t, t ≠ s → takes sys top t = none)
    (hself : takenIn a'.mailbox.log = takenIn a.mailbox.log ++ (takes sys top s).toList) :
    Logs sys top sys' := by
  intro t
  by_cases hts : t = s
  · rw [hts, System.actor_eq h.self, System.actor_eq ha]
    exact hself
  · have hmailbox : (sys'.actor t).mailbox = (sys.actor t).mailbox := by
      cases hb : sys.actor? t with
      | some b => rw [System.actor_eq hb, System.actor_eq (h.kept t b hts hb)]
      | none =>
          cases hb' : sys'.actor? t with
          | none => rw [System.actor, System.actor, hb, hb']
          | some b =>
              rw [System.actor_eq hb', System.actor, hb]
              rcases h.added t b hts hb' with hold | ⟨-, hnew⟩
              · rw [hb] at hold
                cases hold
              · exact hnew
    rw [hmailbox, htop t hts, Option.toList_none, List.append_nil]

/-- What an actor takes when its mailbox is worked off. -/
theorem takes_drain {s : Session} {a : Actor} (ha : sys.actor? s = some a) :
    takes sys (some (.drain s)) s = a.mailbox.queue.head? ∧
      ∀ t, t ≠ s → takes sys (some (.drain s)) t = none := by
  refine ⟨?_, fun t hts => if_neg hts.symm⟩
  rw [takes, if_pos rfl, System.actor_eq ha]

theorem Answered.logs {t : Session} {c : Call} (h : Answered sys t c sys' xs) (hsound : sys.Sound)
    (htop : ∀ s, takes sys top s = none) : Logs sys top sys' := by
  have hnone : ∀ {log : List Posting} (s : Session),
      takenIn log = takenIn log ++ (takes sys top s).toList := fun s => by
    rw [htop s, Option.toList_none, List.append_nil]
  cases h with
  | refused hquiet _ _ => exact logs_quiet htop hquiet
  | posted ha hturns _ hputs _ =>
      exact logs_alters (hputs.alters hsound ha rfl rfl) ha (fun s _ => htop s)
        (hturns.taken.trans (hnone _))
  | claimed ha hturns hbegin hputs =>
      exact logs_alters (hputs.alters hsound ha rfl rfl) ha (fun s _ => htop s)
        ((Mailbox.taken_beginFlush hbegin).trans (hturns.taken.trans (hnone _)))
  | @halted a sys' ha hstatus hputs =>
      have halters : sys.Alters t { a with snapshot := a.snapshot.stopped } sys' :=
        hsound.thrives.alters hputs hsound ha rfl (hsound.suits t a ha).stopped
      exact logs_alters halters ha (fun s _ => htop s) (hnone _)

/-- What the mailbox that is worked off hands out is what its actor takes. -/
theorem logs_next {s : Session} {a a' : Actor} {m : Mailbox} {next : Option Event}
    (h : sys.Alters s a' sys') (ha : sys.actor? s = some a) (hnext : a.mailbox.next = (m, next))
    (hlog : takenIn a'.mailbox.log = takenIn m.log) : Logs sys (some (.drain s)) sys' := by
  obtain ⟨hself, hother⟩ := takes_drain ha
  obtain ⟨hhead, htaken⟩ := Mailbox.taken_next hnext
  refine logs_alters h ha hother ?_
  rw [hlog, htaken, hself, hhead]

/-- Who makes a call takes nothing. -/
theorem Calls.takes {t : Session} {c : Call} {below : List Frame} (h : Calls sys top t c below) :
    ∀ {sys₀ : System} (s), Delivery.takes sys₀ top s = none := by
  intro sys₀ s
  cases h <;> rfl

theorem takes_plain (htop : ∀ f, top = some f → f.Plain) (s : Session) : takes sys top s = none := by
  cases top with
  | none => rfl
  | some f =>
      have hstage := (htop f rfl).stage
      cases f with
      | drain t => cases hstage
      | _ => rfl

theorem takes_aside {f : Frame} {s : Session} (hf : f.Aside s) (t : Session) :
    takes sys (some f) t = none := by
  cases f with
  | drain t => cases hf
  | _ => rfl

/-- A move takes an event if it works off a mailbox, and else takes none. -/
theorem Moves.logs (h : Moves sys top sys' xs)
    (hd : Orderly (closing (top.toList ++ rest)) sys (top.toList ++ rest)) : Logs sys top sys' := by
  have hsound := hd.system
  cases h with
  | idled htop hquiet _ => exact logs_quiet (takes_plain htop) hquiet
  | grown h => exact logs_same (fun _ => rfl) h.grown.mailbox
  | watched _ ha hputs =>
      exact logs_alters (hputs.alters hsound ha rfl rfl) ha (fun _ _ => rfl) (List.append_nil _).symm
  | called hcalls hquiet h =>
      -- the call itself takes nothing, so all that counts is what its answer does
      have hlogs : Logs _ none sys' := h.logs (hsound.quiet hquiet) fun _ => rfl
      intro t
      rw [hlogs t, hquiet.actor t, hcalls.takes]
      rfl
  | resumed hf hquiet _ => exact logs_quiet (takes_aside hf) hquiet
  | posted hf ha hputs =>
      refine logs_alters (hputs.alters hsound ha rfl rfl) ha (fun t _ => takes_aside hf t) ?_
      rw [takes_aside hf, Option.toList_none, List.append_nil]
      exact (Mailbox.Turns.sent _ true).taken
  | performed _ h =>
      exact logs_same (fun _ => rfl) fun t => by rw [System.actor, System.actor, h.actor? t]
  | emptied ha hnext hputs | passed ha hnext _ _ _ hputs | begun ha hnext _ hputs =>
      exact logs_next (hputs.alters hsound ha rfl rfl) ha hnext rfl
  | stopped ha hnext _ htook hends hputs =>
      exact logs_next (hends.alters hsound ha htook hputs) ha hnext (Mailbox.taken_close _)
  | reacted ha hnext _ _ _ htook hreacts hputs =>
      exact logs_next (hreacts.alters hsound ha htook hputs) ha hnext rfl
  | @launched s snapshot a sys₁ sys' next effects failure ha hlaunches hputs =>
      have hd : Orderly none sys (.launch s snapshot :: rest) := hd
      exact logs_alters (hlaunches.alters hsound ha (hd.launching ha) hputs) ha (fun _ _ => rfl)
        (List.append_nil _).symm
  | halted ha hputs =>
      exact logs_alters (hputs.alters hsound ha rfl rfl) ha (fun _ _ => rfl)
        ((Mailbox.taken_close _).trans (List.append_nil _).symm)
  | retired hactors _ _ _ =>
      exact logs_same (fun _ => rfl) fun t => by rw [System.actor, System.actor, hactors t]
  | finished ha hputs =>
      exact logs_alters (hputs.alters hsound ha rfl rfl) ha (fun _ _ => rfl) (List.append_nil _).symm
  | interrupted => exact logs_quiet (fun _ => rfl) (.refl sys)
  | exhausted hquiet | settled hquiet | done hquiet | broken hquiet | reported hquiet
  | untold hquiet => exact logs_quiet (fun _ => rfl) hquiet

/-! ## Runs -/

variable {d d' : Delivery} {past : List Delivery}

/-- The move takes what the delivery is about to take. -/
theorem Goes.takes (h : d.Goes d' sys top rest xs) (s : Session) :
    Delivery.takes sys top s = d.taking s := by
  rw [taking, h.head.1]
  unfold Delivery.takes
  split
  · rw [h.quiet.actor s]
  · rfl

/-- What happens is logged. -/
theorem Happens.logs (h : d.Happens d') (hd : d.Sound) (s : Session) :
    takenIn (d'.system.actor s).mailbox.log =
      takenIn (d.system.actor s).mailbox.log ++ (d.taking s).toList := by
  obtain ⟨sys, top, rest, xs, hgoes⟩ := h.goes hd
  have hsys : Orderly (closing d.frames) sys d.frames := hd.quiet hgoes.quiet
  rw [hgoes.frames] at hsys
  rw [hgoes.moves.logs hsys s, hgoes.quiet.actor s, hgoes.takes]

/-- The log of a mailbox says what its actor has taken. -/
theorem Run.taken (hnil : sys.actors = []) (h : (done sys).Run past d) (s : Session) :
    takenIn (d.system.actor s).mailbox.log = takenOn past s := by
  induction h with
  | refl =>
      have hnone : (done sys).system.actor s = default := by
        rw [done, System.actor, System.actor?, hnil]
        rfl
      rw [hnone]
      rfl
  | @next past d d' hbefore hnext ih =>
      rw [hnext.logs (hbefore.reached (.fresh sys hnil)).sound s, ih, takenOn, takenOn,
        List.reverse_cons, List.filterMap_append]
      cases htaking : d.taking s <;> simp [htaking]

/-- An actor takes an event only when it goes on with nothing else. What it takes is, in order, the
init signal and what its mailbox accepts, and nothing is passed over until a request to stop or the
close of the mailbox. When no call is in progress, nothing is left for an actor that runs. -/
theorem mailboxes_worked_off (hnil : sys.actors = []) (h : (done sys).Run past d) :
    (∀ s event, d.taking s = some event → ∀ f ∈ d.frames.tail, ∀ x, f.stage ≠ some (s, x)) ∧
    (∀ s a, d.system.actor? s = some a →
      takenIn a.mailbox.log = takenOn past s ∧ a.mailbox.InOrder) ∧
    (d.frames = [] → ∀ s a, d.system.actor? s = some a →
      a.mailbox.flushing = false ∧ (a.status = .running → a.mailbox.queue = [])) := by
  have hd := (h.reached (.fresh sys hnil)).sound
  refine ⟨fun s event htaking f hf x hstage => ?_, fun s a ha => ⟨?_, ?_⟩,
    fun hidle s a ha => hd.settled hidle ha⟩
  · unfold taking takes at htaking
    split at htaking
    · rename_i t htop
      obtain ⟨rfl, hhead⟩ := Option.ite_none_right_eq_some.mp htaking
      obtain ⟨rest, hframes⟩ := List.head?_eq_some_iff.mp htop
      have hd : Orderly (closing d.frames) d.system d.frames := hd
      rw [hframes] at hd hf
      have hf : f ∈ rest := hf
      obtain ⟨a, ha⟩ := hd.known _ List.mem_cons_self t _ rfl
      have hnone := hd.below_drain ha
      have hmem := mem_stages.mpr ⟨f, hf, hstage⟩
      rw [hnone] at hmem
      cases hmem
    · cases htaking
  · rw [← h.taken hnil s, System.actor_eq ha]
  · exact (hd.attended s a ha).kept.accounted.inOrder

/-- A behaviour that sends itself a second event for every first one. -/
def echo : Logic := .reducer (fun _ => .null) fun scope _ event =>
  { result := .null
    sends := if event.name = "FIRST" then [(.actor scope.session, .named "SECOND")] else [] }

set_option maxRecDepth 100000 in
/-- An actor is sent an event before it starts, and sends itself another one before it is stopped.
All of it is taken in order, and nothing is left. -/
theorem echo_worked_off : ∃ past d a, (done {}).Run past d ∧ d.system.actor? ⟨0⟩ = some a ∧
    (takenOn past ⟨0⟩).map Event.name = ["chart.init", "FIRST", "SECOND", "chart.stop"] ∧
    a.mailbox.InOrder ∧ a.mailbox.flushing = false := by
  have hmade : (done {}).Run _ _ := Run.refl.next (.make _ rfl echo {})
  have hsent := hmade.next (.call _ rfl ⟨0⟩ (.send (.named "FIRST")))
  have hstarted := (hsent.next (.call _ rfl ⟨0⟩ .start)).goOn 22
  have hstopped := (hstarted.next (.call _ rfl ⟨0⟩ .stop)).goOn 12
  obtain ⟨-, horder, hidle⟩ := mailboxes_worked_off rfl hstopped
  obtain ⟨htaken, hinOrder⟩ := horder ⟨0⟩ _ rfl
  exact ⟨_, _, _, hstopped, rfl, rfl, hinOrder, (hidle rfl ⟨0⟩ _ rfl).1⟩

end Delivery

end Statechart
