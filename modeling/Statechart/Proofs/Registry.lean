import Statechart.Proofs.Aliveness
import Statechart.Proofs.Running

/-!
# Who is registered

An actor is registered when it is made and forgotten when it retires, which it does only after it
has been closed. So whoever has not stopped is registered (`Delivery.Reached.enrolled`), and is found
as long as it is kept (`Delivery.Reached.finds`).
-/

namespace Statechart

namespace System

/-- Nobody has been forgotten, and whoever has been made is registered. -/
structure Enrols (sys sys' : System) : Prop where
  registered : ∀ n ∈ sys.registered, n ∈ sys'.registered
  made : ∀ t a, sys'.actor? t = some a → sys.actor? t = some a ∨ t.number ∈ sys'.registered

/-- Whoever has not stopped is registered. -/
def Enrolled (sys : System) : Prop :=
  ∀ s a, sys.actor? s = some a → a.status ≠ .stopped → s.number ∈ sys.registered

variable {sys sys' : System}

theorem enrols_same (hactors : sys'.actors = sys.actors)
    (hregistered : sys'.registered = sys.registered) : sys.Enrols sys' where
  registered n hn := hregistered ▸ hn
  made t a ha := .inl (by rwa [actor?, ← hactors])

/-- Behaviours only have actors made that are registered. -/
theorem carried_enrols : Carried Enrols where
  refl _ := enrols_same rfl rfl
  trans h h' :=
    { registered := fun n hn => h'.registered n (h.registered n hn)
      made := fun t a ha => (h'.made t a ha).elim
        (fun ha => (h.made t a ha).imp_right (h'.registered _)) .inr }
  pins _ _ := enrols_same rfl rfl
  record _ _ := enrols_same rfl rfl
  newSession _ := enrols_same rfl rfl
  register sys a :=
    { registered := fun n hn => by
        rw [registered_register, NodeSet.mem_insert]
        exact .inr hn
      made := fun t b hb => by
        rw [actor?_register] at hb
        split at hb
        · rename_i heq
          rw [registered_register, NodeSet.mem_insert, heq]
          exact .inr (.inl rfl)
        · exact .inl hb }

theorem Enrolled.enrols (h : sys.Enrolled) (henrols : sys.Enrols sys') : sys'.Enrolled :=
  fun s a ha hopen => (henrols.made s a ha).elim
    (fun ha => henrols.registered _ (h s a ha hopen)) id

theorem Enrolled.same (h : sys.Enrolled) (hactors : ∀ t, sys'.actor? t = sys.actor? t)
    (hregistered : sys'.registered = sys.registered) : sys'.Enrolled := by
  intro s a ha hopen
  rw [hregistered]
  exact h s a (hactors s ▸ ha) hopen

theorem Enrolled.quiet (h : sys.Enrolled) (hquiet : sys.Quiet sys') : sys'.Enrolled :=
  h.same hquiet.actor? hquiet.registered

/-- An actor may change, as long as it is not opened again. -/
theorem Enrolled.puts (h : sys.Enrolled) {s : Session} {a a' : Actor} (ha : sys.actor? s = some a)
    (hputs : sys.Puts s a' sys') (hstatus : a.status = .stopped → a'.status = .stopped) :
    sys'.Enrolled := by
  intro t b hb hopen
  rw [hputs.registered]
  rw [hputs.actor? t] at hb
  split at hb
  · rename_i heq
    cases hb
    rw [← heq]
    exact h s a ha fun hstopped => hopen (hstatus hstopped)
  · exact h t b hb hopen

end System

namespace Delivery

open Statechart.System (Carried carried_enrols)

variable {sys sys' : System} {rest xs : List Frame}

/-! ## Behaviours -/

section Behaviours

variable {R : System → System → Prop} (hR : Carried R) {a : Actor} {event : Event}
  {snapshot next : Snapshot} {effects : List Effect} {failure : Option ActorError}
include hR

theorem Reacts.carries (h : Reacts sys a event sys' next effects failure) : R sys sys' := by
  have hall := Logic.transition_carries hR (spawn_carries hR) (scopeOf sys a) a.snapshot event
    a.logic
  cases h with
  | ok h | error h => rwa [h] at hall

theorem Launches.carries (h : Launches sys a snapshot sys' next effects failure) : R sys sys' := by
  have hall := Logic.start_carries hR (scopeOf sys a) snapshot a.logic
  cases h with
  | ok h | error h => rwa [h] at hall

theorem Ends.carries (h : Ends sys a sys' next effects) : R sys sys' := by
  have hall := Logic.stop_carries hR (spawn_carries hR) (scopeOf sys a) a.snapshot a.logic
  cases h with
  | ok h | error h => rwa [h] at hall

end Behaviours

/-! ## Moves -/

/-- Whatever comes of a call opens no actor again. -/
theorem Answered.enrolled {t : Session} {c : Call} (h : Answered sys t c sys' xs)
    (hsys : sys.Enrolled) : sys'.Enrolled := by
  have hturns : ∀ {m m' : Mailbox}, m.Turns c m' → m.status = .stopped → m'.status = .stopped := by
    intro m m' hturns hstopped
    rcases hturns.status with hstatus | ⟨-, hnew, -⟩
    · rw [hstatus, hstopped]
    · rw [hstopped] at hnew
      cases hnew
  cases h with
  | refused hquiet _ _ => exact hsys.quiet hquiet
  | posted ha hturned _ hputs _ => exact hsys.puts ha hputs (hturns hturned)
  | claimed ha hturned hbegin hputs =>
      exact hsys.puts ha hputs fun hstopped =>
        absurd hstopped (hturned.open (Mailbox.running_of_beginFlush hbegin))
  | halted ha _ hputs => exact hsys.puts ha hputs id

/-- A frame forgets an actor only after it has been closed. -/
theorem Moves.enrolled {f : Frame} (h : Moves sys (some f) sys' xs)
    (hd : Orderly (closing (f :: rest)) sys (f :: rest)) (hsys : sys.Enrolled) :
    sys'.Enrolled := by
  cases h with
  | called hcalls hquiet h => exact h.enrolled (hsys.quiet hquiet)
  | posted _ ha hputs =>
      exact hsys.puts ha hputs fun hstopped => (Mailbox.enqueue_flushing _ _ _).2.trans hstopped
  | performed _ h => exact hsys.same h.actor? h.registered
  | interrupted => exact hsys
  | emptied ha hnext hputs =>
      exact hsys.puts ha hputs fun hstopped =>
        (Mailbox.continues_empty hnext).status.trans hstopped
  | passed ha hnext _ _ _ hputs | begun ha hnext _ hputs =>
      exact hsys.puts ha hputs fun hstopped =>
        (congrArg Mailbox.status (Mailbox.next_some hnext).2).trans hstopped
  | stopped ha hnext _ htook hends hputs =>
      have hmailbox := (congrArg Mailbox.status (Mailbox.next_some hnext).2)
      have htaken := hsys.puts ha htook fun hstopped => hmailbox.trans hstopped
      have hended := htaken.enrols (hends.carries carried_enrols)
      obtain ⟨hthrives, -⟩ := hends.spec (htook.alters hd.system ha rfl rfl).sound htook.self
      exact hended.puts (hthrives.grown.kept _ _ htook.self) hputs fun _ => rfl
  | reacted ha hnext _ _ _ htook hreacts hputs =>
      have hmailbox := (congrArg Mailbox.status (Mailbox.next_some hnext).2)
      have htaken := hsys.puts ha htook fun hstopped => hmailbox.trans hstopped
      have hreacted := htaken.enrols (hreacts.carries carried_enrols)
      obtain ⟨hthrives, -⟩ := hreacts.spec (htook.alters hd.system ha rfl rfl).sound htook.self
      exact hreacted.puts (hthrives.grown.kept _ _ htook.self) hputs id
  | @launched s snapshot a sys₁ sys' next effects failure ha hlaunches hputs =>
      have hd : Orderly none sys (.launch s snapshot :: rest) := hd
      have hlaunched := hsys.enrols (hlaunches.carries carried_enrols)
      obtain ⟨hthrives, -⟩ := hlaunches.spec hd.system (hd.launching ha ▸ hd.system.suits s a ha)
      exact hlaunched.puts (hthrives.grown.kept _ _ ha) hputs id
  | halted ha hputs => exact hsys.puts ha hputs fun _ => rfl
  | @retired s sys' hactors _ hregistered _ =>
      have hd : Orderly none sys (.retire s :: rest) := hd
      intro t a ha hopen
      rw [hactors t] at ha
      rw [hregistered, NodeSet.mem_erase]
      refine ⟨fun hnumber => ?_, hsys t a ha hopen⟩
      obtain rfl : t = s := congrArg Session.mk hnumber
      -- the frame is on top only when the actor has been closed
      have hstaged := hd.staged (f := .retire t) rfl ha
      have hstopped := hstaged.stopped .retire List.mem_cons_self (by simp [Stage.Final])
      exact hopen (hstopped.resolve_right fun h => by cases h)
  | finished ha hputs => exact hsys.puts ha hputs id
  | idled _ hquiet | resumed _ hquiet | exhausted hquiet | settled hquiet | done hquiet
  | broken hquiet | reported hquiet | untold hquiet => exact hsys.quiet hquiet

/-! ## Runs -/

variable {d d' : Delivery}

theorem enrolled_step (hd : d.Sound) (h : d.system.Enrolled) : d.step.system.Enrolled := by
  cases hframes : d.frames with
  | nil => rwa [step, hframes]
  | cons top rest =>
      have hquiet := quiet_pins d.system (pins (top :: rest))
      have hd : Orderly (closing d.frames) { d.system with pins := pins (top :: rest) } d.frames :=
        hd.quiet hquiet
      rw [hframes] at hd
      rw [step, hframes]
      exact (hd.moves_frame d.answer).enrolled hd (h.quiet hquiet)

/-- The application changes who follows an actor. -/
theorem enrolled_modify {s : Session} (hsound : sys.Sound) (h : sys.Enrolled)
    (f : List (Nat × Observer) → List (Nat × Observer)) :
    (sys.modify s fun a => { a with observers := f a.observers }).Enrolled := by
  cases ha : sys.actor? s with
  | none => exact h.quiet (System.quiet_modify _ ha)
  | some a =>
      exact h.puts ha (System.puts_modify (f := fun a => { a with observers := f a.observers })
        hsound.keyed (fun _ => rfl) ha) id

theorem Happens.enrolled (h : d.Happens d') (hd : d.Sound) (hsys : d.system.Enrolled) :
    d'.system.Enrolled := by
  have hsound := hd.system
  cases h with
  | step => exact enrolled_step hd hsys
  | call _ s c => exact (answered_call hsound.keyed s c).enrolled hsys
  | make _ logic spec => exact hsys.enrols (spawn_carries carried_enrols _ _ _)
  | drive _ m hspawn scope scope' hscope result h =>
      exact hsys.enrols (hscope ▸ h.carries carried_enrols (hspawn ▸ spawn_carries carried_enrols))
  | follow _ s o hopen =>
      have hquiet : d.system.Quiet { d.system with nextObserver := d.system.nextObserver + 1 } :=
        .of_eq rfl rfl rfl rfl
      rw [subscribe, if_neg hopen]
      exact enrolled_modify (hsound.quiet hquiet) (hsys.quiet hquiet)
        (· ++ [(d.system.nextObserver, o)])
  | unfollow _ subscription =>
      unfold System.unsubscribe
      split
      · exact hsys
      · exact enrolled_modify hsound hsys _
  | tellEnd | fireDue | advance => exact hsys.quiet (.of_eq rfl rfl rfl rfl)
  | arrange _ sys hquiet => exact hsys.quiet hquiet

/-- Whoever has not stopped is registered. -/
theorem Reached.enrolled (h : Reached d) : d.system.Enrolled := by
  induction h with
  | fresh sys hnil =>
      intro s a ha
      rw [done, System.actor?, hnil] at ha
      cases ha
  | next hreached hnext ih => exact hnext.enrolled hreached.sound ih

/-- Whoever has not stopped is found as long as it is kept by others than the calls in progress,
whatever these keep. -/
theorem Reached.finds (h : Reached d) {s : Session} {a : Actor} (ha : d.system.actor? s = some a)
    (hopen : a.status ≠ .stopped) (hkept : System.Kept { d.system with pins := [] } s)
    (pins : List Session) : System.lookup? { d.system with pins } s = some s := by
  refine System.lookup?_eq_some.mpr ⟨rfl, h.enrolled s a ha hopen, hkept.mono ?_ fun t a ha =>
    ⟨a, ha, List.Subset.refl _⟩⟩
  intro t ht
  simp only [System.roots, List.append_nil, List.mem_append] at ht ⊢
  tauto

end Delivery

end Statechart
