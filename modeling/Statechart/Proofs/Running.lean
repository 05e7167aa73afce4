import Mathlib.Logic.Function.Iterate
import Statechart.Actor.Calls
import Statechart.Proofs.Evolution
import Statechart.Proofs.Making
import Statechart.Proofs.Stepping

/-!
# Systems at work

`Delivery.Happens` is what can happen next to a system: it goes on with the calls in progress, or,
when there are none, the application makes a call, makes an actor, drives a machine by hand, follows
actors or lets time pass. A system without actors is where everything begins (`Delivery.Reached`).
Whatever happens is a move of the frame on top (`Happens.goes`), so that all that is reached is
sound (`Reached.sound`), and so is every snapshot that a machine has got on the way
(`Obtained.suits`). A call that comes to its end is what the steps of its delivery are
(`run_of_iterate`).
-/

namespace Statechart

/-- What comes out of a machine that is driven by hand in a scope. -/
inductive Machine.Drives (m : Machine) (scope scope' : Scope)
    (result : Except ActorError MachineSnapshot) : Prop
  | initialState (input : Json) (h : m.initialState scope input = (scope', result))
  | transition (s : MachineSnapshot) (event : Event)
      (h : m.transition scope s event = (scope', result))
  | stop (s : MachineSnapshot) (h : m.stop scope s = (scope', result))
  | restore (stored : PersistedSnapshot) (h : m.restore scope stored = (scope', result))

theorem Machine.Drives.thrives {m : Machine} (hspawn : Spawner.Sound m.spawn) {scope scope' : Scope}
    {result : Except ActorError MachineSnapshot} (h : m.Drives scope scope' result)
    (hsound : scope.system.Sound) : scope.system.Thrives scope'.system := by
  cases h with
  | initialState input h => exact Machine.initialState_thrives h hspawn hsound
  | transition s event h => exact Machine.transition_thrives h hspawn hsound
  | stop s h => exact Machine.stop_thrives h hspawn hsound
  | restore stored h => exact Machine.restore_thrives h hspawn hsound

theorem Machine.Drives.carries {R : System → System → Prop} (hR : System.Carried R) {m : Machine}
    (hspawn : m.spawn.Carries R) {scope scope' : Scope} {result : Except ActorError MachineSnapshot}
    (h : m.Drives scope scope' result) : R scope.system scope'.system := by
  have hof : ∀ {x : Scope × Except ActorError MachineSnapshot}, R scope.system x.1.system →
      x = (scope', result) → R scope.system scope'.system := by
    rintro x hx rfl
    exact hx
  cases h with
  | initialState input h => exact hof (Machine.initialState_carries hR hspawn scope input) h
  | transition s event h => exact hof (Machine.transition_carries hR hspawn scope s event) h
  | stop s h => exact hof (Machine.stop_carries hR hspawn scope s) h
  | restore stored h => exact hof (Machine.restore_carries hR hspawn scope stored) h

namespace Delivery

/-- What can happen next. -/
inductive Happens : Delivery → Delivery → Prop
  /-- The calls in progress go on. -/
  | step (d : Delivery) : Happens d d.step
  | call (d : Delivery) (hidle : d.frames = []) (s : Session) (c : Call) :
      Happens d (call d.system s c)
  | make (d : Delivery) (hidle : d.frames = []) (logic : Logic) (spec : ActorSpec) :
      Happens d (done (spawn d.system logic spec).1)
  | drive (d : Delivery) (hidle : d.frames = []) (m : Machine) (hspawn : m.spawn = spawn)
      (scope scope' : Scope) (hscope : scope.system = d.system)
      (result : Except ActorError MachineSnapshot) (h : m.Drives scope scope' result) :
      Happens d (done scope'.system)
  | follow (d : Delivery) (hidle : d.frames = []) (s : Session) (o : Observer)
      (hopen : (d.system.actor s).status ≠ .stopped) :
      Happens d (subscribe d.system s o).1
  | tellEnd (d : Delivery) (hidle : d.frames = []) (o : Observer) :
      Happens d (tellEnd d.system o)
  | unfollow (d : Delivery) (hidle : d.frames = []) (subscription : Subscription) :
      Happens d (done (d.system.unsubscribe subscription))
  | fireDue (d : Delivery) (hidle : d.frames = []) :
      Happens d (doing d.system.enter [.fire d.system.clock.now false, .leave])
  | advance (d : Delivery) (hidle : d.frames = []) (ms : Nat) :
      Happens d (doing d.system.enter
        [.fire (d.system.clock.now + ms) true, .arrive (d.system.clock.now + ms), .leave])
  /-- The application changes something that is not about actors: names, records, the clock. -/
  | arrange (d : Delivery) (hidle : d.frames = []) (sys : System) (hquiet : d.system.Quiet sys) :
      Happens d (done sys)

/-- The states that a system gets into. -/
inductive Reached : Delivery → Prop
  | fresh (sys : System) (h : sys.actors = []) : Reached (done sys)
  | next {d d' : Delivery} (h : Reached d) (hnext : d.Happens d') : Reached d'

/-- What has happened since a delivery, latest first: what there was before each thing. -/
inductive Run (first : Delivery) : List Delivery → Delivery → Prop
  | refl : Run first [] first
  | next {past : List Delivery} {d d' : Delivery} (h : Run first past d) (hnext : d.Happens d') :
      Run first (d :: past) d'

/-! ## Moves -/

/-- What happens, as a move of the frame on top. Without frames it is the application that moves. -/
structure Goes (d d' : Delivery) (sys : System) (top : Option Frame) (rest xs : List Frame) :
    Prop where
  quiet : d.system.Quiet sys
  frames : d.frames = top.toList ++ rest
  outside : top = none → rest = []
  moves : Moves sys top d'.system xs
  result : d'.frames = xs ++ rest

variable {d d' : Delivery}

theorem Goes.head {sys : System} {top : Option Frame} {rest xs : List Frame}
    (h : d.Goes d' sys top rest xs) : d.frames.head? = top ∧ d.frames.tail = rest := by
  rw [h.frames]
  cases top with
  | none =>
      rw [h.outside rfl]
      exact ⟨rfl, rfl⟩
  | some f => exact ⟨rfl, rfl⟩

theorem Goes.sound {sys : System} {top : Option Frame} {rest xs : List Frame}
    (h : d.Goes d' sys top rest xs) (hd : d.Sound) : d'.Sound := by
  unfold Sound at hd ⊢
  rw [h.frames] at hd
  rw [h.result]
  exact h.moves.orderly (hd.quiet h.quiet) h.outside

/-- What happens to the actors on the way. -/
theorem Goes.evolution {sys : System} {top : Option Frame} {rest xs : List Frame}
    (h : d.Goes d' sys top rest xs) (hd : d.Sound) : Evolution d.system top d'.system xs := by
  unfold Sound at hd
  rw [h.frames] at hd
  exact (h.moves.evolution (hd.quiet h.quiet)).since h.quiet

theorem quiet_pins (sys : System) (sessions : List Session) :
    sys.Quiet { sys with pins := sessions } := .of_eq rfl rfl rfl rfl

/-- The frame on top makes a move. -/
theorem Orderly.moves_frame {sys : System} {next : Option Session} {top : Frame} {rest : List Frame}
    (hd : Orderly next sys (top :: rest)) (answer : Except ActorError Unit) :
    Moves sys (some top) (frame sys answer top).system (frame sys answer top).frames := by
  refine Delivery.moves_frame hd.system (fun s x => hd.known top List.mem_cons_self s x)
    (fun s snapshot a htop ha => ?_) answer
  -- the snapshot to be launched is the one that the actor has
  have hholds : top.holds s = some snapshot := by rw [htop]; exact if_pos rfl
  rw [(hd.attended s a ha).current top List.mem_cons_self snapshot hholds]
  exact hd.system.suits s a ha

theorem goes_frame {sys : System} {top : Frame} {rest : List Frame} (hd : d.Sound)
    (hframes : d.frames = top :: rest) (hquiet : d.system.Quiet sys)
    (hstep : d' = (frame sys d.answer top).before rest) :
    ∃ sys top rest xs, d.Goes d' sys top rest xs := by
  have hd : Orderly (closing d.frames) sys d.frames := hd.quiet hquiet
  rw [hframes] at hd
  subst hstep
  exact ⟨sys, some top, rest, _, hquiet, hframes, nofun, hd.moves_frame d.answer, rfl⟩

/-- The system in which the frame on top is carried out. -/
def pinned (d : Delivery) : System := { d.system with pins := pins d.frames }

theorem step_pinned {f : Frame} {rest : List Frame} (h : d.frames = f :: rest) :
    d.step = (frame d.pinned d.answer f).before rest := by
  rw [step, h, pinned, h]

/-- While a call is in progress nothing can happen but that it goes on. -/
theorem Happens.eq_step (h : d.Happens d') (hbusy : d.frames ≠ []) : d' = d.step := by
  cases h with
  | step => rfl
  | _ => exact absurd ‹d.frames = []› hbusy

theorem goes_step (hd : d.Sound) : ∃ sys top rest xs, d.Goes d.step sys top rest xs := by
  cases hframes : d.frames with
  | nil =>
      have hstep : d.step = d := by rw [step, hframes]
      refine ⟨d.system, none, [], [], .refl _, hframes, fun _ => rfl, ?_, ?_⟩ <;> rw [hstep]
      · exact .idled (by simp) (.refl _) (by simp)
      · exact hframes
  | cons top rest =>
      exact goes_frame hd hframes (quiet_pins _ (pins d.frames)) (step_pinned hframes)

/-- When no call is in progress, the application moves. -/
theorem goes_outside (hidle : d.frames = []) (h : Moves d.system none d'.system d'.frames) :
    ∃ sys top rest xs, d.Goes d' sys top rest xs :=
  ⟨d.system, none, [], d'.frames, .refl _, hidle, fun _ => rfl, h, (List.append_nil _).symm⟩

/-- The application changes who follows an actor, if there is one. -/
theorem moves_modify {sys sys' : System} (hkeyed : sys.Keyed) (hquiet : sys.Quiet sys')
    (s : Session) (f : List (Nat × Observer) → List (Nat × Observer)) :
    Moves sys none (sys'.modify s fun a => { a with observers := f a.observers }) [] := by
  cases ha : sys'.actor? s with
  | none =>
      exact .idled (by simp) (hquiet.trans (System.quiet_modify _ ha)) (by simp)
  | some a =>
      have ha₀ : sys.actor? s = some a := (hquiet.actor? s).symm.trans ha
      exact .watched (f a.observers) ha₀ (hquiet.puts (System.puts_modify
        (f := fun a => { a with observers := f a.observers }) (hquiet.keyed hkeyed)
        (fun _ => rfl) ha))

theorem frame_plain (f : Frame) : f.Plain ↔ f.stage = none ∧ f.orders = [] :=
  ⟨fun h => ⟨h.stage, h.orders⟩, fun h => ⟨h.1, h.2⟩⟩

/-- Whatever happens is a move. -/
theorem Happens.goes (h : d.Happens d') (hd : d.Sound) :
    ∃ sys top rest xs, d.Goes d' sys top rest xs := by
  have hsound := hd.system
  have hidled : ∀ (sys : System) (xs : List Frame), d.system.Quiet sys → (∀ f ∈ xs, f.Plain) →
      Moves d.system none sys xs := fun sys xs hquiet hxs => .idled (by simp) hquiet hxs
  cases h with
  | step => exact goes_step hd
  | call hidle s c =>
      refine goes_outside hidle ?_
      have hmoves := Moves.call (.outside s c) (answered_call hsound.keyed s c)
      rwa [before_nil] at hmoves
  | make hidle logic spec =>
      exact goes_outside hidle (.grown (sound_spawn hsound rfl).1)
  | drive hidle m hspawn scope scope' hscope result h =>
      have hthrives := h.thrives (hspawn ▸ sound_spawn) (hscope ▸ hsound)
      exact goes_outside hidle (.grown (hscope ▸ hthrives))
  | follow hidle s o hopen =>
      refine goes_outside hidle ?_
      have hquiet : d.system.Quiet { d.system with nextObserver := d.system.nextObserver + 1 } :=
        .of_eq rfl rfl rfl rfl
      rw [subscribe, if_neg hopen]
      exact moves_modify hsound.keyed hquiet s (· ++ [(d.system.nextObserver, o)])
  | tellEnd hidle o =>
      exact goes_outside hidle (hidled _ _ (.of_eq rfl rfl rfl rfl) (plain_singleton ⟨rfl, rfl⟩))
  | unfollow hidle subscription =>
      refine goes_outside hidle ?_
      unfold System.unsubscribe
      split
      · exact hidled _ _ (.refl _) (by simp [done])
      · exact moves_modify hsound.keyed (.refl _) _ _
  | fireDue hidle =>
      have hplain : ∀ f ∈ [Frame.fire d.system.clock.now false, .leave], f.Plain := by
        simp [frame_plain, Frame.stage, Frame.orders]
      exact goes_outside hidle (hidled _ _ (.of_eq rfl rfl rfl rfl) hplain)
  | advance hidle ms =>
      have hplain : ∀ f ∈ [Frame.fire (d.system.clock.now + ms) true,
          .arrive (d.system.clock.now + ms), .leave], f.Plain := by
        simp [frame_plain, Frame.stage, Frame.orders]
      exact goes_outside hidle (hidled _ _ (.of_eq rfl rfl rfl rfl) hplain)
  | arrange hidle sys hquiet => exact goes_outside hidle (hidled _ _ hquiet (by simp [done]))

/-- Everything that is reached is sound. -/
theorem Reached.sound (h : Reached d) : d.Sound := by
  induction h with
  | fresh sys hnil =>
      exact ⟨System.sound_of_nil hnil, fun _ hs => absurd hs List.not_mem_nil, fun s a ha => by
        rw [done, System.actor?, hnil] at ha
        cases ha⟩
  | next _ hnext ih =>
      obtain ⟨sys, top, rest, xs, hgoes⟩ := hnext.goes ih
      exact hgoes.sound ih

/-- What holds of systems without actors and is kept by every move holds of everything that is
reached. -/
theorem Reached.keeps {P : System → List Frame → Prop}
    (hfresh : ∀ sys : System, sys.actors = [] → P sys [])
    (hquiet : ∀ {sys sys' : System} {frames : List Frame}, sys.Quiet sys' → P sys frames →
      P sys' frames)
    (hmoves : ∀ {sys sys' : System} {top : Option Frame} {rest xs : List Frame},
      Orderly (closing (top.toList ++ rest)) sys (top.toList ++ rest) → Moves sys top sys' xs →
        P sys (top.toList ++ rest) → P sys' (xs ++ rest)) (h : Reached d) :
    P d.system d.frames := by
  induction h with
  | fresh sys hnil => exact hfresh sys hnil
  | @next d d' hreached hnext ih =>
      obtain ⟨sys, top, rest, xs, hgoes⟩ := hnext.goes hreached.sound
      have hsys : Orderly (closing d.frames) sys d.frames := hreached.sound.quiet hgoes.quiet
      have hkept := hquiet hgoes.quiet ih
      rw [hgoes.frames] at hsys hkept
      rw [hgoes.result]
      exact hmoves hsys hgoes.moves hkept

/-- When no call is in progress, nothing waits for an actor that runs, and no mailbox is marked. -/
theorem Sound.settled (hd : d.Sound) (hidle : d.frames = []) {s : Session} {a : Actor}
    (ha : d.system.actor? s = some a) :
    a.mailbox.flushing = false ∧ (a.status = .running → a.mailbox.queue = []) := by
  have hattended := hd.attended s a ha
  have hmarked := hattended.staged.marked
  rw [hidle, stages_nil] at hmarked
  have hfree : a.mailbox.flushing = false := by simpa using hmarked
  exact ⟨hfree, fun hrunning => hattended.kept.settled hrunning hfree⟩

theorem Happens.follows (h : d.Happens d') (hd : d.Sound) : d.system.Follows d'.system := by
  obtain ⟨sys, top, rest, xs, hgoes⟩ := h.goes hd
  exact (hgoes.evolution hd).follows

/-! ## Runs -/

variable {first : Delivery} {past : List Delivery}

theorem Run.reached (h : first.Run past d) (hfirst : Reached first) : Reached d := by
  induction h with
  | refl => exact hfirst
  | next _ hnext ih => exact ih.next hnext

theorem Run.trans {e : Delivery} {after : List Delivery} (h : first.Run past e)
    (h' : e.Run after d) : first.Run (after ++ past) d := by
  induction h' with
  | refl => exact h
  | next _ hnext ih => exact ih.next hnext

/-- A run has gone on from whatever it has been in. -/
theorem Run.goesOn (h : first.Run past d) {e : Delivery} (he : e ∈ past) :
    ∃ e' before after, first.Run before e ∧ e.Happens e' ∧ e'.Run after d ∧
      past = after ++ e :: before := by
  induction h with
  | refl => cases he
  | @next past d d' hbefore hnext ih =>
      rcases List.mem_cons.mp he with rfl | he
      · exact ⟨d', past, [], hbefore, hnext, .refl, rfl⟩
      · obtain ⟨e', before, after, hfirst, hturn, hlast, rfl⟩ := ih he
        exact ⟨e', before, d :: after, hfirst, hturn, hlast.next hnext, rfl⟩

/-- A run can be taken apart wherever it has been. -/
theorem Run.split (h : first.Run past d) {e : Delivery} (he : e ∈ past) :
    ∃ before after, first.Run before e ∧ e.Run after d ∧ past = after ++ before := by
  obtain ⟨e', before, after, hbefore, hnext, hafter, rfl⟩ := h.goesOn he
  exact ⟨before, after ++ [e], hbefore, (Run.refl.next hnext).trans hafter, by simp⟩

/-- What does not hold at first and holds in the end has come about in some step. -/
theorem Run.arises {P : Delivery → Prop} (h : first.Run past d) (hfirst : ¬P first) (hlast : P d) :
    ∃ e e' before after, first.Run before e ∧ e.Happens e' ∧ e'.Run after d ∧
      past = after ++ e :: before ∧ ¬P e ∧ P e' := by
  induction h with
  | refl => exact absurd hlast hfirst
  | @next past d d' hbefore hnext ih =>
      by_cases hearlier : P d
      · obtain ⟨e, e', before, after, hfirst, hturn, hafter, rfl, hnot, hthen⟩ := ih hearlier
        exact ⟨e, e', before, d :: after, hfirst, hturn, hafter.next hnext, rfl, hnot, hthen⟩
      · exact ⟨d, d', past, [], hbefore, hnext, .refl, rfl, hearlier, hlast⟩

/-- A delivery that goes on for a number of steps, with what it passes. -/
def goOn : Nat → List Delivery × Delivery → List Delivery × Delivery
  | 0, run => run
  | n + 1, (past, d) => goOn n (d :: past, d.step)

/-- What was in the past stays there. -/
theorem mem_goOn {e : Delivery} (h : e ∈ past) : ∀ n, e ∈ (goOn n (past, d)).1 := by
  intro n
  induction n generalizing past d with
  | zero => exact h
  | succ n ih => exact ih (List.mem_cons_of_mem _ h)

theorem Run.goOn (h : first.Run past d) : ∀ n,
    first.Run (goOn n (past, d)).1 (goOn n (past, d)).2 := by
  intro n
  induction n generalizing past d with
  | zero => exact h
  | succ n ih => exact ih (h.next (.step d))

/-- A run in which the application has an actor made and starts it, and lets things go on for a number
of steps. -/
def startRun (logic : Logic) (n : Nat) : List Delivery × Delivery :=
  let made := done (spawn {} logic {}).1
  Delivery.goOn n ([made, done {}], call made.system ⟨0⟩ .start)

theorem run_startRun (logic : Logic) (n : Nat) :
    (done {}).Run (startRun logic n).1 (startRun logic n).2 :=
  ((Run.refl.next (.make _ rfl logic {})).next (.call _ rfl ⟨0⟩ .start)).goOn n

/-- Later on the actors that there were are still there. -/
theorem Run.follows (h : first.Run past d) (hfirst : Reached first) :
    first.system.Follows d.system := by
  induction h with
  | refl => exact .refl _
  | next hbefore hnext ih => exact ih.trans (hnext.follows (hbefore.reached hfirst).sound)

/-! ## Working off -/

section

variable {c : Delivery}

theorem iterate_of_nil (h : c.frames = []) : ∀ n, step^[n] c = c
  | 0 => rfl
  | n + 1 => by
      have hstep : c.step = c := by rw [step, h]
      rw [Function.iterate_succ_apply, hstep, iterate_of_nil h n]

/-- Once everything is worked off, more steps change nothing. -/
theorem iterate_of_le {k n : Nat} (h : (step^[k] c).frames = []) (hle : k ≤ n) :
    step^[n] c = step^[k] c := by
  obtain ⟨more, rfl⟩ := Nat.exists_eq_add_of_le' hle
  rw [Function.iterate_add_apply, iterate_of_nil h]

theorem run_nil (h : c.frames = []) (n : Nat) :
    c.run n = ({ c.system with pins := [] }, c.answer) := by
  obtain ⟨sys, frames, answer⟩ := c
  cases h
  cases n <;> rfl

theorem run_cons (h : c.frames ≠ []) (n : Nat) : c.run (n + 1) = c.step.run n := by
  obtain ⟨sys, frames, answer⟩ := c
  cases frames with
  | nil => exact absurd rfl h
  | cons top rest => rfl

/-- A run that comes to its end is what its steps are. -/
theorem run_of_iterate {n : Nat} (h : (step^[n] c).frames = []) :
    c.run n = ({ (step^[n] c).system with pins := [] }, (step^[n] c).answer) := by
  induction n generalizing c with
  | zero => exact run_nil h 0
  | succ n ih =>
      by_cases hframes : c.frames = []
      · rw [run_nil hframes, iterate_of_nil hframes]
      · rw [Function.iterate_succ_apply] at h ⊢
        rw [run_cons hframes, ih h]

end

end Delivery

open Delivery (Reached Happens)

/-! ## Snapshots -/

/-- The snapshots that a machine has got by now: as an actor, or driven by hand. -/
inductive Machine.Obtained (m : Machine) : Delivery → MachineSnapshot → Prop
  | actor {d : Delivery} {c : Session} {a : Actor} {s : MachineSnapshot} (hd : Reached d)
      (ha : d.system.actor? c = some a)
      (hlogic : a.logic = .machine m.definition m.implementations) (hs : a.snapshot = .machine s) :
      Obtained m d s
  | initialState {d : Delivery} {scope scope' : Scope} {input : Json} {s : MachineSnapshot}
      (hd : Reached d) (hidle : d.frames = []) (hscope : scope.system = d.system)
      (h : m.initialState scope input = (scope', .ok s)) : Obtained m (.done scope'.system) s
  | transition {d : Delivery} {scope scope' : Scope} {event : Event} {s s' : MachineSnapshot}
      (hs : Obtained m d s) (hidle : d.frames = []) (hscope : scope.system = d.system)
      (h : m.transition scope s event = (scope', .ok s')) : Obtained m (.done scope'.system) s'
  | stop {d : Delivery} {scope scope' : Scope} {s s' : MachineSnapshot}
      (hs : Obtained m d s) (hidle : d.frames = []) (hscope : scope.system = d.system)
      (h : m.stop scope s = (scope', .ok s')) : Obtained m (.done scope'.system) s'
  | restore {d : Delivery} {scope scope' : Scope} {stored : PersistedSnapshot}
      {s : MachineSnapshot} (hd : Reached d) (hidle : d.frames = [])
      (hscope : scope.system = d.system) (h : m.restore scope stored = (scope', .ok s)) :
      Obtained m (.done scope'.system) s
  /-- A snapshot is kept while other things happen. -/
  | later {d d' : Delivery} {s : MachineSnapshot} (hs : Obtained m d s) (h : d.Happens d') :
      Obtained m d' s

namespace Machine

variable {m : Machine} {d : Delivery} {s : MachineSnapshot}

theorem Obtained.reached (hspawn : m.spawn = Statechart.spawn) (h : m.Obtained d s) : Reached d := by
  induction h with
  | actor hd _ _ _ => exact hd
  | initialState hd hidle hscope h =>
      exact hd.next (.drive _ hidle m hspawn _ _ hscope _ (.initialState _ h))
  | transition _ hidle hscope h ih =>
      exact ih.next (.drive _ hidle m hspawn _ _ hscope _ (.transition _ _ h))
  | stop _ hidle hscope h ih =>
      exact ih.next (.drive _ hidle m hspawn _ _ hscope _ (.stop _ h))
  | restore hd hidle hscope h =>
      exact hd.next (.drive _ hidle m hspawn _ _ hscope _ (.restore _ h))
  | later _ h ih => exact ih.next h

/-- Every snapshot that a machine has got suits it. -/
theorem Obtained.suits (hspawn : m.spawn = Statechart.spawn) (h : m.Obtained d s) :
    s.Suits d.system none m.definition m.implementations := by
  have hmake : Spawner.Sound m.spawn := hspawn ▸ sound_spawn
  induction h with
  | @actor d c a s hd ha hlogic hs =>
      have hsuits := hd.sound.system.suits c a ha
      rw [hlogic, hs] at hsuits
      exact MachineSnapshot.Suits.orphaned hsuits
  | initialState hd _ hscope h =>
      exact initialState_spec h hmake (hscope ▸ hd.sound.system) (Scope.belongs_none _)
  | transition hs _ hscope h ih =>
      have hsound := (hs.reached hspawn).sound.system
      rw [← hscope] at hsound ih
      exact (transition_spec h hmake hsound (Scope.belongs_none _) ih).1
  | stop hs _ hscope h ih =>
      have hsound := (hs.reached hspawn).sound.system
      rw [← hscope] at hsound ih
      exact (stop_spec h hmake hsound (Scope.belongs_none _) ih).1
  | restore hd _ hscope h =>
      exact restore_spec h hmake (hscope ▸ hd.sound.system) (Scope.belongs_none _)
  | later hs h ih => exact ih.mono (h.follows (hs.reached hspawn).sound)

end Machine

end Statechart
