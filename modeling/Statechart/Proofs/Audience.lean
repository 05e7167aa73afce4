import Statechart.Proofs.Endings
import Statechart.Proofs.Running
import Statechart.Proofs.Timing

/-!
# What observers get told

`Delivery.Heeds` lists what a frame can mean to observers. An actor that is given a snapshot tells
those that follow it then, one that is wound up tells them that nothing more will come or that it has
failed, and observers are told one after the other. All other frames are `Frame.discreet`. Who
follows an actor only changes when it has told its observers that nothing more will come
(`Moves.sameFollowers`).
-/

namespace Statechart

/-- Whom a frame is going to tell something. -/
def Frame.audience : Frame → List (Nat × Observer)
  | .notify observers _ => observers
  | _ => []

/-- The snapshot that an actor is going to be settled with. -/
def Frame.settles (s : Session) : Frame → Option Snapshot
  | .settle t snapshot _ => if t = s then some snapshot else none
  | _ => none

/-- Whether a frame neither tells observers anything nor settles an actor. -/
def Frame.discreet : Frame → Bool
  | .notify _ _ => false
  | .settle _ _ _ => false
  | _ => true

theorem Frame.audience_discreet {f : Frame} (h : f.discreet = true) : f.audience = [] := by
  cases f <;> first | rfl | cases h

theorem Frame.settles_discreet {f : Frame} (h : f.discreet = true) (s : Session) :
    f.settles s = none := by
  cases f <;> first | rfl | cases h

theorem Frame.Aside.discreet {s : Session} {f : Frame} (h : f.Aside s) : f.discreet = true := by
  cases f <;> first | rfl | cases h

namespace System

/-- The same observers follow the same actors. -/
def SameFollowers (sys sys' : System) : Prop :=
  ∀ t, (sys'.actor t).observers = (sys.actor t).observers

variable {sys sys' sys'' : System} {s : Session} {a a' : Actor}

theorem SameFollowers.trans (h : sys.SameFollowers sys') (h' : sys'.SameFollowers sys'') :
    sys.SameFollowers sys'' := fun t => (h' t).trans (h t)

theorem sameFollowers_of_eq (h : ∀ t, sys'.actor? t = sys.actor? t) : sys.SameFollowers sys' :=
  fun t => by rw [actor, actor, h t]

theorem Quiet.sameFollowers (h : sys.Quiet sys') : sys.SameFollowers sys' :=
  sameFollowers_of_eq h.actor?

/-- Who follows an actor, if one actor changes. -/
theorem Puts.observers (h : sys.Puts s a' sys') (t : Session) :
    (sys'.actor t).observers = if t = s then a'.observers else (sys.actor t).observers := by
  split
  · rename_i heq
    rw [heq, h.actor_self]
  · rename_i hne
    rw [actor, h.other hne, actor]

theorem Puts.sameFollowers (h : sys.Puts s a' sys') (ha : sys.actor? s = some a)
    (hobservers : a'.observers = a.observers) : sys.SameFollowers sys' := by
  intro t
  rw [h.observers t]
  split
  · rename_i heq
    rw [heq, actor_eq ha, hobservers]
  · rfl

end System

namespace Delivery

variable {sys sys' : System} {s : Session} {f : Frame} {xs rest : List Frame}

/-! ## Who follows an actor -/

theorem Answered.sameFollowers {c : Call} (h : Answered sys s c sys' xs) :
    sys.SameFollowers sys' := by
  cases h with
  | refused hquiet => exact hquiet.sameFollowers
  | posted ha _ _ hputs | claimed ha _ _ hputs | halted ha _ hputs =>
      exact hputs.sameFollowers ha rfl

/-- A behaviour does not change who follows an actor. -/
theorem sameFollowers_behaves {sys₀ sys₁ : System} {a a' : Actor} {m : Mailbox}
    (ha : sys.actor? s = some a) (htook : sys.Puts s { a with mailbox := m } sys₀)
    (hgrown : sys₀.Grown sys₁) (hputs : sys₁.Puts s a' sys')
    (hobservers : a'.observers = a.observers) : sys.SameFollowers sys' :=
  ((htook.sameFollowers ha rfl).trans hgrown.observers).trans
    (hputs.sameFollowers (hgrown.kept s _ htook.self) hobservers)

/-- Nothing but the end of an actor changes who follows it. -/
theorem Moves.sameFollowers (h : Moves sys (some f) sys' xs)
    (hd : Orderly (closing (f :: rest)) sys (f :: rest))
    (hf : ∀ t, f ≠ .finish t) : sys.SameFollowers sys' := by
  have hsound := hd.system
  cases h with
  | idled _ hquiet | resumed _ hquiet | exhausted hquiet | settled hquiet | done hquiet
  | broken hquiet | reported hquiet | untold hquiet => exact hquiet.sameFollowers
  | interrupted => exact fun _ => rfl
  | called _ hquiet h => exact hquiet.sameFollowers.trans h.sameFollowers
  | performed _ h => exact System.sameFollowers_of_eq h.actor?
  | posted _ ha hputs | emptied ha _ hputs | passed ha _ _ _ _ hputs | begun ha _ _ hputs
  | halted ha hputs => exact hputs.sameFollowers ha rfl
  | stopped ha _ _ htook hends hputs =>
      have hsound₀ := (htook.alters hsound ha rfl rfl).sound
      exact sameFollowers_behaves ha htook (hends.spec hsound₀ htook.self).1.grown hputs rfl
  | reacted ha _ _ _ _ htook hreacts hputs =>
      have hsound₀ := (htook.alters hsound ha rfl rfl).sound
      exact sameFollowers_behaves ha htook (hreacts.spec hsound₀ htook.self).1.grown hputs rfl
  | launched ha hlaunches hputs =>
      have hd : Orderly none sys (.launch _ _ :: rest) := hd
      have hsuits := hd.launching ha ▸ hsound.suits _ _ ha
      have hgrown := (hlaunches.spec hsound hsuits).1.grown
      exact System.SameFollowers.trans hgrown.observers
        (hputs.sameFollowers (hgrown.kept _ _ ha) rfl)
  | retired hactors => exact System.sameFollowers_of_eq hactors
  | finished => exact absurd rfl (hf _)

/-! ## Frames that are nothing to observers -/

section Discreet

variable (sys : System) (s : Session)

/-- Frames one after the other. -/
theorem discreet_before {d : Delivery} {frames : List Frame}
    (hd : d.frames.all Frame.discreet = true) (hframes : frames.all Frame.discreet = true) :
    (d.before frames).frames.all Frame.discreet = true := by
  rw [before, List.all_append, hd, hframes]
  rfl

theorem discreet_flush : (flush sys s).frames.all Frame.discreet = true := by
  unfold flush
  simp only
  split <;> rfl

theorem discreet_send (event : Event) : (send sys s event).frames.all Frame.discreet = true := by
  unfold send
  simp only
  split
  · rfl
  · split
    · exact discreet_flush _ _
    all_goals rfl

theorem discreet_start : (start sys s).frames.all Frame.discreet = true := by
  unfold start
  simp only
  split
  · rfl
  · exact discreet_flush _ _

theorem discreet_stop : (stop sys s).frames.all Frame.discreet = true := by
  unfold stop
  split
  · rfl
  · split
    · exact discreet_flush _ _
    all_goals rfl

theorem discreet_call (c : Call) : (call sys s c).frames.all Frame.discreet = true := by
  cases c with
  | start => exact discreet_start sys s
  | stop => exact discreet_stop sys s
  | send event => exact discreet_send sys s event

theorem discreet_effect (e : Effect) : (effect sys s e).frames.all Frame.discreet = true := by
  cases e with
  | send recipient event delay id =>
      cases delay with
      | some ms => rfl
      | none =>
          refine discreet_before ?_ rfl
          unfold deliver
          split
          · exact discreet_send _ _ _
          · split
            · exact discreet_send _ _ _
            · rfl
  | start child =>
      rw [effect]
      split
      · exact discreet_start _ _
      · rfl
  | stop child => exact discreet_stop _ _
  | cancel id => rfl
  | log label value => rfl
  | exec name args run => rfl

theorem discreet_settle (snapshot : Snapshot) (failure : Option ActorError) :
    (settle sys s snapshot failure).frames.all Frame.discreet = true := by
  unfold settle
  simp only
  split <;> rfl

theorem discreet_tellParent (event : Event) :
    (tellParent sys s event).frames.all Frame.discreet = true := by
  unfold tellParent
  split
  · exact discreet_send _ _ _
  · rfl

theorem discreet_script (owner : Option Session) (body : Script (Except ActionError Unit)) :
    (script sys owner body).frames.all Frame.discreet = true := by
  unfold script
  split
  · rfl
  · split <;> rfl
  · rfl
  · split
    · rfl
    · exact discreet_before (discreet_call _ _ _) rfl

theorem discreet_fire (time : Nat) (moving : Bool) :
    (fire sys time moving).frames.all Frame.discreet = true := by
  unfold fire
  split
  · rfl
  · refine discreet_before ?_ rfl
    unfold fireTimer
    simp only
    split
    · exact discreet_before (discreet_send _ _ _) rfl
    · rfl

theorem discreet_notifyOne (number : Nat) (o : Observer) (what : Notification) :
    (notifyOne sys number o what).frames.all Frame.discreet = true := by
  unfold notifyOne
  simp only
  split <;> rfl

end Discreet

/-! ## All frames -/

/-- What carrying out a frame means to observers. -/
inductive Heeds (sys : System) : Frame → System → List Frame → Prop
  | silent {f : Frame} {sys' : System} {xs : List Frame} (hf : f.audience = [])
      (hlasting : f.lasting = true) (hsame : sys.SameFollowers sys')
      (hxs : xs.all Frame.discreet = true) : Heeds sys f sys' xs
  /-- An actor has got a new snapshot. -/
  | committed {f : Frame} {s : Session} {next : Snapshot} {effects : List Effect}
      {failure : Option ActorError} {sys' : System} {ys : List Frame}
      (hf : f = .drain s ∨ ∃ snapshot, f = .launch s snapshot)
      (hrunning : (sys.actor s).status = .running) (hsame : sys.SameFollowers sys')
      (hys : ys.all Frame.discreet = true) :
      Heeds sys f sys' (.effects s effects :: .notify (sys.actor s).observers (.next next) ::
        .settle s next failure :: ys)
  | finished {s : Session} {sys' : System}
      (hobservers : ∀ t, (sys'.actor t).observers = if t = s then [] else (sys.actor t).observers) :
      Heeds sys (.finish s) sys' [.notify (sys.actor s).observers .complete]
  | failed {s : Session} {snapshot : Snapshot} {failure : Option ActorError}
      {event : Event} {sys' : System} {before : List Frame} (hsame : sys.SameFollowers sys')
      (hbefore : (∃ e, before = [.notify
          ((sys.actor s).observers.filter fun o => o.2.handlesErrors) (.error e)]) ∨
        before = [] ∧ ((sys.actor s).observers.filter fun o => o.2.handlesErrors) = []) :
      Heeds sys (.failed s snapshot failure) sys' (before ++ [.tellParent s event])
  | told {number : Nat} {o : Observer} {others : List (Nat × Observer)} {what : Notification}
      {sys' : System} {ys : List Frame} (hsame : sys.SameFollowers sys')
      (hys : ys.all Frame.discreet = true) :
      Heeds sys (.notify ((number, o) :: others) what) sys' (ys ++ [.notify others what])

section Frames

variable {sys' : System} {xs : List Frame}

theorem Moves.heeds_drain (h : Moves sys (some (.drain s)) sys' xs)
    (hd : Orderly none sys (.drain s :: rest)) : Heeds sys (.drain s) sys' xs := by
  have hsame := h.sameFollowers hd nofun
  cases h with
  | idled htop => exact absurd (htop _ rfl).stage nofun
  | called hcalls => cases hcalls
  | resumed hf => cases hf
  | posted hf => cases hf
  | emptied | passed | begun | stopped => exact .silent rfl rfl hsame rfl
  | reacted ha hnext =>
      have hactor := System.actor_eq ha
      rw [← congrArg Actor.observers hactor]
      exact .committed (.inl rfl) (hactor ▸ hd.running ha hnext) hsame rfl

theorem Moves.heeds_launch {snapshot : Snapshot}
    (h : Moves sys (some (.launch s snapshot)) sys' xs)
    (hd : Orderly none sys (.launch s snapshot :: rest)) :
    Heeds sys (.launch s snapshot) sys' xs := by
  have hsame := h.sameFollowers hd nofun
  cases h with
  | idled htop => exact absurd (htop _ rfl).stage nofun
  | called hcalls => cases hcalls
  | resumed hf => cases hf
  | posted hf => cases hf
  | launched ha =>
      have hactor := System.actor_eq ha
      rw [← congrArg Actor.observers hactor]
      exact .committed (.inr ⟨snapshot, rfl⟩) (hactor ▸ (hd.staged rfl ha).below_launch.2.2) hsame rfl

theorem Moves.heeds_finish (h : Moves sys (some (.finish s)) sys' xs) :
    Heeds sys (.finish s) sys' xs := by
  cases h with
  | idled htop => exact absurd (htop _ rfl).stage nofun
  | called hcalls => cases hcalls
  | resumed hf => cases hf
  | posted hf => cases hf
  | finished ha hputs =>
      rw [← congrArg Actor.observers (System.actor_eq ha)]
      exact .finished hputs.observers

/-- Who is told of a failure. -/
theorem heeds_failed {snapshot : Snapshot} {failure : Option ActorError}
    (hsame : sys.SameFollowers (failed sys s snapshot failure).system) :
    Heeds sys (.failed s snapshot failure) (failed sys s snapshot failure).system
      (failed sys s snapshot failure).frames := by
  unfold failed at hsame ⊢
  simp only at hsame ⊢
  cases hhandlers : (sys.actor s).observers.filter fun o => o.2.handlesErrors with
  | nil =>
      have hsilent : ∀ {sys' : System} {event : Event}, sys.SameFollowers sys' →
          Heeds sys (.failed s snapshot failure) sys' ([] ++ [.tellParent s event]) :=
        fun hsame => .failed hsame (.inr ⟨rfl, hhandlers⟩)
      rw [hhandlers] at hsame
      simp only at hsame ⊢
      split at hsame <;> rename_i hparent
      · rw [if_pos hparent]
        exact hsilent hsame
      · rw [if_neg hparent]
        exact hsilent hsame
  | cons o handlers =>
      rw [hhandlers] at hsame
      simp only at hsame ⊢
      exact .failed hsame (.inl ⟨_, by rw [hhandlers]⟩)

/-- Whatever frame is on top, this is what it means to observers. -/
theorem frame_heeds (hd : Orderly (closing (f :: rest)) sys (f :: rest))
    (answer : Except ActorError Unit) :
    Heeds sys f (frame sys answer f).system (frame sys answer f).frames := by
  have hmoves := hd.moves_frame answer
  have hsame : (∀ t, f ≠ .finish t) → sys.SameFollowers (frame sys answer f).system :=
    hmoves.sameFollowers hd
  cases f with
  | drain s => exact hmoves.heeds_drain hd
  | launch s snapshot => exact hmoves.heeds_launch hd
  | finish s => exact hmoves.heeds_finish
  | failed s snapshot failure => exact heeds_failed (hsame nofun)
  | notify observers what =>
      cases observers with
      | nil => exact .silent rfl rfl (hsame nofun) rfl
      | cons o others => exact .told (hsame nofun) (discreet_notifyOne sys o.1 o.2 what)
  | effects s effects =>
      refine .silent rfl rfl (hsame nofun) ?_
      cases effects with
      | nil => rfl
      | cons e effects => exact discreet_before (discreet_effect sys s e) rfl
  | stopAll sessions =>
      refine .silent rfl rfl (hsame nofun) ?_
      cases sessions with
      | nil => rfl
      | cons t others => exact discreet_before (discreet_stop sys t) rfl
  | settle s snapshot failure =>
      exact .silent rfl rfl (hsame nofun) (discreet_settle sys s snapshot failure)
  | tellParent s event => exact .silent rfl rfl (hsame nofun) (discreet_tellParent sys s event)
  | script owner body => exact .silent rfl rfl (hsame nofun) (discreet_script sys owner body)
  | fire time moving => exact .silent rfl rfl (hsame nofun) (discreet_fire sys time moving)
  | _ => exact .silent rfl rfl (hsame nofun) rfl

section Heeds

variable {xs : List Frame} {p : Nat × Observer}

theorem Heeds.since {sys₁ : System} (h : Heeds sys₁ f sys' xs) (hquiet : sys.Quiet sys₁) :
    Heeds sys f sys' xs := by
  have hsince : ∀ {sys' : System}, sys₁.SameFollowers sys' → sys.SameFollowers sys' :=
    fun hsame => hquiet.sameFollowers.trans hsame
  cases h with
  | silent hf hlasting hsame hxs => exact .silent hf hlasting (hsince hsame) hxs
  | @committed _ s _ _ _ _ _ hf hrunning hsame hys =>
      rw [hquiet.actor s] at hrunning ⊢
      exact .committed hf hrunning (hsince hsame) hys
  | @finished s _ hobservers =>
      rw [hquiet.actor s]
      exact .finished fun t => by rw [hobservers t, hquiet.actor t]
  | @failed s _ _ _ _ _ hsame hbefore =>
      rw [hquiet.actor s] at hbefore
      exact .failed (hsince hsame) hbefore
  | told hsame hys => exact .told (hsince hsame) hys

theorem not_mem_audience (h : xs.all Frame.discreet = true) {g : Frame} (hg : g ∈ xs) :
    p ∉ g.audience := by
  rw [Frame.audience_discreet (List.all_eq_true.mp h g hg)]
  exact List.not_mem_nil

/-- Nobody follows an actor who did not before. -/
theorem Heeds.followers (h : Heeds sys f sys' xs) {t : Session}
    (hp : p ∈ (sys'.actor t).observers) : p ∈ (sys.actor t).observers := by
  cases h with
  | silent _ _ hsame | committed _ _ hsame | failed hsame | told hsame => rwa [hsame t] at hp
  | finished hobservers =>
      rw [hobservers t] at hp
      split at hp
      · cases hp
      · exact hp

/-- Only those are told something that follow an actor, or were to be told already. -/
theorem Heeds.audience (h : Heeds sys f sys' xs) {g : Frame} (hg : g ∈ xs) (hp : p ∈ g.audience) :
    p ∈ f.audience ∨ ∃ t, p ∈ (sys.actor t).observers := by
  cases h with
  | silent _ _ _ hxs => exact absurd hp (not_mem_audience hxs hg)
  | @committed _ s _ _ _ _ _ _ _ _ hys =>
      rcases List.mem_cons.mp hg with rfl | hg
      · cases hp
      rcases List.mem_cons.mp hg with rfl | hg
      · exact .inr ⟨s, hp⟩
      rcases List.mem_cons.mp hg with rfl | hg
      · cases hp
      · exact absurd hp (not_mem_audience hys hg)
  | @finished s =>
      rw [List.mem_singleton.mp hg] at hp
      exact .inr ⟨s, hp⟩
  | @failed s _ _ _ _ before _ hbefore =>
      rcases List.mem_append.mp hg with hg | hg
      · rcases hbefore with ⟨e, rfl⟩ | ⟨rfl, -⟩
        · rw [List.mem_singleton.mp hg] at hp
          exact .inr ⟨s, (List.mem_filter.mp hp).1⟩
        · cases hg
      · rw [List.mem_singleton.mp hg] at hp
        cases hp
  | told _ hys =>
      rcases List.mem_append.mp hg with hg | hg
      · exact absurd hp (not_mem_audience hys hg)
      · rw [List.mem_singleton.mp hg] at hp
        exact .inl (List.mem_cons_of_mem _ hp)

end Heeds

end Frames

end Delivery

end Statechart
