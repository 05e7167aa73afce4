import Statechart.Proofs.Consumption

/-!
# What actors owe their parents

An actor that is done, or that has failed, tells its parent. What it has told so far, together with
what the frames still owe, is what its snapshot says once it is wound up, and nothing before
(`Reporting.balance`). Every move keeps this balance (`Moves.ledger`), and an actor that runs with
such a snapshot is about to be wound up (`Reporting.finishing`).
-/

namespace Statechart

/-- The next event to be taken makes the actor begin. -/
def Mailbox.Begins (m : Mailbox) : Prop :=
  ∃ event, m.queue.head? = some event ∧ event.name = Event.initName

namespace Mailbox

variable {m m' : Mailbox}

/-- A start puts the init signal in front. -/
theorem Turns.begins (h : m.Turns .start m') : m'.Begins := by
  cases h with
  | started hstart =>
      obtain ⟨-, hm⟩ := Option.ite_none_right_eq_some.mp hstart
      cases hm
      exact ⟨initSignal, rfl, rfl⟩

/-- Who starts has its mailbox worked off. -/
theorem Turns.posted {c : Call} (h : m.Turns c m') (hkept : m.Kept) (hsettled : m'.Settled) :
    m'.status = m.status := by
  rcases h.status with heq | ⟨rfl, hnew, hrunning⟩
  · exact heq
  · obtain ⟨event, hhead, -⟩ := h.begins
    rw [hsettled hrunning (h.flushing.trans (hkept.unopened hnew))] at hhead
    cases hhead

end Mailbox

/-! ## Stages -/

namespace Stage

/-- A stage at which nothing is said about the snapshot of the actor. -/
def Mute (x : Stage) : Prop :=
  x ≠ .launch ∧ x ≠ .settle ∧ x ≠ .halt ∧ x ≠ .failed ∧ x ≠ .tell

/-- A stage that leads to the end of an actor whose snapshot says so. -/
def Settles (x : Stage) : Prop := x = .launch ∨ x = .settle ∨ x = .halt

theorem Settles.not_mute {x : Stage} (h : x.Settles) : ¬x.Mute := by
  rcases h with rfl | rfl | rfl <;> simp [Mute]

end Stage

/-- A frame that says nothing about the snapshot of an actor. -/
def Frame.Mute (s : Session) (f : Frame) : Prop := ∀ x, f.stage = some (s, x) → x.Mute

theorem Frame.Mute.other {s : Session} {f : Frame} (h : ∀ t x, f.stage = some (t, x) → t ≠ s) :
    f.Mute s := fun x hstage => absurd rfl (h s x hstage)

theorem Frame.mute_own {s : Session} {f : Frame} {x : Stage} (hf : f.stage = some (s, x))
    (hx : x.Mute) : ∀ t y, f.stage = some (t, y) → t = s ∧ y.Mute := by
  intro t y hstage
  rw [hf] at hstage
  cases hstage
  exact ⟨rfl, hx⟩

namespace Delivery

/-- What is to be told of an actor, by its snapshot. -/
def completion (a : Actor) : Option Event :=
  match a.snapshot.status with
  | .done => some (fromChild a (.doneActor a.id (a.snapshot.output.getD .null)))
  | .error => some (fromChild a (.errorPlatform a.id (a.snapshot.error.getD .null)))
  | _ => none

/-- What a frame is going to tell of an actor. -/
def report? (s : Session) (a : Actor) : Frame → Option Event
  | .tellParent t event => if t = s then some event else none
  | .failed t snapshot _ =>
      if t = s then some (fromChild a (.errorPlatform a.id (snapshot.error.getD .null))) else none
  | _ => none

/-- What is still going to be told of an actor. -/
def owed (s : Session) (a : Actor) (frames : List Frame) : List Event :=
  frames.filterMap (report? s a)

/-- What is to be told of an actor altogether: all that its snapshot says if it is wound up. -/
def due (s : Session) (a : Actor) (frames : List Frame) : List Event :=
  if a.status = .stopped ∨ .halt ∈ stages s frames then (completion a).toList else []

/-- The event that an actor tells its parent on top. -/
def tells (top : Option Frame) (s : Session) : Option Event :=
  match top with
  | some (.tellParent t event) => if t = s then some event else none
  | _ => none

variable {s : Session} {a a' : Actor} {top head : Option Frame} {f : Frame}
  {frames xs rest : List Frame} {told told' : List Event}

theorem completion_congr (hbecomes : a.Becomes a') (hsnapshot : a'.snapshot = a.snapshot) :
    completion a' = completion a := by
  rw [hbecomes, hsnapshot]
  rfl

@[simp] theorem owed_nil (s : Session) (a : Actor) : owed s a [] = [] := rfl

theorem owed_cons (f : Frame) (frames : List Frame) :
    owed s a (f :: frames) = (report? s a f).toList ++ owed s a frames := by
  cases hf : report? s a f <;> simp [owed, hf]

theorem owed_append (xs frames : List Frame) :
    owed s a (xs ++ frames) = owed s a xs ++ owed s a frames := List.filterMap_append

theorem owed_congr (hbecomes : a.Becomes a') (frames : List Frame) :
    owed s a' frames = owed s a frames := by
  rw [hbecomes]
  rfl

theorem report?_eq_none (h : f.Mute s) : report? s a f = none := by
  cases f with
  | tellParent t event =>
      refine if_neg fun hts => ?_
      have hmute := h .tell (by rw [← hts]; rfl)
      simp [Stage.Mute] at hmute
  | failed t snapshot failure =>
      refine if_neg fun hts => ?_
      have hmute := h .failed (by rw [← hts]; rfl)
      simp [Stage.Mute] at hmute
  | _ => rfl

theorem owed_mute (h : ∀ g ∈ xs, g.Mute s) : owed s a xs = [] :=
  List.filterMap_eq_nil_iff.mpr fun g hg => report?_eq_none (h g hg)

theorem mem_stages_mute (h : ∀ g ∈ xs, g.Mute s) {x : Stage} (hx : ¬x.Mute) :
    x ∈ stages s (xs ++ rest) ↔ x ∈ stages s rest := by
  rw [stages_append, List.mem_append, or_iff_right]
  intro hmem
  obtain ⟨g, hg, hstage⟩ := mem_stages.mp hmem
  exact hx (h g hg x hstage)

theorem not_mute_halt : ¬Stage.halt.Mute := Stage.Settles.not_mute (.inr (.inr rfl))

theorem due_mute (hxs : ∀ g ∈ xs, g.Mute s) : due s a (xs ++ rest) = due s a rest := by
  simp only [due, mem_stages_mute hxs not_mute_halt]

theorem due_congr (hbecomes : a.Becomes a') (hstatus : a'.status = a.status)
    (hsnapshot : a'.snapshot = a.snapshot) : due s a' frames = due s a frames := by
  rw [due, hstatus, completion_congr hbecomes hsnapshot, due]

/-! ## The balance of an actor -/

/-- The account of what an actor has told. `head` is the frame on top, if it counts. -/
structure Reporting (head : Option Frame) (told : List Event) (frames : List Frame) (s : Session)
    (a : Actor) : Prop where
  balance : told ++ owed s a frames = due s a frames
  finishing : a.status = .running → completion a ≠ none →
    (∃ x ∈ stages s frames, x.Settles) ∨ head = some (.drain s) ∧ a.mailbox.Begins

namespace Reporting

/-- An actor that has just been made has told nothing. -/
theorem new (hnew : a.mailbox = {}) (hframes : ∀ g ∈ frames, g.stageOf s = none) :
    Reporting head [] frames s a where
  balance := by
    have hmute : ∀ g ∈ frames, g.Mute s := fun g hg x hstage => by
      have hnone := hframes g hg
      rw [Frame.stageOf_self hstage] at hnone
      cases hnone
    rw [owed_mute hmute, due, if_neg]
    · rfl
    · rw [Actor.status, hnew, stages_eq_nil hframes]
      simp
  finishing hrunning := by
    rw [Actor.status, hnew] at hrunning
    cases hrunning

/-- Frames that say nothing about the snapshot of an actor come and go. -/
theorem mute (top : Option Frame) (h : Reporting top told (top.toList ++ rest) s a)
    (htop : ∀ f, top = some f → f.Mute s) (hxs : ∀ g ∈ xs, g.Mute s)
    (hbegins : top = some (.drain s) → ¬a.mailbox.Begins) (hbecomes : a.Becomes a')
    (hstatus : a'.status = a.status) (hsnapshot : a'.snapshot = a.snapshot) :
    Reporting head told (xs ++ rest) s a' := by
  have htop : ∀ g ∈ top.toList, g.Mute s := fun g hg => htop g (Option.mem_toList.mp hg)
  constructor
  · have hbalance := h.balance
    rw [owed_append, owed_mute htop, List.nil_append, due_mute htop] at hbalance
    rw [owed_append, owed_mute hxs, List.nil_append, owed_congr hbecomes, hbalance, due_mute hxs,
      due_congr hbecomes hstatus hsnapshot]
  · intro hrunning hfinal
    rw [completion_congr hbecomes hsnapshot] at hfinal
    rcases h.finishing (hstatus ▸ hrunning) hfinal with ⟨x, hx, hsettles⟩ | ⟨hdrain, hbegun⟩
    · exact .inl ⟨x, (mem_stages_mute hxs hsettles.not_mute).mpr
        ((mem_stages_mute htop hsettles.not_mute).mp hx), hsettles⟩
    · exact absurd hbegun (hbegins hdrain)

/-- An actor that is not wound up, and goes on. -/
theorem busy (htold : told = []) (hopen : a.status ≠ .stopped) (hhalt : .halt ∉ stages s frames)
    (howed : owed s a frames = [])
    (hfinishing : a.status = .running → completion a ≠ none →
      (∃ x ∈ stages s frames, x.Settles) ∨ head = some (.drain s) ∧ a.mailbox.Begins) :
    Reporting head told frames s a where
  balance := by
    rw [htold, howed, due, if_neg (not_or.mpr ⟨hopen, hhalt⟩)]
    rfl
  finishing := hfinishing

/-- An actor that is wound up from now on, and of which all is still to be told. -/
theorem close (htold : told = []) (hwound : a.status = .stopped ∨ .halt ∈ stages s frames)
    (howed : owed s a frames = (completion a).toList) : Reporting head told frames s a where
  balance := by rw [htold, List.nil_append, howed, due, if_pos hwound]
  finishing hrunning _ := by
    rcases hwound with hstopped | hhalt
    · rw [hrunning] at hstopped
      cases hstopped
    · exact .inl ⟨_, hhalt, .inr (.inr rfl)⟩

/-- An actor goes on being wound up. What is told is no longer owed. -/
theorem wind (h : Reporting top told frames s a)
    (hwound : a.status = .stopped ∨ .halt ∈ stages s frames) (hstopped : a'.status = .stopped)
    (hbecomes : a.Becomes a') (hsnapshot : a'.snapshot = a.snapshot)
    (howed : told' ++ owed s a xs = told ++ owed s a frames) :
    Reporting head told' xs s a' where
  balance := by
    rw [owed_congr hbecomes, howed, h.balance, due, if_pos hwound, due, if_pos (.inl hstopped),
      completion_congr hbecomes hsnapshot]
  finishing hrunning := by
    rw [hstopped] at hrunning
    cases hrunning

end Reporting

/-! ## The balance of all actors -/

/-- The account of all that has been told. -/
structure Ledger (head : Option Frame) (told : Session → List Event) (sys : System)
    (frames : List Frame) : Prop where
  silent : ∀ s, sys.actor? s = none → told s = []
  reporting : ∀ s a, sys.actor? s = some a → Reporting head (told s) frames s a

namespace Ledger

variable {told told' : Session → List Event} {sys sys' : System} {next : Option Session}

theorem quiet (h : Ledger head told sys frames) (hquiet : sys.Quiet sys') :
    Ledger head told sys' frames :=
  ⟨fun s hnone => h.silent s (hquiet.actor? s ▸ hnone),
    fun s a ha => h.reporting s a (hquiet.actor? s ▸ ha)⟩

/-- One actor has changed, and maybe others have been made. -/
theorem work (top : Option Frame) (h : Ledger top told sys (top.toList ++ rest))
    (hd : Orderly next sys (top.toList ++ rest))
    (htop : ∀ f, top = some f → ∀ t y, f.stage = some (t, y) → t = s)
    (hxs : ∀ g ∈ xs, ∀ t y, g.stage = some (t, y) → t = s) (halters : sys.Alters s a' sys')
    (htold : ∀ t, t ≠ s → told' t = told t)
    (hself : Reporting head (told' s) (xs ++ rest) s a') : Ledger head told' sys' (xs ++ rest) where
  silent t hnone := by
    have hts : t ≠ s := fun heq => by
      rw [heq, halters.self] at hnone
      cases hnone
    rw [htold t hts]
    refine h.silent t ?_
    cases hb : sys.actor? t with
    | none => rfl
    | some b =>
        rw [halters.kept t b hts hb] at hnone
        cases hnone
  reporting t b hb := by
    by_cases hts : t = s
    · rw [hts, halters.self] at hb
      cases hb
      rw [hts]
      exact hself
    · rw [htold t hts]
      have hmute : ∀ g : Frame, (∀ u y, g.stage = some (u, y) → u = s) → g.Mute t := fun g hg =>
        .other fun u x hstage heq => hts (heq ▸ hg u x hstage)
      -- another actor was known before, or is new and has reported nothing
      rcases halters.added t b hts hb with hold | ⟨hunknown, hnew⟩
      · refine (h.reporting t b hold).mute top (fun f hf => hmute f (htop f hf))
          (fun g hg => hmute g (hxs g hg)) (fun hdrain => ?_) rfl rfl rfl
        exact absurd (htop _ hdrain t .drain rfl) hts
      · rw [h.silent t hunknown]
        refine .new hnew fun g hg => ?_
        rcases List.mem_append.mp hg with hg | hg
        · cases hstage : g.stageOf t with
          | none => rfl
          | some y => exact absurd (hxs g hg t y (Frame.stage_of_stageOf hstage)) hts
        · exact hd.unknown hunknown g (List.mem_append_right _ hg)

/-- Actors are made, and frames that are about nobody come and go. -/
theorem grow (top : Option Frame) (h : Ledger top told sys (top.toList ++ rest))
    (hd : Orderly next sys (top.toList ++ rest)) (htop : ∀ f, top = some f → f.stage = none)
    (hgrown : sys.Grown sys') (hxs : ∀ g ∈ xs, g.stage = none) :
    Ledger head told sys' (xs ++ rest) where
  silent t hnone := by
    refine h.silent t ?_
    cases hb : sys.actor? t with
    | none => rfl
    | some b =>
        rw [hgrown.kept t b hb] at hnone
        cases hnone
  reporting t b hb := by
    have hmute : ∀ g : Frame, g.stage = none → g.Mute t := fun g hg x hstage => by
      rw [hg] at hstage
      cases hstage
    rcases hgrown.added t b hb with hold | ⟨hlate, hnew⟩
    · refine (h.reporting t b hold).mute top (fun f hf => hmute f (htop f hf))
        (fun g hg => hmute g (hxs g hg)) (fun hdrain => ?_) rfl rfl rfl
      cases htop _ hdrain
    · have hunknown := hd.system.actor_none hlate
      rw [h.silent t hunknown]
      refine .new hnew fun g hg => ?_
      rcases List.mem_append.mp hg with hg | hg
      · rw [Frame.stageOf, hxs g hg]
        rfl
      · exact hd.unknown hunknown g (List.mem_append_right _ hg)

/-- Frames of one actor come and go that say nothing about its snapshot. -/
theorem mute {x : Stage} (xs : List Frame) (h : Ledger (some f) told sys (f :: rest))
    (hd : Orderly next sys (f :: rest)) (hf : f.stage = some (s, x)) (hx : x.Mute)
    (hxs : ∀ g ∈ xs, ∀ t y, g.stage = some (t, y) → t = s ∧ y.Mute) (ha : sys.actor? s = some a)
    (hbegins : f = .drain s → ¬a.mailbox.Begins) (halters : sys.Alters s a' sys')
    (hbecomes : a.Becomes a') (hstatus : a'.status = a.status)
    (hsnapshot : a'.snapshot = a.snapshot) : Ledger head told sys' (xs ++ rest) := by
  have hown := Frame.mute_own hf hx
  refine h.work (some f) hd (fun g hg t y hstage => ?_)
    (fun g hg t y hstage => (hxs g hg t y hstage).1) halters (fun _ _ => rfl) ?_
  · cases hg
    exact (hown t y hstage).1
  · refine (h.reporting s a ha).mute (some f) (fun g hg x hstage => ?_)
      (fun g hg x hstage => (hxs g hg s x hstage).2)
      (fun hdrain => hbegins (Option.some.inj hdrain)) hbecomes hstatus hsnapshot
    cases hg
    exact (hown s x hstage).2

/-- The same when nothing happens to the actors. -/
theorem mute_same {x : Stage} (xs : List Frame) (h : Ledger (some f) told sys (f :: rest))
    (hd : Orderly next sys (f :: rest)) (hf : f.stage = some (s, x)) (hx : x.Mute)
    (hdrain : f ≠ .drain s) (hxs : ∀ g ∈ xs, ∀ t y, g.stage = some (t, y) → t = s ∧ y.Mute)
    (hactors : ∀ t, sys'.actor? t = sys.actor? t) (hnext : sys'.nextSession = sys.nextSession) :
    Ledger head told sys' (xs ++ rest) := by
  obtain ⟨a, ha⟩ := hd.known f List.mem_cons_self s x hf
  exact h.mute _ hd hf hx hxs ha (fun heq => absurd heq hdrain)
    (System.alters_same hd.system hactors hnext ha) rfl rfl rfl

/-- The work of the actor that the frame on top is about goes on. -/
theorem turn {x : Stage} (xs : List Frame) (h : Ledger (some f) told sys (f :: rest))
    (hd : Orderly next sys (f :: rest)) (hf : f.stage = some (s, x))
    (hxs : ∀ g ∈ xs, ∀ t y, g.stage = some (t, y) → t = s) (halters : sys.Alters s a' sys')
    (htold : ∀ t, t ≠ s → told' t = told t)
    (hself : Reporting head (told' s) (xs ++ rest) s a') : Ledger head told' sys' (xs ++ rest) := by
  refine h.work (some f) hd (fun g hg t y hstage => ?_) hxs halters htold hself
  cases hg
  rw [hf] at hstage
  cases hstage
  rfl

end Ledger

/-! ## Calls -/

section Calls

variable {told : Session → List Event} {sys sys' : System}

/-- What has been told after the frame on top has been carried out. -/
def telling (told : Session → List Event) (top : Option Frame) (s : Session) : List Event :=
  match tells top s with
  | none => told s
  | some event => told s ++ [event]

theorem mute_aside : Stage.aside.Mute := by simp [Stage.Mute]

theorem mute_effects : Stage.effects.Mute := by simp [Stage.Mute]

theorem mute_drain : Stage.drain.Mute := by simp [Stage.Mute]

/-- What an effect has led to tells nothing. -/
theorem telling_aside (hf : f.Aside s) : telling told (some f) = told := by
  cases f with
  | tellParent t event => cases hf
  | _ => rfl

/-- What is about nobody tells nothing. -/
theorem telling_plain (htop : ∀ f, top = some f → f.Plain) : telling told top = told := by
  cases top with
  | none => rfl
  | some f =>
      have hstage := (htop f rfl).stage
      cases f with
      | tellParent t event => cases hstage
      | _ => rfl

/-- Who tells its parent something owes it no longer. -/
theorem Ledger.tell {event : Event} (h : Ledger (some (.tellParent s event)) told sys
      (.tellParent s event :: rest))
    (hd : Orderly none sys (.tellParent s event :: rest)) (hquiet : sys.Quiet sys') :
    Ledger head (telling told (some (.tellParent s event))) sys' rest := by
  obtain ⟨a, ha⟩ := hd.known _ List.mem_cons_self s .tell rfl
  have hstaged := hd.staged (f := .tellParent s event) rfl ha
  have hstopped : a.status = .stopped :=
    (hstaged.stopped .tell List.mem_cons_self (by simp [Stage.Final])).resolve_right (by simp)
  have htells : telling told (some (.tellParent s event)) s = told s ++ [event] := by
    rw [telling, tells, if_pos rfl]
  have howed : owed s a (.tellParent s event :: rest) = event :: owed s a rest :=
    List.filterMap_cons_some (if_pos rfl)
  refine h.turn [] hd rfl (by simp) (hquiet.alters hd.system ha) (fun t hts => ?_) ?_
  · rw [telling, tells, if_neg hts.symm]
  · refine (h.reporting s a ha).wind (.inl hstopped) hstopped rfl rfl ?_
    rw [htells, howed, List.append_assoc]
    rfl

/-- To make a call takes a frame a step further. -/
theorem Calls.ledger {t : Session} {c : Call} {below : List Frame}
    (hcalls : Calls sys top t c below) (hquiet : sys.Quiet sys') (hd : Orderly none sys (top.toList ++ rest))
    (h : Ledger top told sys (top.toList ++ rest)) :
    Ledger none (telling told top) sys' (below ++ rest) := by
  have hactors := hquiet.actor?
  have hnext := hquiet.next
  have hgrown := hquiet.grown
  cases hcalls with
  | outside => exact h.grow none hd (by simp) hgrown (by simp)
  | @send s t recipient event id rest' =>
      have hd : Orderly none sys (.effects s _ :: rest) := hd
      refine h.mute_same (s := s) _ hd rfl mute_effects (by simp) ?_
        hactors hnext
      exact List.forall_mem_cons.mpr ⟨Frame.mute_own rfl mute_aside,
        List.forall_mem_singleton.mpr (Frame.mute_own rfl mute_effects)⟩
  | @start s t rest' =>
      have hd : Orderly none sys (.effects s _ :: rest) := hd
      refine h.mute_same (s := s) _ hd rfl mute_effects (by simp) ?_
        hactors hnext
      exact List.forall_mem_singleton.mpr (Frame.mute_own rfl mute_effects)
  | @stop s t rest' =>
      have hd : Orderly none sys (.effects s _ :: rest) := hd
      refine h.mute_same (s := s) _ hd rfl mute_effects (by simp) ?_
        hactors hnext
      exact List.forall_mem_singleton.mpr (Frame.mute_own rfl mute_effects)
  | stopAll =>
      exact h.grow (some _) hd (by simp [Frame.stage]) hgrown (by simp [Frame.stage])
  | @tell s t event hparent =>
      have hd : Orderly none sys (.tellParent s event :: rest) := hd
      exact Ledger.tell h hd hquiet
  | @script owner name t c next =>
      cases owner with
      | none =>
          exact h.grow (some _) hd (by simp [Frame.stage]) hgrown (by simp [Frame.stage])
      | some s =>
          have hd : Orderly none sys (.script (some s) _ :: rest) := hd
          refine h.mute_same (s := s) _ hd rfl mute_aside (by simp) ?_
            hactors hnext
          exact List.forall_mem_singleton.mpr (Frame.mute_own rfl mute_aside)
  | fire =>
      exact h.grow (some _) hd (by simp [Frame.stage]) hgrown (by simp [Frame.stage])

/-- Nothing has been told of an actor that is open and not at work, and nothing is owed by it. -/
theorem Ledger.unattended {t : Session} {a : Actor} (hl : Ledger none told sys frames)
    (hd : Orderly none sys frames) (ha : sys.actor? t = some a) (hidle : a.mailbox.flushing = false)
    (hopen : a.status ≠ .stopped) :
    stages t frames = [] ∧ told t = [] ∧ owed t a frames = [] := by
  have hnil : stages t frames = [] := stages_eq_nil (hd.unattended ha hidle hopen)
  have hbalance := (hl.reporting t a ha).balance
  rw [due, if_neg (by rw [hnil]; simp [hopen])] at hbalance
  exact ⟨hnil, List.append_eq_nil_iff.mp hbalance⟩

/-- An actor that was not at work starts to work off its mailbox. -/
theorem Ledger.claimed {t : Session} {a : Actor} {m m' : Mailbox} (hl : Ledger none told sys frames)
    (hd : Orderly none sys frames) (ha : sys.actor? t = some a) {c : Call}
    (hturns : a.mailbox.Turns c m) (hbegin : m.beginFlush? = some m')
    (hputs : sys.Puts t { a with mailbox := m' } sys') :
    Ledger (some (.drain t)) told sys' ([.drain t, .leave] ++ frames) := by
  have hidle := ((hd.attended t a ha).kept.claim hturns hbegin).2.2
  have hrunning := Mailbox.running_of_beginFlush hbegin
  obtain ⟨hnil, htold, howed⟩ := hl.unattended hd ha hidle (hturns.open hrunning)
  obtain ⟨-, hm⟩ := Option.ite_none_left_eq_some.mp hbegin
  obtain ⟨hstatus, hqueue⟩ : m'.status = .running ∧ m'.queue = m.queue := by
    cases hm
    exact ⟨hrunning, rfl⟩
  refine hl.work none hd (by simp) (by simp [Frame.stage])
    (hputs.alters hd.system ha rfl rfl) (fun _ _ => rfl) (.busy htold ?_ ?_ ?_ ?_)
  · simp [Actor.status, hstatus]
  · simp [stages_cons, Frame.stageOf, Frame.stage, hnil]
  · exact howed
  · -- an actor that is done before it begins is about to be told to begin
    intro _ hfinal
    rcases hturns.status with hsame | ⟨rfl, -, -⟩
    · obtain ⟨x, hx, -⟩ | ⟨hhead, -⟩ := (hl.reporting t a ha).finishing
        (hsame.symm.trans hrunning) hfinal
      · rw [hnil] at hx
        cases hx
      · cases hhead
    · refine .inr ⟨rfl, ?_⟩
      unfold Mailbox.Begins
      rw [hqueue]
      exact hturns.begins

/-- An actor that has not begun is stopped. -/
theorem Ledger.halted {t : Session} {a : Actor} (hl : Ledger none told sys frames)
    (hd : Orderly none sys frames) (ha : sys.actor? t = some a) (hstatus : a.status = .notStarted)
    (hputs : sys.Puts t { a with snapshot := a.snapshot.stopped } sys') :
    Ledger (some (.halt t)) told sys' ([.halt t, .finish t, .reply (.ok ())] ++ frames) := by
  have hopen : a.status ≠ .stopped := by simp [hstatus]
  have hidle := (hd.attended t a ha).kept.unopened hstatus
  obtain ⟨hnil, htold, howed⟩ := hl.unattended hd ha hidle hopen
  have halters : sys.Alters t { a with snapshot := a.snapshot.stopped } sys' :=
    hd.system.thrives.alters hputs hd.system ha rfl (hd.system.suits t a ha).stopped
  refine hl.work none hd (by simp) (by simp [Frame.stage]) halters (fun _ _ => rfl)
    (.close htold (.inr ?_) ?_)
  · simp [stages_cons, Frame.stageOf, Frame.stage]
  · have hnone : completion { a with snapshot := a.snapshot.stopped } = none := by
      rw [completion, Snapshot.status_stopped]
    rw [hnone]
    exact howed

/-- The answer to a call comes before everything else. -/
theorem Answered.ledger {t : Session} {c : Call} (h : Answered sys t c sys' xs)
    (hd : Orderly none sys frames) (hl : Ledger none told sys frames) :
    Ledger (xs ++ frames).head? told sys' (xs ++ frames) := by
  have hplain : ∀ {xs : List Frame}, xs = [] ∨ xs = [.leave] → ∀ g ∈ xs, g.stage = none := by
    rintro _ (rfl | rfl) <;> simp [Frame.stage]
  cases h with
  | refused hquiet hframes _ => exact hl.grow none hd (by simp) hquiet.grown (hplain hframes)
  | posted ha hturns hsettled hputs hframes =>
      have hstage := hplain hframes
      refine hl.work none hd (by simp) (fun g hg u y h => ?_) (hputs.alters hd.system ha rfl rfl)
        (fun _ _ => rfl) ((hl.reporting t _ ha).mute none (by simp) (fun g hg x h => ?_) (by simp)
          rfl (hturns.posted (hd.attended t _ ha).kept hsettled) rfl) <;>
      · rw [hstage g hg] at h
        cases h
  | claimed ha hturns hbegin hputs => exact hl.claimed hd ha hturns hbegin hputs
  | halted ha hstatus hputs => exact hl.halted hd ha hstatus hputs

end Calls

/-! ## Moves -/

section Moves

variable {told : Session → List Event} {sys sys' : System}

/-- Nothing has been told of an actor that is not wound up, and nothing is owed. -/
theorem Ledger.free (hl : Ledger (some f) told sys (f :: rest)) (ha : sys.actor? s = some a)
    (hopen : a.status ≠ .stopped) (hhalt : .halt ∉ stages s (f :: rest)) :
    told s = [] ∧ owed s a rest = [] := by
  have hbalance := (hl.reporting s a ha).balance
  rw [due, if_neg (not_or.mpr ⟨hopen, hhalt⟩)] at hbalance
  obtain ⟨htold, howed⟩ := List.append_eq_nil_iff.mp hbalance
  refine ⟨htold, List.filterMap_eq_nil_iff.mpr fun g hg => ?_⟩
  exact List.filterMap_eq_nil_iff.mp howed g (List.mem_cons_of_mem _ hg)

/-- What is known of an actor that takes an event. -/
theorem Ledger.taking {m : Mailbox} {event : Event} (hl : Ledger (some (.drain s)) told sys
      (.drain s :: rest)) (hd : Orderly none sys (.drain s :: rest)) (ha : sys.actor? s = some a)
    (hnext : a.mailbox.next = (m, some event)) :
    a.status = .running ∧ m.status = .running ∧ stages s rest = [] ∧ told s = [] ∧
      owed s a rest = [] := by
  have hrunning := hd.running ha hnext
  have hnil := hd.below_drain ha
  obtain ⟨-, hm⟩ := Mailbox.next_some hnext
  have hhalt : .halt ∉ stages s (.drain s :: rest) := by
    simp [stages_cons, Frame.stageOf, Frame.stage, hnil]
  obtain ⟨htold, howed⟩ := hl.free ha (by simp [hrunning]) hhalt
  exact ⟨hrunning, by rw [hm]; exact hrunning, hnil, htold, howed⟩

theorem Ledger.begun {m : Mailbox} {event : Event} (hl : Ledger (some (.drain s)) told sys
      (.drain s :: rest)) (hd : Orderly none sys (.drain s :: rest)) (ha : sys.actor? s = some a)
    (hnext : a.mailbox.next = (m, some event))
    (hputs : sys.Puts s { a with mailbox := m, pending := [] } sys') :
    Ledger head told sys' ([.effects s a.pending, .launch s a.snapshot, .drain s] ++ rest) := by
  obtain ⟨-, hrunning, hnil, htold, howed⟩ := hl.taking hd ha hnext
  refine hl.turn _ hd rfl (by simp [Frame.stage]) (hputs.alters hd.system ha rfl rfl)
    (fun _ _ => rfl) (.busy htold ?_ ?_ howed fun _ _ => .inl ⟨.launch, ?_, .inl rfl⟩)
  · simp [Actor.status, hrunning]
  · simp [stages_cons, Frame.stageOf, Frame.stage, hnil]
  · simp [stages_cons, Frame.stageOf, Frame.stage]

theorem Ledger.stopped {m : Mailbox} {event : Event} {sys₀ sys₁ : System} {next : Snapshot}
    {effects : List Effect} {kept : List Session} (hl : Ledger (some (.drain s)) told sys
      (.drain s :: rest)) (hd : Orderly none sys (.drain s :: rest)) (ha : sys.actor? s = some a)
    (hnext : a.mailbox.next = (m, some event)) (htook : sys.Puts s { a with mailbox := m } sys₀)
    (hends : Ends sys₀ { a with mailbox := m } sys₁ next effects)
    (hputs : sys₁.Puts s { a with mailbox := m.close, snapshot := next } sys') :
    Ledger head told sys'
      ([.effects s effects, .halt s, .finish s, .keep kept, .drain s] ++ rest) := by
  obtain ⟨-, -, -, htold, howed⟩ := hl.taking hd ha hnext
  have hnone : completion { a with mailbox := m.close, snapshot := next } = none := by
    rw [completion, show next.status = .stopped from hends.status]
  refine hl.turn _ hd rfl (by simp [Frame.stage]) (hends.alters hd.system ha htook hputs)
    (fun _ _ => rfl) (.close htold (.inl rfl) ?_)
  rw [hnone]
  exact howed

theorem Ledger.reacted {m : Mailbox} {event : Event} {sys₀ sys₁ : System} {next : Snapshot}
    {effects : List Effect} {failure : Option ActorError} {kept : List Session}
    (hl : Ledger (some (.drain s)) told sys (.drain s :: rest))
    (hd : Orderly none sys (.drain s :: rest)) (ha : sys.actor? s = some a)
    (hnext : a.mailbox.next = (m, some event)) (htook : sys.Puts s { a with mailbox := m } sys₀)
    (hreacts : Reacts sys₀ { a with mailbox := m } event sys₁ next effects failure)
    (hputs : sys₁.Puts s { a with mailbox := m, snapshot := next } sys') :
    Ledger head told sys' ([.effects s effects, .notify a.observers (.next next),
      .settle s next failure, .keep kept, .drain s] ++ rest) := by
  obtain ⟨-, hrunning, hnil, htold, howed⟩ := hl.taking hd ha hnext
  refine hl.turn _ hd rfl (by simp [Frame.stage]) (hreacts.alters hd.system ha htook hputs)
    (fun _ _ => rfl) (.busy htold ?_ ?_ howed fun _ _ => .inl ⟨.settle, ?_, .inr (.inl rfl)⟩)
  · simp [Actor.status, hrunning]
  · simp [stages_cons, Frame.stageOf, Frame.stage, hnil]
  · simp [stages_cons, Frame.stageOf, Frame.stage]

theorem Ledger.launched {sys₁ : System} {snapshot next : Snapshot} {effects : List Effect}
    {failure : Option ActorError} (hl : Ledger (some (.launch s snapshot)) told sys
      (.launch s snapshot :: rest)) (hd : Orderly none sys (.launch s snapshot :: rest))
    (ha : sys.actor? s = some a) (hlaunches : Launches sys a snapshot sys₁ next effects failure)
    (hputs : sys₁.Puts s { a with snapshot := next } sys') :
    Ledger head told sys' ([.effects s effects, .notify a.observers (.next next),
      .settle s next failure] ++ rest) := by
  obtain ⟨hrest, -, hrunning⟩ := (hd.staged (f := .launch s snapshot) rfl ha).below_launch
  have hhalt : .halt ∉ stages s (.launch s snapshot :: rest) := by
    simp [stages_cons, Frame.stageOf, Frame.stage, hrest]
  obtain ⟨htold, howed⟩ := hl.free ha (by simp [hrunning]) hhalt
  refine hl.turn _ hd rfl (by simp [Frame.stage])
    (hlaunches.alters hd.system ha (hd.launching ha) hputs) (fun _ _ => rfl)
    (.busy htold ?_ ?_ howed fun _ _ => .inl ⟨.settle, ?_, .inr (.inl rfl)⟩)
  · show a.status ≠ .stopped
    simp [hrunning]
  · simp [stages_cons, Frame.stageOf, Frame.stage, hrest]
  · simp [stages_cons, Frame.stageOf, Frame.stage]

/-- What is known of an actor whose snapshot decides whether it goes on. -/
theorem Ledger.settling {snapshot : Snapshot} {failure : Option ActorError}
    (hl : Ledger (some (.settle s snapshot failure)) told sys (.settle s snapshot failure :: rest))
    (hd : Orderly none sys (.settle s snapshot failure :: rest)) (ha : sys.actor? s = some a) :
    a.status = .running ∧ snapshot = a.snapshot ∧ stages s rest = [.drain] ∧ told s = [] ∧
      owed s a rest = [] := by
  have hstaged := hd.staged (f := .settle s snapshot failure) rfl ha
  have hrunning := hstaged.running .settle List.mem_cons_self (.inr rfl)
  have hrest := hstaged.below_settle.1
  have hhalt : .halt ∉ stages s (.settle s snapshot failure :: rest) := by
    simp [stages_cons, Frame.stageOf, Frame.stage, hrest]
  exact ⟨hrunning, (hd.attended s a ha).current _ List.mem_cons_self _ (if_pos rfl), hrest,
    hl.free ha (by simp [hrunning]) hhalt⟩

/-- An actor is wound up that has something to report. -/
theorem Ledger.wound {snapshot : Snapshot} {failure : Option ActorError}
    (hl : Ledger (some (.settle s snapshot failure)) told sys (.settle s snapshot failure :: rest))
    (hd : Orderly none sys (.settle s snapshot failure :: rest)) (ha : sys.actor? s = some a)
    (hquiet : sys.Quiet sys') (hxs : ∀ g ∈ xs, ∀ t y, g.stage = some (t, y) → t = s)
    (hhalt : .halt s ∈ xs) (howed : snapshot = a.snapshot → owed s a xs = (completion a).toList) :
    Ledger head told sys' (xs ++ rest) := by
  obtain ⟨-, hcurrent, -, htold, hnone⟩ := hl.settling hd ha
  refine hl.turn _ hd rfl hxs (hquiet.alters hd.system ha) (fun _ _ => rfl)
    (.close htold (.inr ?_) ?_)
  · rw [stages_append]
    exact List.mem_append_left _ (mem_stages.mpr ⟨_, hhalt, rfl⟩)
  · rw [owed_append, hnone, howed hcurrent, List.append_nil]

/-- An actor that goes on has nothing to report. -/
theorem Ledger.settled {snapshot : Snapshot} {failure : Option ActorError}
    (hl : Ledger (some (.settle s snapshot failure)) told sys (.settle s snapshot failure :: rest))
    (hd : Orderly none sys (.settle s snapshot failure :: rest)) (hquiet : sys.Quiet sys')
    (hdone : snapshot.status ≠ .done) (herror : snapshot.status ≠ .error) :
    Ledger head told sys' rest := by
  obtain ⟨a, ha⟩ := hd.known _ List.mem_cons_self s _ rfl
  obtain ⟨hrunning, rfl, hrest, htold, howed⟩ := hl.settling hd ha
  have hnone : completion a = none := by
    cases hstatus : a.snapshot.status with
    | done => exact absurd hstatus hdone
    | error => exact absurd hstatus herror
    | active => rw [completion, hstatus]
    | stopped => rw [completion, hstatus]
  refine hl.turn [] hd rfl (by simp) (hquiet.alters hd.system ha) (fun _ _ => rfl)
    (.busy htold (by simp [hrunning]) (by simp [hrest]) howed fun _ hfinal => ?_)
  exact absurd hnone hfinal

theorem Ledger.done {snapshot : Snapshot} {failure : Option ActorError}
    (hl : Ledger (some (.settle s snapshot failure)) told sys (.settle s snapshot failure :: rest))
    (hd : Orderly none sys (.settle s snapshot failure :: rest)) (hquiet : sys.Quiet sys')
    (hstatus : snapshot.status = .done) :
    Ledger head told sys' ([.halt s, .finish s, .tellParent s (fromChild (sys.actor s)
      (.doneActor (sys.actor s).id (snapshot.output.getD .null)))] ++ rest) := by
  obtain ⟨a, ha⟩ := hd.known _ List.mem_cons_self s _ rfl
  rw [System.actor_eq ha]
  refine hl.wound hd ha hquiet (by simp [Frame.stage]) List.mem_cons_self fun hcurrent => ?_
  rw [completion, ← hcurrent, hstatus]
  simp [owed_cons, report?]

theorem Ledger.broken {snapshot : Snapshot} {failure : Option ActorError}
    (hl : Ledger (some (.settle s snapshot failure)) told sys (.settle s snapshot failure :: rest))
    (hd : Orderly none sys (.settle s snapshot failure :: rest)) (hquiet : sys.Quiet sys')
    (hstatus : snapshot.status = .error) :
    Ledger head told sys' ([.halt s, .failed s snapshot failure] ++ rest) := by
  obtain ⟨a, ha⟩ := hd.known _ List.mem_cons_self s _ rfl
  refine hl.wound hd ha hquiet (by simp [Frame.stage]) List.mem_cons_self fun hcurrent => ?_
  rw [completion, ← hcurrent, hstatus]
  simp [owed_cons, report?]

/-- What a failure owes to the parent is then owed by a frame of its own. -/
theorem Ledger.reported {snapshot : Snapshot} {failure : Option ActorError} {before : List Frame}
    (hl : Ledger (some (.failed s snapshot failure)) told sys (.failed s snapshot failure :: rest))
    (hd : Orderly none sys (.failed s snapshot failure :: rest)) (hquiet : sys.Quiet sys')
    (hbefore : ∀ f ∈ before, f.Plain) :
    Ledger head told sys' (before ++ [.tellParent s (fromChild (sys.actor s)
      (.errorPlatform (sys.actor s).id (snapshot.error.getD .null)))] ++ rest) := by
  obtain ⟨a, ha⟩ := hd.known _ List.mem_cons_self s _ rfl
  have hstaged := hd.staged (f := .failed s snapshot failure) rfl ha
  have hstopped : a.status = .stopped :=
    (hstaged.stopped .failed List.mem_cons_self (by simp [Stage.Final])).resolve_right (by simp)
  rw [System.actor_eq ha]
  have hnobody : ∀ g ∈ before, ∀ t x, g.stage ≠ some (t, x) := fun g hg t x hstage => by
    rw [(hbefore g hg).stage] at hstage
    cases hstage
  have hmute : ∀ g ∈ before, g.Mute s := fun g hg x hstage => absurd hstage (hnobody g hg s x)
  refine hl.turn _ hd rfl (fun g hg t y hstage => ?_) (hquiet.alters hd.system ha) (fun _ _ => rfl)
    ((hl.reporting s a ha).wind (.inl hstopped) hstopped rfl rfl ?_)
  · rcases List.mem_append.mp hg with hg | hg
    · exact absurd hstage (hnobody g hg t y)
    · rw [List.mem_singleton.mp hg] at hstage
      cases hstage
      rfl
  · rw [owed_append, owed_append, owed_mute hmute]
    simp [owed_cons, report?]

/-- Nothing is left in the mailbox, so that nothing was to make the actor begin. -/
theorem Ledger.emptied {m : Mailbox} (hl : Ledger (some (.drain s)) told sys (.drain s :: rest))
    (hd : Orderly none sys (.drain s :: rest)) (ha : sys.actor? s = some a)
    (hnext : a.mailbox.next = (m, none)) (hputs : sys.Puts s { a with mailbox := m } sys') :
    Ledger head told sys' rest := by
  obtain ⟨hqueue, -⟩ := Mailbox.next_none hnext
  refine hl.mute [] hd rfl mute_drain (by simp) ha (fun _ => ?_)
    (hputs.alters hd.system ha rfl rfl) rfl (Mailbox.next_status hnext) rfl
  rintro ⟨event, hsome, -⟩
  rw [hqueue] at hsome
  cases hsome

/-- An event is passed over that does not make the actor begin. -/
theorem Ledger.passed {m : Mailbox} {event : Event}
    (hl : Ledger (some (.drain s)) told sys (.drain s :: rest))
    (hd : Orderly none sys (.drain s :: rest)) (ha : sys.actor? s = some a)
    (hnext : a.mailbox.next = (m, some event)) (hinit : event.name ≠ Event.initName)
    (hputs : sys.Puts s { a with mailbox := m } sys') :
    Ledger head told sys' ([.drain s] ++ rest) := by
  obtain ⟨hqueue, -⟩ := Mailbox.next_some hnext
  refine hl.mute _ hd rfl mute_drain ?_ ha (fun _ => ?_) (hputs.alters hd.system ha rfl rfl) rfl
    (Mailbox.next_status hnext) rfl
  · exact List.forall_mem_singleton.mpr (Frame.mute_own rfl mute_drain)
  · rintro ⟨first, hfirst, hname⟩
    rw [hqueue] at hfirst
    cases hfirst
    exact hinit hname

/-- What has been told and what is owed stay in balance. -/
theorem Moves.ledger (h : Moves sys top sys' xs)
    (hd : Orderly (closing (top.toList ++ rest)) sys (top.toList ++ rest))
    (hrest : top = none → rest = [])
    (hl : Ledger top told sys (top.toList ++ rest)) :
    Ledger (xs ++ rest).head? (telling told top) sys' (xs ++ rest) := by
  have hsound := hd.system
  cases h with
  | idled htop hquiet hxs =>
      rw [telling_plain htop]
      exact hl.grow top hd (fun f hf => (htop f hf).stage) hquiet.grown fun g hg => (hxs g hg).stage
  | grown h => exact hl.grow none hd (by simp) h.grown (by simp)
  | watched observers ha hputs =>
      exact hl.work none hd (by simp) (by simp) (hputs.alters hsound ha rfl rfl) (fun _ _ => rfl)
        ((hl.reporting _ _ ha).mute none (by simp) (by simp) (by simp) rfl rfl rfl)
  | called hcalls hquiet h =>
      rw [hcalls.closing_eq hrest] at hd
      rw [List.append_assoc]
      exact h.ledger (hcalls.orderly hquiet hd) (hcalls.ledger hquiet hd hl)
  -- the frames that come and go with an effect are mute
  | @resumed f s sys' xs hf hquiet hxs =>
      have hd : Orderly (closing (f :: rest)) sys (f :: rest) := hd
      rw [closing_aside hf] at hd
      have htells : telling told (some f) = told := telling_aside hf
      rw [htells]
      have haside : ∀ g ∈ xs, ∀ t y, g.stage = some (t, y) → t = s ∧ y.Mute := by
        rcases hxs with rfl | ⟨g, hg, rfl⟩
        · simp
        · exact List.forall_mem_singleton.mpr (Frame.mute_own hg mute_aside)
      exact hl.mute_same _ hd hf mute_aside (fun heq => by rw [heq] at hf; cases hf) haside
        hquiet.actor? hquiet.next
  | @posted f s a event sys' hf ha hputs =>
      have hd : Orderly (closing (f :: rest)) sys (f :: rest) := hd
      rw [closing_aside hf] at hd
      have htells : telling told (some f) = told := telling_aside hf
      rw [htells]
      exact hl.mute [] hd hf mute_aside (by simp) ha
        (fun heq => by rw [heq] at hf; cases hf) (hputs.alters hsound ha rfl rfl) rfl
        (Mailbox.enqueue_flushing _ _ _).2 rfl
  | @exhausted s sys' hquiet =>
      exact hl.mute_same (s := s) [] hd rfl mute_effects (by simp) (by simp)
        hquiet.actor? hquiet.next
  | @performed s e rest' sys' _ h =>
      refine hl.mute_same (s := s) _ hd rfl mute_effects (by simp) ?_ h.actor? h.next
      exact List.forall_mem_singleton.mpr (Frame.mute_own rfl mute_effects)
  | @interrupted s e rest' g _ hg =>
      refine hl.mute_same (s := s) _ hd rfl mute_effects (by simp) ?_ (fun _ => rfl) rfl
      exact List.forall_mem_cons.mpr ⟨Frame.mute_own hg mute_aside,
        List.forall_mem_singleton.mpr (Frame.mute_own rfl mute_effects)⟩
  -- whether an actor goes on shows in its snapshot, and what it has to report is owed by a frame
  | settled hquiet hdone herror => exact Ledger.settled hl hd hquiet hdone herror
  | done hquiet hstatus => exact Ledger.done hl hd hquiet hstatus
  | broken hquiet hstatus => exact Ledger.broken hl hd hquiet hstatus
  | reported hquiet hbefore => exact Ledger.reported hl hd hquiet hbefore
  | untold hquiet => exact Ledger.tell hl hd hquiet
  | emptied ha hnext hputs => exact Ledger.emptied hl hd ha hnext hputs
  | passed ha hnext hinit _ _ hputs => exact Ledger.passed hl hd ha hnext hinit hputs
  | begun ha hnext _ hputs => exact Ledger.begun hl hd ha hnext hputs
  | stopped ha hnext _ htook hends hputs => exact Ledger.stopped hl hd ha hnext htook hends hputs
  | reacted ha hnext _ _ _ htook hreacts hputs =>
      exact Ledger.reacted hl hd ha hnext htook hreacts hputs
  | launched ha hlaunches hputs => exact Ledger.launched hl hd ha hlaunches hputs
  | @halted s a sys' ha hputs =>
      refine hl.turn _ hd rfl (by simp [Frame.stage]) (hputs.alters hsound ha rfl rfl)
        (fun _ _ => rfl)
        ((hl.reporting s a ha).wind (.inr ?_) rfl rfl rfl rfl)
      simp [stages_cons, Frame.stageOf, Frame.stage]
  | @retired s sys' hactors hnext =>
      exact hl.mute_same (s := s) [] hd rfl (by simp [Stage.Mute]) (by simp) (by simp)
        hactors hnext
  | @finished s a sys' ha hputs =>
      refine hl.mute _ hd rfl (by simp [Stage.Mute]) ?_ ha (by simp)
        (hputs.alters hsound ha rfl rfl) rfl rfl rfl
      simp [Frame.stage]

end Moves

end Delivery

end Statechart
