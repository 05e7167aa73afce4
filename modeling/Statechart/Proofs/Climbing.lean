import Statechart.Proofs.Breaking

/-!
# Failures that climb

A child that fails sends its parent a report. Where nobody does anything about it, the report is the
end of the parent as well, which has a parent of its own, and so on up to the actor that has none
(`Delivery.failure_climbs`): all of them fail with the data of the first failure, and the caller
hears of it in the name of the last one.

Each report is sent and worked off within the call by which the failure below it came about. So the
induction is on the actors above (`Delivery.Breaks.climbs`): on the way up a failure breaks the
machine of the parent (`Delivery.Breaks.passes`), and on the way down the calls end
(`Delivery.Climbed.descends`). What carries it is that a chain stays ready while its first actor
changes (`Delivery.Ready.spared`).

A parent has to be found to get the report. Its children do not keep it, and their timers do so only
until they fail (`Delivery.unheld_bureau_lost`).
-/

namespace Statechart.Delivery

variable {d e : Delivery} {s p root : Session} {a : Actor} {rest : List Frame} {data : Json}
  {m : Machine} {t next : MachineSnapshot}

/-! ## Chains of actors -/

/-- The actors above `s`, up to the one without a parent. Each runs, has the one below as its only
child, and does nothing about the report that this one has failed. -/
inductive Rises (d : Delivery) (data : Json) : Session → List Session → Session → Prop
  | root {s : Session} {a : Actor} (ha : d.system.actor? s = some a) (hparent : a.parent = none) :
      Rises d data s [] s
  | step {s p root : Session} {above : List Session} {m : Machine} {t : MachineSnapshot}
      (hworking : d.Working p m t) (honly : t.children.map Prod.snd = [s])
      (heventless : m.definition.selectEventless (m.situation t)
        (report (d.system.actor s) data) = .ok [])
      (hselect : m.definition.select (m.situation t) (report (d.system.actor s) data) = .ok [])
      (h : Rises d data p above root) : Rises d data s (p :: above) root

variable {above : List Session}

/-- An only child has been made later, for its parent. -/
theorem Working.child (h : d.Working p m t) (hd : d.Sound) (honly : t.children.map Prod.snd = [s]) :
    p.number < s.number ∧ ∃ a, d.system.actor? s = some a ∧ a.parent = some p := by
  obtain ⟨b, hb, -, -, hsnapshot, -⟩ := h.actor
  obtain ⟨c, hc, rfl⟩ := List.mem_map.mp (honly ▸ List.mem_singleton_self s)
  have hsuits := hd.system.suits p b hb
  rw [hsnapshot] at hsuits
  obtain ⟨a, ha, -, hparent⟩ := hsuits.children c hc
  exact ⟨(hparent p rfl).1, a, ha, (hparent p rfl).2⟩

theorem Rises.known (h : d.Rises data s above root) : ∃ a, d.system.actor? root = some a := by
  induction h with
  | root ha _ => exact ⟨_, ha⟩
  | step _ _ _ _ _ ih => exact ih

/-- Whoever is above runs. -/
theorem Rises.working (h : d.Rises data s above root) : ∀ c ∈ above, ∃ m t, d.Working c m t := by
  induction h with
  | root => simp
  | step hworking _ _ _ _ ih =>
      intro c hc
      rcases List.mem_cons.mp hc with rfl | hc
      · exact ⟨_, _, hworking⟩
      · exact ih c hc

/-- Whoever is above has been made earlier. -/
theorem Rises.earlier (h : d.Rises data s above root) (hd : d.Sound) :
    ∀ c ∈ above, c.number < s.number := by
  induction h with
  | root => simp
  | step hworking honly _ _ _ ih =>
      have hlt := (hworking.child hd honly).1
      intro c hc
      rcases List.mem_cons.mp hc with rfl | hc
      · exact hlt
      · exact (ih c hc).trans hlt

/-- What keeps the last one keeps the first one, through those between them. -/
theorem Rises.keeps {others : List Session} (h : d.Rises data s above root)
    (hkept : d.system.KeptBeside others root) (hothers : ∀ c ∈ above, c ∉ others) :
    d.system.KeptBeside others s := by
  induction h with
  | root => exact hkept
  | @step s p root above m t hworking honly _ _ _ ih =>
      obtain ⟨b, hb, -, -, hsnapshot, -⟩ := hworking.actor
      refine .actor (ih hkept fun c hc => hothers c (List.mem_cons_of_mem _ hc))
        (hothers p List.mem_cons_self) hb (List.mem_append_left _ ?_)
      rw [hsnapshot]
      exact (honly ▸ List.mem_singleton_self s : s ∈ t.children.map Prod.snd)

/-- A chain stays as it is while those above do, whatever the first one turns into. -/
theorem Rises.later (h : d.Rises data s above root) (hd : d.Sound)
    (hfollows : d.system.Follows e.system)
    (habove : ∀ c ∈ above, ∀ b, d.system.actor? c = some b → e.system.actor? c = some b) :
    e.Rises data s above root := by
  induction h with
  | root ha hparent =>
      obtain ⟨a', ha', hbecomes⟩ := hfollows.actor _ _ ha
      exact .root ha' (by rw [hbecomes]; exact hparent)
  | @step s p root above m t hworking honly heventless hselect h ih =>
      obtain ⟨-, a, ha, -⟩ := hworking.child hd honly
      obtain ⟨a', ha', hbecomes⟩ := hfollows.actor s a ha
      obtain ⟨b, hb, -⟩ := hworking.actor
      have hworking' := hworking.same hb (habove p List.mem_cons_self b hb) rfl rfl rfl rfl
      have hreport : report (e.system.actor s) data = report (d.system.actor s) data := by
        rw [System.actor_eq ha, System.actor_eq ha', report_becomes hbecomes]
      exact .step hworking' honly (hreport ▸ heventless) (hreport ▸ hselect)
        (ih fun c hc => habove c (List.mem_cons_of_mem _ hc))

/-! ## Chains that are ready -/

/-- A chain is ready for the failure of its first actor: nothing waits for those above, and
something besides the others keeps the last one. -/
structure Ready (d : Delivery) (data : Json) (s : Session) (above : List Session)
    (root : Session) : Prop where
  rises : d.Rises data s above root
  kept : above ≠ [] → d.system.KeptBeside (s :: above).dropLast root
  free : ∀ c ∈ above, (d.system.actor c).mailbox.flushing = false ∧
    (d.system.actor c).mailbox.queue = []

/-- The first actor of a chain makes no difference to the others. -/
theorem Ready.spared (h : d.Ready data s above root) (hd : d.Sound)
    (hfollows : d.system.Follows e.system) (hspares : d.system.Spares s e.system) :
    e.Ready data s above root := by
  have habove : ∀ c ∈ above, ∀ b, d.system.actor? c = some b → e.system.actor? c = some b :=
    fun c hc b hb => hspares.others c b
      (by rintro rfl; exact Nat.lt_irrefl _ (h.rises.earlier hd c hc)) hb
  refine ⟨h.rises.later hd hfollows habove, fun hmore => ?_, fun c hc => ?_⟩
  · obtain ⟨p, above, rfl⟩ := List.exists_cons_of_ne_nil hmore
    exact (h.kept hmore).spared hspares List.mem_cons_self
  · obtain ⟨_, _, hworking⟩ := h.rises.working c hc
    obtain ⟨b, hb, -⟩ := hworking.actor
    rw [System.actor_eq (habove c hc b hb), ← System.actor_eq hb]
    exact h.free c hc

theorem Ready.tail (h : d.Ready data s (p :: above) root) : d.Ready data p above root := by
  obtain ⟨hrises, hkept, hfree⟩ := h
  refine ⟨?_, fun hmore => ?_, fun c hc => hfree c (List.mem_cons_of_mem _ hc)⟩
  · cases hrises with
    | step _ _ _ _ h => exact h
  · obtain ⟨q, above, rfl⟩ := List.exists_cons_of_ne_nil hmore
    exact (hkept (List.cons_ne_nil _ _)).mono (List.subset_cons_self _ _)

/-- The parent of the first actor is kept by something besides it. -/
theorem Ready.parent_kept (h : d.Ready data s (p :: above) root) (hd : d.Sound) :
    d.system.KeptBeside [s] p := by
  have hroot : d.system.KeptBeside [s] root :=
    (h.kept (List.cons_ne_nil _ _)).mono (List.cons_subset.mpr ⟨List.mem_cons_self, by simp⟩)
  have hearlier := h.rises.earlier hd
  refine h.tail.rises.keeps hroot fun c hc hcs => ?_
  rw [List.mem_singleton.mp hcs] at hc
  exact Nat.lt_irrefl _ (hearlier s (List.mem_cons_of_mem _ hc))

/-! ## Climbing -/

/-- The failure of an actor breaks the machine of its parent, which does nothing about it. -/
theorem Breaks.passes (h : d.Breaks s data rest) (hd : d.Regular)
    (hready : d.Ready data s (p :: above) root) : ∃ d₁ e a kept,
      Leads s 8 d d₁ ∧ Leads p 2 d₁ e ∧ e.Breaks p data (.leave :: .keep kept :: .drain s :: rest) ∧
        e.Ready data p above root ∧ e.system.actor? s = some a ∧ a.Failed data ∧
          a.mailbox.queue = [] := by
  have hsound := hd.reached.sound
  have hkept := hready.parent_kept hsound
  obtain ⟨hflushing, hqueue⟩ := hready.free p List.mem_cons_self
  cases hready.rises with
  | @step _ _ _ _ m t hworking honly heventless hselect _ =>
    obtain ⟨hlt, a₀, ha₀, hparent⟩ := hworking.child hsound honly
    have hps : p ≠ s := by rintro rfl; omega
    obtain ⟨b, hb, hlogic, -, -, hrunning, -⟩ := hworking.actor
    rw [System.actor_eq hb] at hflushing hqueue
    -- the actor fails, and is still the child of its parent
    obtain ⟨d₁, a, last, kept, h₁, hframes₁, herror, ha, hbecomes, hfailed, hempty, hnobody⟩ :=
      h.fails hd
    have hd₁ := h₁.within.regular hd
    rw [← report_becomes hbecomes] at heventless hselect
    rw [System.actor_eq ha₀] at hbecomes
    -- the parent hears of it
    have hb₁ := h₁.spares.others p b hps hb
    have haccepts : b.logic.accepts spawn (report a data) = .ok () := by
      rw [hlogic]
      exact accepts_report _ _ _
    obtain ⟨d₂, h₂, hframes₂, hb₂⟩ := failed_child hd₁ hframes₁ herror ha hnobody
      (by rw [hbecomes]; exact hparent) hb₁ hrunning hflushing
      (hkept.spared h₁.spares (List.mem_singleton_self s)).kept haccepts
    have ha₂ := h₂.spares.others s a hps.symm ha
    -- and does nothing about it
    obtain ⟨next, htransition, hbroken, hsublist⟩ := Machine.transition_fails hworking.active
      heventless hselect (isError_report a data) (d₂.stepScope p)
    refine ⟨d₁, d₂, a, kept, h₁, h₂, ?_, ?_, ha₂, hfailed, hempty⟩
    · refine .intro (hworking.same hb hb₂ rfl rfl rfl rfl) hframes₂ ?_ (report_name a data).1
        (report_name a data).2 htransition rfl hbroken ?_ ?_
      · rw [System.actor_eq hb₂]
        simp [Mailbox.push, hqueue]
      · intro c hc
        have hcs : c.2 ∈ t.children.map Prod.snd := List.mem_map_of_mem (hsublist.subset hc)
        rw [honly, List.mem_singleton] at hcs
        rw [hcs, System.actor_eq ha₂]
        exact hfailed.stopped
      · have hone := congrArg List.length honly
        rw [List.length_map] at hone
        exact hsublist.length_le.trans hone.le
    · exact (hready.spared hsound (h₁.within.follows hd) h₁.spares).tail.spared hd₁.reached.sound
        (h₂.within.follows hd₁) h₂.spares

/-- What has become of a chain whose first actor has broken: all have failed with the same data, and
the caller of the delivery in progress is to hear of it in the name of the last one. -/
structure Climbed (d : Delivery) (data : Json) (s : Session) (above : List Session)
    (root : Session) (rest : List Frame) (e : Delivery) : Prop where
  frames : e.frames = rest
  unhandled : e.system.unhandled =
    d.system.unhandled ++ [.unhandled (d.system.actor root).id data]
  failed : ∀ c ∈ s :: above, (e.system.actor c).Failed data
  later : ∀ c a, s.number < c.number → d.system.actor? c = some a → e.system.actor? c = some a

/-- The failure of an actor without a parent goes no further. -/
theorem Breaks.ends (h : d.Breaks root data rest) (hd : d.Regular) (hleaves : 0 < leaves rest)
    (ha : d.system.actor? root = some a) (hparent : a.parent = none) :
    ∃ e, Within 12 d e ∧ d.Climbed data root [] root rest e := by
  obtain ⟨d₁, a', next, kept, h₁, hframes₁, herror, ha', hbecomes, hfailed, hempty, hnobody⟩ :=
    h.fails hd
  have hd₁ := h₁.within.regular hd
  have hid : (d.system.actor root).id = a'.id := by rw [hbecomes]
  rw [System.actor_eq ha] at hbecomes
  obtain ⟨d₂, h₂, hframes₂, hactors₂, hunhandled⟩ := failed_root hd₁ hframes₁ hleaves herror ha'
    hnobody (by rw [hbecomes]; exact hparent)
  obtain ⟨d₃, h₃, hframes₃, ha₃⟩ := drain_closed (h₂.regular hd₁) hframes₂
    ((hactors₂ root).trans ha') hempty
  refine ⟨d₃, (h₁.within.trans h₂).trans h₃.within, hframes₃, ?_, fun c hc => ?_,
    fun c b hlt hb => ?_⟩
  · rw [h₃.spares.unhandled, hunhandled, h₁.spares.unhandled, hid]
  · rw [List.mem_singleton.mp hc, System.actor_eq ha₃]
    exact ⟨hfailed.stopped, hfailed.status, hfailed.error⟩
  · have hne : c ≠ root := by rintro rfl; omega
    exact h₃.spares.others c b hne ((hactors₂ c).trans (h₁.spares.others c b hne hb))

/-- When the failure of its parent has climbed, the calls end that an actor's failure has led to. -/
theorem Climbed.descends {kept : List Session} (h : d.Climbed data p above root
    (.leave :: .keep kept :: .drain s :: rest) e) (he : e.Regular) (hleaves : 0 < leaves rest)
    (hlt : p.number < s.number) (hs : s ∉ p :: above) (ha : d.system.actor? s = some a)
    (hfailed : a.Failed data) (hempty : a.mailbox.queue = []) :
    ∃ f, Within 3 e f ∧ d.Climbed data s (p :: above) root rest f := by
  obtain ⟨e₁, h₁, hframes₁, hactors₁⟩ := leave_nested s he h.frames hleaves
  obtain ⟨e₂, h₂, hframes₂, ha₂⟩ := drain_closed (h₁.within.regular he) hframes₁
    ((hactors₁ s).trans (h.later s a hlt ha)) hempty
  have hleads := h₁.trans h₂
  refine ⟨e₂, hleads.within, hframes₂, hleads.spares.unhandled.trans h.unhandled, fun c hc => ?_,
    fun c b hc hb => ?_⟩
  · rcases List.mem_cons.mp hc with rfl | habove
    · rw [System.actor_eq ha₂]
      exact ⟨hfailed.stopped, hfailed.status, hfailed.error⟩
    · have hbefore := h.failed c habove
      rwa [hleads.spares.stopped (fun hcs => hs (hcs ▸ habove)) hbefore.stopped]
  · exact hleads.spares.others c b (by rintro rfl; omega) (h.later c b (hlt.trans hc) hb)

/-- A failure climbs from one actor to the next. -/
theorem Breaks.climbs (h : d.Breaks s data rest) (hd : d.Regular)
    (hready : d.Ready data s above root) (hleaves : 0 < leaves rest) :
    ∃ e, Within (13 * (above.length + 1)) d e ∧ d.Climbed data s above root rest e := by
  induction above generalizing d s rest with
  | nil =>
      cases hready.rises with
      | root ha hparent =>
        obtain ⟨e, he, hclimbed⟩ := h.ends hd hleaves ha hparent
        exact ⟨e, he.mono (by simp), hclimbed⟩
  | cons p above ih =>
      have hearlier := hready.rises.earlier hd.reached.sound
      have hlt := hearlier p List.mem_cons_self
      obtain ⟨d₁, d₂, a, kept, h₁, h₂, hbreaks, hready₂, ha, hfailed, hempty⟩ := h.passes hd hready
      have hpast := h₁.within.trans h₂.within
      have hd₂ := hpast.regular hd
      obtain ⟨d₃, h₃, hclimbed⟩ := ih hbreaks hd₂ hready₂
        (by rw [leaves_cons]; exact Nat.add_pos_left Nat.one_pos _)
      obtain ⟨e, he, hends⟩ := hclimbed.descends (h₃.regular hd₂) hleaves hlt
        (fun hs => Nat.lt_irrefl _ (hearlier s hs)) ha hfailed hempty
      refine ⟨e, ((hpast.trans h₃).trans he).mono (by rw [List.length_cons]; omega), hends.frames,
        ?_, hends.failed, fun c b hc hb => hends.later c b hc ?_⟩
      · obtain ⟨b, hb⟩ := hready.rises.known
        obtain ⟨b', hb', hbecomes⟩ := (hpast.follows hd).actor root b hb
        rw [hends.unhandled, h₂.spares.unhandled, h₁.spares.unhandled, System.actor_eq hb,
          System.actor_eq hb', hbecomes]
      · exact h₂.spares.others c b (by rintro rfl; omega)
          (h₁.spares.others c b (by rintro rfl; omega) hb)

/-- A failure that nobody handles climbs to the top. When no call is in progress and an event makes
the machine of a childless actor fail without any effects, and nobody above does anything about it,
then all have failed with the same data when the call returns, and the caller hears of it in the
name of the last one. No error is left over for the next call. -/
theorem failure_climbs {sys : System} {past : List Delivery} {event : Event} {scope : Scope}
    {fuel : Nat} (hnil : sys.actors = []) (hfresh : sys.Idle) (hrun : (done sys).Timed past d)
    (hidle : d.frames = []) (hworking : d.Working s m t) (hnone : t.children = [])
    (hrises : d.Rises data s above root)
    (hkept : above ≠ [] → d.system.KeptBeside (s :: above).dropLast root)
    (haccepts : m.accepts event = .ok ()) (hinit : event.name ≠ Event.initName)
    (hstop : event.name ≠ Event.stopName)
    (htransition : m.transition ((send d.system s event).stepScope s) t event = (scope, .ok next))
    (heffects : scope.effects = []) (hbroken : next.Broken data)
    (hfuel : 14 * (above.length + 1) ≤ fuel) : ∃ sys',
      (send d.system s event).run fuel =
        (sys', .error (.unhandled (d.system.actor root).id data)) ∧
      (∀ c ∈ s :: above, (sys'.actor c).Failed data) ∧ sys'.Idle := by
  have hattuned := attuned_done hfresh
  have hreached := hrun.run.reached (.fresh sys hnil)
  have hsound := hreached.sound
  -- the event is taken up, and nothing else has changed
  obtain ⟨a, ha, hlogic, hspawn, -, hrunning, -⟩ := hworking.actor
  obtain ⟨hflushing, hempty⟩ := hsound.settled hidle ha
  have haccepts : a.logic.accepts spawn event = .ok () := by
    rw [hlogic, ← hspawn]
    exact haccepts
  obtain ⟨hframes, ha₁, hspares⟩ :=
    send_running hsound.system.keyed ha haccepts hrunning hflushing
  have hcall : d.Happens (send d.system s event) := .call d hidle s (.send event)
  have hfollows := hcall.follows hsound
  have hd₁ : (send d.system s event).Regular :=
    ⟨hreached.next hcall, (hrun.call hattuned hidle s (.send event)).attuned hattuned⟩
  -- so the chain is as before, and nothing waits for those above
  have hready : d.Ready data s above root := by
    refine ⟨hrises, hkept, fun c hc => ?_⟩
    obtain ⟨_, _, hworking⟩ := hrises.working c hc
    obtain ⟨b, hb, -, -, -, hrunning, -⟩ := hworking.actor
    rw [System.actor_eq hb]
    exact (hsound.settled hidle hb).imp_right fun h => h hrunning
  have hnext : next.children = [] :=
    List.subset_nil.mp (hnone ▸ Machine.transition_childless htransition heffects)
  have hbreaks : (send d.system s event).Breaks s data [.leave] := by
    refine .intro (hworking.same ha ha₁ rfl rfl rfl rfl) hframes ?_ hinit hstop htransition heffects
      hbroken (by simp [hnext]) (by simp [hnext])
    rw [System.actor_eq ha₁]
    simp [Mailbox.push, hempty hrunning]
  -- the failure climbs, and the call returns
  obtain ⟨d₂, h₂, hclimbed⟩ :=
    hbreaks.climbs hd₁ (hready.spared hsound hfollows hspares) Nat.one_pos
  have hd₂ := h₂.regular hd₁
  obtain ⟨b, hb⟩ := hrises.known
  obtain ⟨b', hb', hbecomes⟩ := hfollows.actor root b hb
  have hunhandled : d₂.system.unhandled = [.unhandled (d.system.actor root).id data] := by
    rw [hclimbed.unhandled, hspares.unhandled, (hrun.idle hattuned hidle).unhandled,
      System.actor_eq hb, System.actor_eq hb', hbecomes]
    rfl
  obtain ⟨d₃, h₃, hframes₃, hanswer, hactors⟩ := leave_outermost hd₂ hclimbed.frames hunhandled
  have hend := (h₃.regular hd₂).attuned.idle hframes₃
  refine ⟨{ d₃.system with pins := [] }, ?_, fun c hc => ?_,
    ⟨hend.depth, hend.unhandled, hend.timers⟩⟩
  · rw [(h₂.trans h₃).run hframes₃ (by omega), hanswer]
  · have hsame : d₃.system.actor c = d₂.system.actor c := by
      rw [System.actor, hactors c]
      rfl
    exact hsame ▸ hclimbed.failed c hc

/-! ## A parent that only a timer of its child keeps -/

/-- A machine that writes to the desk, when it is asked to, a second later. -/
def clerkConfig : MachineConfig where
  root := .node
    { id := some "clerk", on := some [("ASK", some [{ actions := [.named "ask"] }])] } none

/-- A machine that spawns a clerk. -/
def bureauConfig : MachineConfig where
  root := .node { id := some "bureau", entry := [.spawnChild "clerk" (some "c") none none] } none

def clerk : Logic :=
  .machine ((Definition.build clerkConfig).toOption.getD default)
    { (default : Implementations Logic) with
      actions := fun _ =>
        some (.sendTo (.system "desk") (.fixed (.named "REMIND")) (some (.ms 1000)) none) }

def bureau : Logic :=
  .machine ((Definition.build bureauConfig).toOption.getD default)
    { (default : Implementations Logic) with actors := fun _ => some clerk }

/-- The application has a bureau made under the system id `desk`, holds it and starts it. -/
def bureauOpen : List Delivery × Delivery :=
  let made := done (spawn {} bureau { systemId := some "desk" }).1
  let known := done (made.system.hold "bureau" ⟨0⟩)
  goOn 17 ([known, made, done {}], call known.system ⟨0⟩ .start)

/-- It asks the clerk to write to the desk. -/
def bureauAsked : List Delivery × Delivery :=
  goOn 8 (bureauOpen.2 :: bureauOpen.1, call bureauOpen.2.system ⟨1⟩ (.send (.named "ASK")))

/-- It goes on to hold the bureau, or lets go of it. -/
def bureauLeft (holds : Bool) : Delivery :=
  done (cond holds (bureauAsked.2.system.hold "bureau" ⟨0⟩) (bureauAsked.2.system.drop "bureau"))

set_option maxRecDepth 100000 in
theorem timed_bureau (holds : Bool) :
    (done {}).Timed (bureauAsked.2 :: bureauAsked.1) (bureauLeft holds) := by
  have hattuned : (done {}).Attuned := attuned_done ⟨rfl, rfl, Scheduler.sound_empty⟩
  have hfirst : (done {}).Timed [] (done {}) := .refl
  have hmade := hfirst.make rfl bureau { systemId := some "desk" }
  have hworking : (done {}).Timed bureauOpen.1 bureauOpen.2 :=
    ((hmade.hold rfl "bureau" ⟨0⟩).call hattuned rfl ⟨0⟩ .start).goOn 17
  have hidle : bureauOpen.2.frames.isEmpty = true := by decide +kernel
  have hasked : (done {}).Timed bureauAsked.1 bureauAsked.2 :=
    (hworking.call hattuned (List.isEmpty_iff.mp hidle) ⟨1⟩ (.send (.named "ASK"))).goOn 8
  have hidle : bureauAsked.2.frames.isEmpty = true := by decide +kernel
  cases holds with
  | true => exact hasked.hold (List.isEmpty_iff.mp hidle) "bureau" ⟨0⟩
  | false => exact hasked.drop (List.isEmpty_iff.mp hidle) "bureau"

/-- An error that a clerk does nothing about. -/
def torn : Event := { Event.named Event.executionName with data := .str "torn" }

set_option maxRecDepth 100000 in
/-- The error is the end of the clerk, and the bureau does nothing about that. -/
theorem bureau_torn (holds : Bool) : ∃ m t scope next, (bureauLeft holds).Working ⟨1⟩ m t ∧
    t.children = [] ∧ (bureauLeft holds).Rises torn.data ⟨1⟩ [⟨0⟩] ⟨0⟩ ∧ m.accepts torn = .ok () ∧
    m.transition ((send (bureauLeft holds).system ⟨1⟩ torn).stepScope ⟨1⟩) t torn =
      (scope, .ok next) ∧ scope.effects = [] ∧ next.Broken torn.data := by
  obtain ⟨⟨m, t⟩, hclerk, hactive, hnone, haccepts, heventless, hselect⟩ :
      ∃ x ∈ (bureauLeft holds).machine? ⟨1⟩, x.2.status = .active ∧ x.2.children = [] ∧
        x.1.accepts torn = .ok () ∧
        x.1.definition.selectEventless (x.1.situation x.2) torn = .ok [] ∧
        x.1.definition.select (x.1.situation x.2) torn = .ok [] := by
    cases holds <;> decide +kernel
  obtain ⟨⟨m₀, t₀⟩, hbureau, hactive₀, honly, heventless₀, hselect₀⟩ :
      ∃ x ∈ (bureauLeft holds).machine? ⟨0⟩, x.2.status = .active ∧
        x.2.children.map Prod.snd = [⟨1⟩] ∧
        x.1.definition.selectEventless (x.1.situation x.2)
          (report ((bureauLeft holds).system.actor ⟨1⟩) torn.data) = .ok [] ∧
        x.1.definition.select (x.1.situation x.2)
          (report ((bureauLeft holds).system.actor ⟨1⟩) torn.data) = .ok [] := by
    cases holds <;> decide +kernel
  obtain ⟨next, htransition, hbroken, -⟩ := Machine.transition_fails hactive heventless hselect rfl
    ((send (bureauLeft holds).system ⟨1⟩ torn).stepScope ⟨1⟩)
  have hworks : ∀ {s m t}, s = ⟨0⟩ ∨ s = ⟨1⟩ → (bureauLeft holds).machine? s = some (m, t) →
      t.status = .active → (bureauLeft holds).Working s m t := by
    intro s m t hs hmachine hactive
    have hboth : ((bureauLeft holds).system.actor s).status = .running ∧
        ((bureauLeft holds).system.actor s).observers.isEmpty = true := by
      rcases hs with rfl | rfl <;> cases holds <;> decide +kernel
    exact ⟨hmachine, hboth.1, hactive, List.isEmpty_iff.mp hboth.2⟩
  obtain ⟨a, ha⟩ : ∃ a, (bureauLeft holds).system.actor? ⟨0⟩ = some a :=
    Option.isSome_iff_exists.mp (by cases holds <;> decide +kernel)
  have hparent : ((bureauLeft holds).system.actor ⟨0⟩).parent = none := by
    cases holds <;> decide +kernel
  rw [System.actor_eq ha] at hparent
  exact ⟨m, t, _, next, hworks (.inr rfl) hclerk hactive, hnone,
    .step (hworks (.inl rfl) hbureau hactive₀) honly heventless₀ hselect₀ (.root ha hparent),
    haccepts, htransition, rfl, hbroken⟩

set_option maxRecDepth 100000 in
/-- A bureau that the application holds fails with its clerk. -/
theorem held_bureau_fails : ∃ sys, (send (bureauLeft true).system ⟨1⟩ torn).run 28 =
      (sys, .error (.unhandled "actor-0" torn.data)) ∧
    (∀ c ∈ [(⟨1⟩ : Session), ⟨0⟩], (sys.actor c).Failed torn.data) ∧ sys.Idle := by
  obtain ⟨m, t, scope, next, hworking, hnone, hrises, haccepts, htransition, heffects, hbroken⟩ :=
    bureau_torn true
  have hid : ((bureauLeft true).system.actor ⟨0⟩).id = "actor-0" := by decide +kernel
  rw [← hid]
  exact failure_climbs rfl ⟨rfl, rfl, Scheduler.sound_empty⟩ (timed_bureau true) rfl hworking hnone
    hrises (fun _ => .application (by decide +kernel)) haccepts (by decide) (by decide) htransition
    heffects hbroken (by decide)

set_option maxRecDepth 100000 in
/-- A failure goes no further than the actors that are there. A bureau that only a timer of its
clerk keeps is lost with that timer when the clerk fails: it does not fail, and the caller hears of
nothing. -/
theorem unheld_bureau_lost : ¬∀ (past : List Delivery) (d : Delivery) (s root : Session)
    (above : List Session) (m : Machine) (t next : MachineSnapshot) (event : Event) (scope : Scope)
    (data : Json) (fuel : Nat), (done {}).Timed past d → d.frames = [] → d.Working s m t →
    t.children = [] → d.Rises data s above root → d.system.lookup? root = some root →
    m.accepts event = .ok () → event.name ≠ Event.initName → event.name ≠ Event.stopName →
    m.transition ((send d.system s event).stepScope s) t event = (scope, .ok next) →
    scope.effects = [] → next.Broken data → 14 * (above.length + 1) ≤ fuel → ∃ sys,
      (send d.system s event).run fuel =
        (sys, .error (.unhandled (d.system.actor root).id data)) ∧
      (∀ c ∈ s :: above, (sys.actor c).Failed data) ∧ sys.Idle := by
  intro hall
  obtain ⟨m, t, scope, next, hworking, hnone, hrises, haccepts, htransition, heffects, hbroken⟩ :=
    bureau_torn false
  have hfound : (bureauLeft false).system.lookup? ⟨0⟩ = some ⟨0⟩ := by decide +kernel
  obtain ⟨sys, hrun, -⟩ := hall _ _ ⟨1⟩ ⟨0⟩ [⟨0⟩] m t next torn scope torn.data 28
    (timed_bureau false) rfl hworking hnone hrises hfound haccepts (by decide) (by decide)
    htransition heffects hbroken (by decide)
  have hanswer : ((send (bureauLeft false).system ⟨1⟩ torn).run 28).2.isOk = true := by
    decide +kernel
  rw [hrun] at hanswer
  cases hanswer

end Statechart.Delivery
