import Statechart.Proofs.Cascade
import Statechart.Proofs.Consumption

/-!
# Children and their parents

A child stays an entry of its parent's children until the parent lets it go (`Run.entry`): it is
told to stop, its end is reported, or another actor takes its place. As effects only start what is
an entry (`Happens.starts`), and as a parent that stops takes its children along, a child that runs
while no call is in progress has a parent that runs (`Delivery.no_orphans`), or the application has
started it by itself.
-/

namespace Statechart.Delivery

variable {d d' e first : Delivery} {past : List Delivery} {p c : Session}

/-! ## Entries -/

/-- An actor is about to carry out the stop of another one. -/
def Orders (d : Delivery) (p c : Session) : Prop :=
  ∃ effects, .effects p effects ∈ d.frames ∧ .stop c ∈ effects

/-- Effects hold functions, which cannot be compared, but a stop among them can be found. -/
instance (c : Session) (effects : List Effect) : Decidable (.stop c ∈ effects) :=
  decidable_of_iff (effects.any fun | .stop s => s = c | _ => false) <| by
    rw [List.any_eq_true]
    constructor
    · rintro ⟨effect, heffect, hstop⟩
      cases effect with
      | stop s => exact of_decide_eq_true hstop ▸ heffect
      | _ => cases hstop
    · intro hstop
      exact ⟨_, hstop, decide_eq_true rfl⟩

instance (d : Delivery) (p c : Session) : Decidable (d.Orders p c) :=
  decidable_of_iff (d.frames.any fun
      | .effects s effects => s = p ∧ .stop c ∈ effects
      | _ => false) <| by
    rw [List.any_eq_true]
    constructor
    · rintro ⟨f, hf, horders⟩
      cases f with
      | effects s effects =>
          obtain ⟨rfl, hstop⟩ := of_decide_eq_true horders
          exact ⟨effects, hf, hstop⟩
      | _ => cases horders
    · rintro ⟨effects, hf, hstop⟩
      exact ⟨_, hf, decide_eq_true ⟨rfl, hstop⟩⟩

theorem Orders.dooms (h : d.Orders p c) : d.Dooms c := by
  obtain ⟨effects, hframe, hstop⟩ := h
  exact .ordered hframe (List.mem_flatMap.mpr ⟨_, hstop, List.mem_singleton_self _⟩)

/-- An entry stays unless the parent stops the child, takes a report of its end, or puts another
actor in its place. -/
theorem Happens.entry (h : d.Happens d') (hd : d.Sound) {c : String × Session}
    (hc : c ∈ (d.system.actor p).snapshot.children) :
    c ∈ (d'.system.actor p).snapshot.children ∨ d'.Orders p c.2 ∨
      (∃ event, d.taking p = some event ∧ event.Reports c) ∨
        d.system.Replaces d'.system p c.1 := by
  obtain ⟨sys, top, rest, xs, hgoes⟩ := h.goes hd
  obtain ⟨a, ha⟩ := exists_of_child hc
  obtain ⟨a', ha', -, hevolves⟩ := (hgoes.evolution hd).actor p a ha
  rw [System.actor_eq ha] at hc
  rw [System.actor_eq ha']
  rcases hevolves.lineage with hsame | ⟨effects, external, heffects, hlineage, htaken⟩
  · exact .inl (hsame ▸ hc)
  · rcases hlineage.kept c hc with hnew | hstop | ⟨event, hevent, hreports⟩ | hreplaced
    · exact .inl hnew
    · refine .inr (.inl ⟨effects, ?_, hstop⟩)
      rw [hgoes.result]
      exact List.mem_append_left _ heffects
    · obtain ⟨htop, hhead⟩ := htaken event hevent
      refine .inr (.inr (.inl ⟨event, ?_, hreports⟩))
      rw [taking, hgoes.head.1, htop, (takes_drain ha).1, hhead]
    · exact .inr (.inr (.inr hreplaced))

/-- A parent has let a child go in a run: it has stopped it, taken a report of its end, or put
another actor in its place. -/
inductive LetGo (first : Delivery) (past : List Delivery) (d : Delivery) (p : Session)
    (c : String × Session) : Prop
  | stopped {e : Delivery} (he : e ∈ d :: past) (h : e.Orders p c.2)
  | reported {e : Delivery} {event : Event} (he : e ∈ past) (htaking : e.taking p = some event)
      (h : event.Reports c)
  | replaced (h : first.system.Replaces d.system p c.1)

/-- An entry stays until the parent lets the child go. -/
theorem Run.entry (h : first.Run past d) (hfirst : Reached first) {c : String × Session}
    (hc : c ∈ (first.system.actor p).snapshot.children) :
    c ∈ (d.system.actor p).snapshot.children ∨ LetGo first past d p c := by
  induction h with
  | refl => exact .inl hc
  | @next past d d' hbefore hnext ih =>
      have hd := (hbefore.reached hfirst).sound
      rcases ih with hc | hgone
      · rcases hnext.entry hd hc with hc | horders | ⟨event, htaking, hreports⟩ | hreplaced
        · exact .inl hc
        · exact .inr (.stopped List.mem_cons_self horders)
        · exact .inr (.reported List.mem_cons_self htaking hreports)
        · exact .inr (.replaced (hreplaced.since (hbefore.follows hfirst).next))
      · refine .inr ?_
        cases hgone with
        | stopped he h => exact .stopped (List.mem_cons_of_mem _ he) h
        | reported he htaking h => exact .reported (List.mem_cons_of_mem _ he) htaking h
        | replaced h => exact .replaced (h.mono (hnext.follows hd))

/-- The children of an actor that has stopped are bound to stop. -/
theorem Reached.dooms (h : Reached d) {a : Actor} (ha : d.system.actor? p = some a)
    (hstopped : a.status = .stopped) : ∀ c ∈ a.snapshot.children, d.Dooms c.2 := by
  suffices hall : ∀ p a, d.system.actor? p = some a → a.status = .stopped →
      ∀ c ∈ a.snapshot.children, Doomed d.system d.frames c.2 from hall p a ha hstopped
  refine h.keeps (P := fun sys frames => ∀ p a, sys.actor? p = some a → a.status = .stopped →
    ∀ c ∈ a.snapshot.children, Doomed sys frames c.2) (fun sys hnil p a ha => ?_)
    (fun hquiet hdoomed p a ha hstopped c hc => ?_)
    fun {sys sys' top rest xs} hd hmoves hdoomed p a' ha' hstopped' c hc => ?_
  · rw [System.actor?, hnil] at ha
    cases ha
  · rw [hquiet.actor? p] at ha
    exact (hdoomed p a ha hstopped c hc).quiet hquiet
  · have hevolution := hmoves.evolution hd
    rcases hevolution.made p a' ha' with ⟨b, hb⟩ | hnew
    · obtain ⟨b', hb', -, hevolves⟩ := hevolution.actor p b hb
      rw [ha'] at hb'
      cases hb'
      by_cases hstopped : b.status = .stopped
      · rw [(hevolves.stopped hstopped).2] at hc
        obtain ⟨child, hchild, -⟩ := (hd.system.suits p b hb).children c hc
        exact (hdoomed p b hb hstopped c hc).moves hmoves hd ⟨child, hchild⟩
      · rcases hevolves.stops hstopped hstopped' with ⟨rfl, hstop⟩ | ⟨effects, -, hhalt, -⟩
        · rw [hevolves.children (by simp)] at hc
          exact .ordered (List.mem_append_left _ hstop) (List.mem_map_of_mem hc)
        · exact .below (List.mem_append_left _ hhalt) ha' (List.mem_map_of_mem hc)
    · rw [Actor.status, hnew] at hstopped'
      cases hstopped'

/-- A child that runs while no call is in progress, and that has neither been reported as long as it
was an entry nor been replaced, is still an entry, and its parent has not stopped. -/
theorem Run.owned (h : e.Run past d) (he : Reached e) (hidle : d.frames = []) {id : String}
    (hc : (id, c) ∈ (e.system.actor p).snapshot.children)
    (hrunning : (d.system.actor c).status = .running) (hlast : ¬e.system.Replaces d.system p id)
    (hreport : ∀ e ∈ past, (id, c) ∈ (e.system.actor p).snapshot.children →
      ∀ event, e.taking p = some event → ¬event.Reports (id, c)) :
    (id, c) ∈ (d.system.actor p).snapshot.children ∧
      (d.system.actor p).status ≠ .stopped := by
  have hd := h.reached he
  have hundoomed : ¬d.Dooms c := fun hdooms => by
    rw [hdooms.idle hd.sound hidle] at hrunning
    cases hrunning
  have hentry : (id, c) ∈ (d.system.actor p).snapshot.children := by
    by_contra hgone
    -- each way to lose the entry in one step contradicts what is known of the whole run
    obtain ⟨f, f', before, after, hbefore, hnext, hafter, rfl, hkept, hlost⟩ :=
      h.arises (P := fun d => (id, c) ∉ (d.system.actor p).snapshot.children)
        (not_not.mpr hc) hgone
    have hkept := not_not.mp hkept
    have hf := hbefore.reached he
    rcases hnext.entry hf.sound hkept with
      hentry | horders | ⟨event, htaking, hreports⟩ | hreplaced
    · exact hlost hentry
    · obtain ⟨a, ha⟩ := exists_of_child hkept
      rw [System.actor_eq ha] at hkept
      obtain ⟨b, hb, -⟩ := (hf.sound.system.suits p a ha).children _ hkept
      obtain ⟨b', hb', -⟩ := (hnext.follows hf.sound).actor c b hb
      exact hundoomed (horders.dooms.run hafter (hf.next hnext) ⟨b', hb'⟩)
    · exact hreport f (by simp) hkept event htaking hreports
    · have hreplaced := hreplaced.since (hbefore.follows he).next
      exact hlast (hreplaced.mono (hafter.follows (hf.next hnext)))
  refine ⟨hentry, fun hstopped => ?_⟩
  obtain ⟨a, ha⟩ := exists_of_child hentry
  rw [System.actor_eq ha] at hstopped hentry
  exact hundoomed (hd.dooms ha hstopped _ hentry)

/-! ## Starts -/

/-- The application is at work, or a script of it. -/
def ByHand (d : Delivery) : Prop :=
  d.frames = [] ∨ ∃ owner body, d.frames.head? = some (.script owner body)

/-- The application has started an actor in a run, by itself or in a script. -/
inductive StartedByHand (first : Delivery) (past : List Delivery) (d : Delivery) (c : Session) :
    Prop
  | intro {e e' : Delivery} {before after : List Delivery} (hbefore : first.Run before e)
      (hnext : e.Happens e') (hafter : e'.Run after d) (hpast : past = after ++ e :: before)
      (hnew : (e.system.actor c).status = .notStarted)
      (hstarted : (e'.system.actor c).status = .running) (hhand : e.ByHand)

/-- Who has been opened stays so. -/
theorem Happens.opened (h : d.Happens d') (hd : d.Sound)
    (hopened : (d.system.actor c).status ≠ .notStarted) :
    (d'.system.actor c).status ≠ .notStarted := by
  obtain ⟨sys, top, rest, xs, hgoes⟩ := h.goes hd
  cases hc : d.system.actor? c with
  | none =>
      rw [System.actor, hc] at hopened
      exact absurd rfl hopened
  | some a =>
      obtain ⟨a', ha', -, hevolves⟩ := (hgoes.evolution hd).actor c a hc
      rw [System.actor_eq hc] at hopened
      rw [System.actor_eq ha']
      exact hevolves.opened hopened

theorem Run.opened (h : e.Run past d) (he : Reached e)
    (hopened : (e.system.actor c).status ≠ .notStarted) :
    (d.system.actor c).status ≠ .notStarted := by
  induction h with
  | refl => exact hopened
  | next hbefore hnext ih => exact hnext.opened (hbefore.reached he).sound ih

/-- Who starts is started by hand, or by the effects of an actor that it is a child of. -/
theorem Happens.starts (h : d.Happens d') (hd : d.Sound)
    (hnew : (d.system.actor c).status ≠ .running)
    (hrunning : (d'.system.actor c).status = .running) :
    (d.system.actor c).status = .notStarted ∧
      (d.ByHand ∨ ∃ p effects, d.frames.head? = some (.effects p effects) ∧
        c ∈ (d.system.actor p).snapshot.sessions) := by
  obtain ⟨sys, top, rest, xs, hgoes⟩ := h.goes hd
  have hevolution := hgoes.evolution hd
  cases hc' : d'.system.actor? c with
  | none =>
      rw [System.actor, hc'] at hrunning
      cases hrunning
  | some a' =>
      rw [System.actor_eq hc'] at hrunning
      rcases hevolution.made c a' hc' with ⟨a, hc⟩ | hmade
      · obtain ⟨b, hb, -, hevolves⟩ := hevolution.actor c a hc
        rw [hc'] at hb
        cases hb
        rw [System.actor_eq hc] at hnew ⊢
        -- who has stopped does not start again
        have hnew : a.status = .notStarted := by
          cases hstatus : a.status with
          | notStarted => rfl
          | running => exact absurd hstatus hnew
          | stopped =>
              rw [(hevolves.stopped hstatus).1] at hrunning
              cases hrunning
        obtain ⟨below, hcalls⟩ := hevolves.starts hnew hrunning
        refine ⟨hnew, ?_⟩
        rw [ByHand, hgoes.head.1]
        -- start is called by the application, by the effects of a parent, or by a script
        cases hcalls with
        | outside =>
            refine .inl (.inl ?_)
            rw [hgoes.frames, hgoes.outside rfl]
            rfl
        | start hchild => exact .inr ⟨_, _, rfl, hchild⟩
        | script => exact .inl (.inr ⟨_, _, rfl⟩)
      · rw [Actor.status, hmade] at hrunning
        cases hrunning

/-- Who runs has started at some time. -/
theorem Run.started {sys : System} (hnil : sys.actors = []) (h : (done sys).Run past d)
    (hrunning : (d.system.actor c).status = .running) :
    ∃ e e' before after, (done sys).Run before e ∧ e.Happens e' ∧ e'.Run after d ∧
      past = after ++ e :: before ∧ (e.system.actor c).status ≠ .running ∧
        (e'.system.actor c).status = .running := by
  refine h.arises (P := fun d => (d.system.actor c).status = .running) (fun hfirst => ?_) hrunning
  rw [done, System.actor, System.actor?, hnil] at hfirst
  cases hfirst

/-- Only actors that have begun carry out effects. -/
theorem Sound.begun (hd : d.Sound) {f : Frame} (hf : f ∈ d.frames)
    (hstage : f.stage = some (p, .effects)) :
    ∃ a, d.system.actor? p = some a ∧ a.status ≠ .notStarted := by
  obtain ⟨a, ha⟩ := hd.known f hf p _ hstage
  refine ⟨a, ha, fun hnew => ?_⟩
  have hattended := hd.attended p a ha
  have hdrain := hattended.staged.legal.drain_of_effects (mem_stages.mpr ⟨f, hf, hstage⟩)
  have hidle := hattended.kept.unopened hnew
  rw [hattended.staged.marked.mp hdrain] at hidle
  cases hidle

/-- Who carries out effects has been opened. -/
theorem Sound.opened (hd : d.Sound) {effects : List Effect}
    (htop : d.frames.head? = some (.effects p effects)) :
    (d.system.actor p).status ≠ .notStarted := by
  obtain ⟨a, ha, hopened⟩ := hd.begun (List.mem_of_mem_head? htop) rfl
  rwa [System.actor_eq ha]

/-! ## No orphans -/

/-- When no call is in progress, the parent of an actor that runs has it as a child and runs too, or
else the application has started the actor; what has been a child then still is one, and its parent
has not stopped. Not considered are actors in whose place another one has been put, and those whose
end has been reported while they were children. -/
theorem no_orphans {sys : System} (hnil : sys.actors = []) (h : (done sys).Run past d)
    (hidle : d.frames = []) {a : Actor} (ha : d.system.actor? c = some a)
    (hparent : a.parent = some p) (hrunning : a.status = .running)
    (hlast : ∀ b a', d.system.actor? b = some a' → a'.parent = some p → a'.id = a.id →
      b.number ≤ c.number)
    (hreport : ∀ e ∈ past, (a.id, c) ∈ (e.system.actor p).snapshot.children →
      ∀ event, e.taking p = some event → ¬event.Reports (a.id, c)) :
    ((a.id, c) ∈ (d.system.actor p).snapshot.children ∧
      (d.system.actor p).status = .running) ∨
    StartedByHand (done sys) past d c ∧
      ∀ e ∈ past, (a.id, c) ∈ (e.system.actor p).snapshot.children →
        (a.id, c) ∈ (d.system.actor p).snapshot.children ∧
          (d.system.actor p).status ≠ .stopped := by
  have hfresh : Reached (done sys) := .fresh sys hnil
  have hrunning : (d.system.actor c).status = .running := by rwa [System.actor_eq ha]
  have howned : ∀ {e : Delivery} {after}, Reached e → e.Run after d → after ⊆ past →
      (a.id, c) ∈ (e.system.actor p).snapshot.children →
        (a.id, c) ∈ (d.system.actor p).snapshot.children ∧
          (d.system.actor p).status ≠ .stopped := by
    intro e after he hafter hsub hc
    refine hafter.owned he hidle hc hrunning ?_ fun e he => hreport e (hsub he)
    -- who is made later has a later number
    rintro ⟨b, a', hb, hlate, hfamily, hid⟩
    obtain ⟨parent, hp⟩ := exists_of_child hc
    rw [System.actor_eq hp] at hc
    obtain ⟨child, hchild, -⟩ := (he.sound.system.suits p parent hp).children _ hc
    have hold := he.sound.system.fresh c child hchild
    have := hlast b a' hb hfamily hid
    omega
  obtain ⟨e, e', before, after, hbefore, hnext, hafter, rfl, hnew, hstarted⟩ :=
    h.started hnil hrunning
  have he := hbefore.reached hfresh
  obtain ⟨hnew, hhand | ⟨q, effects, htop, hchild⟩⟩ := hnext.starts he.sound hnew hstarted
  · refine .inr ⟨.intro hbefore hnext hafter rfl hnew hstarted hhand, fun e' he' hc => ?_⟩
    obtain ⟨before', after', hbefore', hafter', hpast⟩ := h.split he'
    refine howned (hbefore'.reached hfresh) hafter' ?_ hc
    rw [hpast]
    exact List.subset_append_left _ _
  · left
    have hsound := he.sound
    obtain ⟨b, hb⟩ := hsound.known _ (List.mem_of_mem_head? htop) q _ rfl
    rw [System.actor_eq hb] at hchild
    obtain ⟨⟨id, t⟩, hc, ht⟩ := List.mem_map.mp hchild
    obtain rfl : c = t := ht.symm
    obtain ⟨child, hchild, hid, hfamily⟩ := (hsound.system.suits q b hb).children _ hc
    have hrest : e.Run (after ++ [e]) d := Run.trans (.next .refl hnext) hafter
    obtain ⟨a', ha', hbecomes⟩ := (hrest.follows he).actor c child hchild
    rw [ha] at ha'
    cases ha'
    have hsame : a.id = child.id ∧ a.parent = child.parent := by
      rw [hbecomes]
      exact ⟨rfl, rfl⟩
    -- the parent that the actor has is the one that has started it
    have hqp : q = p := by
      have hq := (hfamily q rfl).2
      rw [← hsame.2, hparent] at hq
      exact (Option.some.inj hq).symm
    subst hqp
    have hc : (a.id, c) ∈ (e.system.actor q).snapshot.children := by
      rw [System.actor_eq hb, hsame.1, hid]
      exact hc
    obtain ⟨hentry, hstopped⟩ := howned he hrest (by simp) hc
    refine ⟨hentry, ?_⟩
    have hopened := hrest.opened he (hsound.opened htop)
    cases hstatus : (d.system.actor q).status with
    | running => rfl
    | notStarted => exact absurd hstatus hopened
    | stopped => exact absurd hstatus hstopped

set_option maxRecDepth 100000 in
/-- The worker of an office that has been opened is a child of the office. -/
theorem worker_owned :
    ("c", ⟨1⟩) ∈ ((officeOpen []).2.system.actor ⟨0⟩).snapshot.children ∧
      ((officeOpen []).2.system.actor ⟨0⟩).status ≠ .stopped := by
  have hopened : (done {}).Run (officeOpen []).1 (officeOpen []).2 :=
    run_startRun (office []) 30
  have hidle : (officeOpen []).2.frames.isEmpty = true := by decide +kernel
  obtain ⟨a, ha⟩ : ∃ a, (officeOpen []).2.system.actor? ⟨1⟩ = some a :=
    Option.isSome_iff_exists.mp (by decide +kernel)
  have hactor : (officeOpen []).2.system.actor ⟨1⟩ = a := System.actor_eq ha
  have hid : ((officeOpen []).2.system.actor ⟨1⟩).id = "c" := by decide +kernel
  have hparent : ((officeOpen []).2.system.actor ⟨1⟩).parent = some ⟨0⟩ := by decide +kernel
  have hrunning : ((officeOpen []).2.system.actor ⟨1⟩).status = .running := by decide +kernel
  have hnext : (officeOpen []).2.system.nextSession = 2 := by decide +kernel
  have hquiet : (officeOpen []).1.all
      (fun e => (e.taking ⟨0⟩).all fun event => event.completedChild?.isNone) = true := by
    decide +kernel
  have hearlier : (officeOpen []).1.any
      (fun e => decide (("c", ⟨1⟩) ∈ (e.system.actor ⟨0⟩).snapshot.children)) = true := by
    decide +kernel
  rw [hactor] at hid hparent hrunning
  have hlast : ∀ b a', (officeOpen []).2.system.actor? b = some a' → a'.parent = some ⟨0⟩ →
      a'.id = a.id → b.number ≤ 1 := fun b a' hb _ _ => by
    have hlt := (hopened.reached (.fresh _ rfl)).sound.system.fresh b a' hb
    rw [hnext] at hlt
    exact Nat.le_of_lt_succ hlt
  have hreport : ∀ e ∈ (officeOpen []).1, (a.id, ⟨1⟩) ∈ (e.system.actor ⟨0⟩).snapshot.children →
      ∀ event, e.taking ⟨0⟩ = some event → ¬event.Reports (a.id, ⟨1⟩) := by
    intro e he _ event htaking hreports
    have hnone := List.all_eq_true.mp hquiet e he
    rw [htaking, Option.all_some, hreports.1] at hnone
    cases hnone
  rcases no_orphans rfl hopened (List.isEmpty_iff.mp hidle) ha hparent hrunning hlast hreport with
    ⟨hentry, hoffice⟩ | ⟨-, hkept⟩
  · exact ⟨hid ▸ hentry, by rw [hoffice]; nofun⟩
  · obtain ⟨e, he, hc⟩ := List.any_eq_true.mp hearlier
    rw [hid] at hkept
    exact hkept e he (of_decide_eq_true hc)

/-- An office that has not been opened, whose worker the application has started. -/
def officeSkipped : Delivery :=
  (goOn 30 ([], call (done (spawn {} (office []) {}).1).system ⟨1⟩ .start)).2

set_option maxRecDepth 100000 in
/-- Who starts a child by hand may do so before its parent runs. -/
theorem child_runs_first : ¬∀ (d : Delivery) (c p : Session) (a : Actor), Reached d →
    d.frames = [] → d.system.actor? c = some a → a.parent = some p → a.status = .running →
      (a.id, c) ∈ (d.system.actor p).snapshot.children ∧
        (d.system.actor p).status = .running := by
  intro hall
  have hmade : (done {}).Run _ _ := Run.refl.next (.make _ rfl (office []) {})
  have hskipped := (hmade.next (.call _ rfl ⟨1⟩ .start)).goOn 30
  have hidle : officeSkipped.frames.isEmpty = true := by decide +kernel
  obtain ⟨a, ha⟩ : ∃ a, officeSkipped.system.actor? ⟨1⟩ = some a :=
    Option.isSome_iff_exists.mp (by decide +kernel)
  have hactor : officeSkipped.system.actor ⟨1⟩ = a := System.actor_eq ha
  have hparent : (officeSkipped.system.actor ⟨1⟩).parent = some ⟨0⟩ := by decide +kernel
  have hrunning : (officeSkipped.system.actor ⟨1⟩).status = .running := by decide +kernel
  have hoffice : (officeSkipped.system.actor ⟨0⟩).status = .notStarted := by decide +kernel
  rw [hactor] at hparent hrunning
  have hboth := (hall officeSkipped ⟨1⟩ ⟨0⟩ a (hskipped.reached (.fresh _ rfl))
    (List.isEmpty_iff.mp hidle) ha hparent hrunning).2
  rw [hoffice] at hboth
  cases hboth

/-- An open office that somebody has told that its worker is done. -/
def officeMisled : Delivery :=
  let told : Event := { name := "done.actor.c", origin := some (Session.mk 1).text }
  (goOn 30 ([], call (officeOpen []).2.system ⟨0⟩ (.send told))).2

-- A report is believed whoever has sent it: the worker is let go and runs on.
set_option maxRecDepth 100000 in
example : officeMisled.frames.isEmpty ∧
    (officeMisled.system.actor ⟨1⟩).status = .running ∧
    (officeMisled.system.actor ⟨1⟩).parent = some ⟨0⟩ ∧
    (officeMisled.system.actor ⟨0⟩).snapshot.children = [] := by
  decide +kernel

end Statechart.Delivery
