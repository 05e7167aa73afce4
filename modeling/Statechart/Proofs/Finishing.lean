import Statechart.Proofs.Completion
import Statechart.Proofs.Rounds

/-!
# Completion events

Entering final states completes the states around them, which is told by events on the internal
queue. `Finishes` says which: one for every compound state that a final child is entered in, and one
for every parallel state, unless final states are its own children, that a final state is entered in
and whose regions are all complete when the entry pass is over. The events are raised while the pass
still goes on. What has been found complete stays so to its end (`finalAt_mono`), and a parallel
state that is complete then is found so at the last final state entered in it (`due_iff`).

A final state that is a region of a parallel state is told apart: it completes that state at once,
whatever the other regions do.
-/

namespace Statechart

/-- The event that was put on the internal queue. -/
def Mark.raised? : Mark → Option Event
  | .raised event => some event
  | _ => none

/-- The states that were found complete, each with the event that says so. -/
def completions : List Mark → List (Nat × Event)
  | .completed state :: .raised event :: rest => (state, event) :: completions rest
  | _ :: rest => completions rest
  | [] => []

/-- How often a state was found complete. -/
def timesCompleted (state : Nat) (done : List (Nat × Event)) : Nat :=
  done.countP fun c => c.1 == state

theorem timesCompleted_append (q : Nat) (done done' : List (Nat × Event)) :
    timesCompleted q (done ++ done') = timesCompleted q done + timesCompleted q done' :=
  List.countP_append

theorem timesCompleted_singleton (q state : Nat) (event : Event) :
    timesCompleted q [(state, event)] = if state = q then 1 else 0 := by
  by_cases h : state = q <;> simp [timesCompleted, h]

theorem timesCompleted_map {states : List Nat} (hnodup : states.Nodup) (event : Nat → Event)
    (q : Nat) : timesCompleted q (states.map fun a => (a, event a)) = if q ∈ states then 1 else 0 := by
  rw [timesCompleted, List.countP_map]
  exact List.Nodup.count hnodup

/-- Between a completion and its event nothing is cut off, so marks can be read part by part. -/
theorem completions_append {new new' : List Mark}
    (h : ∀ state, new.getLast? ≠ some (.completed state)) :
    completions (new ++ new') = completions new ++ completions new' := by
  fun_induction completions new with
  | case1 state event rest ih =>
      refine congrArg ((state, event) :: ·) (ih fun s hs => h s ?_)
      cases rest with
      | nil => cases hs
      | cons => simpa using hs
  | case2 k rest hno ih =>
      have hskip : completions (k :: (rest ++ new')) = completions (rest ++ new') := by
        refine completions.eq_2 _ _ fun state event rest' hk hrest => ?_
        cases rest with
        | nil => exact h state (by simp [hk])
        | cons x xs =>
            rw [List.cons_append, List.cons.injEq] at hrest
            exact hno state event xs hk (by rw [hrest.1])
      rw [List.cons_append, hskip]
      refine ih fun s hs => h s ?_
      cases rest with
      | nil => cases hs
      | cons => simpa using hs
  | case3 => rfl

namespace Work

/-- Some marks are added, and the events that they raise wait on the internal queue. -/
structure Adds (w w' : Work) (new : List Mark) : Prop where
  marks : w'.marks = w.marks ++ new
  internal : w'.internal = w.internal ++ new.filterMap Mark.raised?

/-- Some states are found complete on the way, and each has its event. -/
def Tells (w w' : Work) (done : List (Nat × Event)) : Prop :=
  ∃ new, w.Adds w' new ∧ (∀ state, new.getLast? ≠ some (.completed state)) ∧ completions new = done

variable {w w₁ w' : Work} {done done' : List (Nat × Event)}

theorem Adds.trans {new new' : List Mark} (h : w.Adds w₁ new) (h' : w₁.Adds w' new') :
    w.Adds w' (new ++ new') where
  marks := by rw [h'.marks, h.marks, List.append_assoc]
  internal := by rw [h'.internal, h.internal, List.filterMap_append, List.append_assoc]

theorem Tells.refl (hjournal : w'.journal = w.journal) (hqueue : w'.internal = w.internal) :
    w.Tells w' [] :=
  ⟨[], ⟨by simp [marks, hjournal], by simp [hqueue]⟩, by simp, rfl⟩

theorem Tells.trans (h : w.Tells w₁ done) (h' : w₁.Tells w' done') :
    w.Tells w' (done ++ done') := by
  obtain ⟨new, hadds, hlast, rfl⟩ := h
  obtain ⟨new', hadds', hlast', rfl⟩ := h'
  refine ⟨new ++ new', hadds.trans hadds', fun state => ?_, completions_append hlast⟩
  rw [List.getLast?_append]
  cases hnew' : new'.getLast? with
  | none => simpa using hlast state
  | some k =>
      have hk := hlast' state
      rw [hnew'] at hk
      simpa using hk

/-- What is told since a change of the snapshot alone. -/
theorem Tells.since (h : w₁.Tells w' done) (hjournal : w₁.journal = w.journal)
    (hqueue : w₁.internal = w.internal) : w.Tells w' done :=
  (Tells.refl hjournal hqueue).trans h

/-- What actions do to queue and journal completes nothing. -/
theorem Queues.tells (h : w.Queues w') : w.Tells w' [] := by
  cases h with
  | still hqueue hjournal => exact .refl hjournal hqueue
  | raised event hqueue hjournal =>
      exact ⟨[.raised event], ⟨by simp [marks, hjournal], by simp [hqueue, Mark.raised?]⟩,
        by simp, rfl⟩
  | failed e hqueue hjournal =>
      exact ⟨[.failed e, .raised (.errorExecution e.toJson)],
        ⟨by simp [marks, hjournal], by rw [hqueue]; rfl⟩, by simp, rfl⟩

end Work

namespace Definition

variable {L : Type} (d : Definition L)

/-- A final state that is a child of another one. -/
def isFinalChild (state final : Nat) : Bool :=
  (d.node final).isFinal && (d.node final).parent == some state

/-- A final state lies deeper in a state than its children. -/
def isDeeper (state final : Nat) : Bool :=
  match (d.node final).parent with
  | some p => (d.node final).isFinal && d.isDescendant p state
  | none => false

/-- Whether a state is found complete at some final state deep in it, as states are entered. -/
def due (config : Configuration) (state : Nat) : List Nat → Bool
  | [] => false
  | entered :: rest =>
      d.isDeeper state entered && d.isInFinalState (config.insert entered) state ||
        due (config.insert entered) state rest

/-- What an entry pass that ends in a configuration finds complete. -/
structure Finishes (entering : List Nat) (next : Configuration) (done : List (Nat × Event)) :
    Prop where
  /-- The events name the states, which are neither the root nor leaves. -/
  named : ∀ c ∈ done, c.1 ≠ rootIndex ∧
    ((d.node c.1).kind = .compound ∨ (d.node c.1).kind = .parallel) ∧
      ∃ output, c.2 = .doneState (d.node c.1).id output
  /-- A compound state is complete once if a final child of it is entered. -/
  compound : ∀ q ≠ rootIndex, (d.node q).kind = .compound →
    timesCompleted q done = if ∃ f ∈ entering, d.isFinalChild q f = true then 1 else 0
  /-- A parallel state without final regions is complete once if a final state is entered in it and
  its regions are all complete at the end. -/
  parallel : ∀ q ≠ rootIndex, (d.node q).kind = .parallel →
    (∀ f ∈ entering, d.isFinalChild q f = false) → timesCompleted q done =
      if (∃ f ∈ entering, (d.node f).isFinal = true ∧ d.Below f q) ∧
        (∀ c ∈ (d.node q).children, (d.node c).isHistory = false →
          d.isInFinalState next c = true) then 1 else 0
  /-- Every final region that is entered completes its parallel state by itself. -/
  early : ∀ q ≠ rootIndex, (d.node q).kind = .parallel →
    entering.countP (d.isFinalChild q) ≤ timesCompleted q done ∧
      timesCompleted q done ≤ entering.countP (d.isFinalChild q) + 1

variable {d} {config config' : Configuration}

namespace WellFormed

variable (wf : d.WellFormed)
include wf

/-! ## Complete states -/

/-- Only the final states in a state matter to whether it is complete. -/
theorem finalAt_mono : ∀ {fuel i : Nat},
    (∀ f, (d.node f).isFinal = true → d.Within f i → f ∈ config → f ∈ config') →
      d.finalAt config fuel i = true → d.finalAt config' fuel i = true
  | 0, _, _, h => h
  | fuel + 1, i, hsub, h => by
      rw [finalAt] at h ⊢
      cases hk : (d.node i).kind with
      | atomic => simp [hk] at h
      | history => simp [hk] at h
      | final =>
          simp only [hk] at h ⊢
          exact hsub i (by simp [StateNode.isFinal, hk]) (.inl rfl) h
      | compound =>
          simp only [hk, List.any_eq_true, Bool.and_eq_true] at h ⊢
          obtain ⟨c, hc, hact, hfinal⟩ := h
          exact ⟨c, hc, hsub c hfinal (.inr (wf.child_below hc)) hact, hfinal⟩
      | parallel =>
          simp only [hk, List.all_eq_true] at h ⊢
          intro c hc
          have hchild := (List.mem_filter.mp hc).1
          refine finalAt_mono (fun f hf hwithin => hsub f hf ?_) (h c hc)
          exact .inr (wf.below_of_within hwithin (wf.child_below hchild))

/-- Fuel for all states from one on is enough for it. -/
theorem finalAt_stable : ∀ {fuel fuel' i : Nat}, d.nodes.size ≤ fuel + i →
    d.nodes.size ≤ fuel' + i → d.finalAt config fuel i = d.finalAt config fuel' i := by
  -- beyond the last state there is nothing to be complete
  have hout : ∀ {fuel i}, d.nodes.size ≤ i → d.finalAt config fuel i = false := by
    intro fuel i hi
    cases fuel with
    | zero => rfl
    | succ fuel =>
        rw [finalAt, node_of_size_le hi]
        rfl
  intro fuel
  induction fuel with
  | zero =>
      intro fuel' i hi _
      rw [hout (by omega), hout (by omega)]
  | succ fuel ih =>
      intro fuel' i hi hi'
      cases fuel' with
      | zero => rw [hout (by omega), hout (by omega)]
      | succ fuel' =>
          rw [finalAt, finalAt]
          cases hk : (d.node i).kind with
          | parallel =>
              simp only
              refine Bool.eq_iff_iff.mpr ?_
              simp only [List.all_eq_true]
              refine forall_congr' fun c => imp_congr_right fun hc => ?_
              -- regions stand behind their state, so less fuel is enough for them
              have hlt := wf.lt_of_below (wf.child_below (List.mem_filter.mp hc).1)
              have hbelow : d.finalAt config fuel c = d.finalAt config fuel' c :=
                ih (by omega) (by omega)
              rw [hbelow]
          | _ => rfl

/-- A parallel state is complete if all its regions are. -/
theorem isInFinalState_parallel {q : Nat} (hk : (d.node q).kind = .parallel) :
    d.isInFinalState config q = true ↔ ∀ c ∈ (d.node q).children,
      (d.node c).isHistory = false → d.isInFinalState config c = true := by
  have hregion : ∀ c ∈ (d.node q).children,
      d.finalAt config d.nodes.size c = d.isInFinalState config c := by
    intro c hc
    exact wf.finalAt_stable (by omega) (by omega)
  rw [isInFinalState, finalAt]
  simp only [hk, List.all_eq_true, List.mem_filter, Bool.not_eq_true', and_imp]
  refine forall_congr' fun c => ⟨fun h hc hhist => ?_, fun h hc hhist => ?_⟩
  · rw [← hregion c hc]
    exact h hc hhist
  · rw [hregion c hc]
    exact h hc hhist

/-! ## Found in time -/

omit wf in
theorem isDeeper_iff {q f : Nat} : d.isDeeper q f = true ↔
    (d.node f).isFinal = true ∧ ∃ p, (d.node f).parent = some p ∧ d.Below p q := by
  unfold isDeeper
  cases (d.node f).parent with
  | none => simp
  | some p => simp

/-- A final state in a state is a child of it or lies deeper. -/
theorem below_iff_child_or_deeper {q f : Nat} (hf : (d.node f).isFinal = true) :
    d.Below f q ↔ d.isFinalChild q f = true ∨ d.isDeeper q f = true := by
  rw [wf.below_iff_parent, isDeeper_iff]
  simp only [isFinalChild, hf, Bool.true_and, beq_iff_eq, true_and]
  constructor
  · rintro ⟨p, hp, rfl | hbelow⟩
    · exact .inl hp
    · exact .inr ⟨p, hp, hbelow⟩
  · rintro (hp | ⟨p, hp, hbelow⟩)
    · exact ⟨q, hp, .inl rfl⟩
    · exact ⟨p, hp, .inr hbelow⟩

/-- Unless final states are children of it, a state is found complete while states are entered
exactly if a final state is entered in it and it is complete at the end. -/
theorem due_iff {q : Nat} (hq : (d.node q).isFinal = false) : ∀ {entering : List Nat}
    {config : Configuration}, (∀ f ∈ entering, d.isFinalChild q f = false) →
      (d.due config q entering = true ↔
        (∃ f ∈ entering, (d.node f).isFinal = true ∧ d.Below f q) ∧
          d.isInFinalState (config.insertAll entering) q = true)
  | [], _, _ => by simp [due]
  | f :: rest, config, hchild => by
      have hrest : d.due (config.insert f) q rest = true ↔
          (∃ f' ∈ rest, (d.node f').isFinal = true ∧ d.Below f' q) ∧
            d.isInFinalState ((config.insert f).insertAll rest) q = true :=
        due_iff hq fun f' hf' => hchild f' (List.mem_cons_of_mem _ hf')
      have hdeeper : d.isDeeper q f = true ↔ (d.node f).isFinal = true ∧ d.Below f q := by
        constructor
        · intro h
          have hf := (isDeeper_iff.mp h).1
          exact ⟨hf, (wf.below_iff_child_or_deeper hf).mpr (.inr h)⟩
        · rintro ⟨hf, hbelow⟩
          refine ((wf.below_iff_child_or_deeper hf).mp hbelow).resolve_left ?_
          simp [hchild f List.mem_cons_self]
      have hall : config.insertAll (f :: rest) = (config.insert f).insertAll rest := rfl
      rw [due, Bool.or_eq_true, Bool.and_eq_true, hrest, hdeeper, hall, List.exists_mem_cons_iff]
      constructor
      · rintro (⟨hf, hcomplete⟩ | ⟨hsome, hcomplete⟩)
        · -- states entered later make nothing incomplete
          refine ⟨.inl hf, wf.finalAt_mono (fun i _ _ hi => ?_) hcomplete⟩
          exact (NodeSet.mem_insertAll _ _ _).mpr (.inr hi)
        · exact ⟨.inr hsome, hcomplete⟩
      · rintro ⟨hf | hsome, hcomplete⟩
        · by_cases hsome : ∃ f ∈ rest, (d.node f).isFinal = true ∧ d.Below f q
          · exact .inr ⟨hsome, hcomplete⟩
          · -- no later final state lies in it, so what counts has been entered
            refine .inl ⟨hf, wf.finalAt_mono (fun i hfinal hwithin hi => ?_) hcomplete⟩
            refine ((NodeSet.mem_insertAll _ _ _).mp hi).resolve_left fun hi => hsome ?_
            refine ⟨i, hi, hfinal, hwithin.resolve_left ?_⟩
            rintro rfl
            rw [hq] at hfinal
            cases hfinal
        · exact .inr ⟨hsome, hcomplete⟩

end WellFormed

end Definition

namespace Machine

open StepM

variable {m : Machine} {w w' : Work} {event : Event}

/-! ## What is told -/

theorem execute_tells {actions : List (Action Logic)} (h : m.execute actions event w = .ok () w') :
    w.Tells w' [] := by
  have hruns : Runs (Performs fun _ => True) (m.execute actions event) :=
    performs_execute m.confines_all fun _ _ => trivial
  have hsteps := hruns w
  rw [after_of_ok h] at hsteps
  clear h
  induction hsteps with
  | refl => exact .refl rfl rfl
  | tail _ hstep ih => exact ih.trans hstep.queues.tells

theorem mark_tells {k : Mark} (hraised : k.raised? = none) (hk : ∀ state, k ≠ .completed state)
    (h : mark k w = .ok () w') : w.Tells w' [] := by
  cases h
  refine ⟨[k], ⟨by simp [Work.marks], by simp [hraised]⟩, by simpa using hk, ?_⟩
  cases k with
  | completed state => exact absurd rfl (hk state)
  | _ => rfl

theorem raiseDone_tells {state : Nat} {output : Json}
    (h : m.raiseDone state output w = .ok () w') : w'.snapshot = w.snapshot ∧
      w.Tells w' [(state, .doneState (m.definition.node state).id output)] := by
  cases h
  refine ⟨rfl, [.completed state, .raised (.doneState (m.definition.node state).id output)],
    ⟨by simp [Work.marks], rfl⟩, by simp, rfl⟩

variable (m) in
/-- The parallel states among some states that are found complete, and have not been before. -/
def dueRegions (config : Configuration) (raised ancestors : List Nat) : List Nat :=
  ancestors.filter fun a => a ≠ Definition.rootIndex ∧ (m.definition.node a).kind = .parallel ∧
    a ∉ raised ∧ m.definition.isInFinalState config a = true

/-- The climb from a final state finds each complete state on its way once. -/
theorem completeRegions_tells : ∀ {ancestors raised raised' : List Nat} {w : Work},
    ancestors.Nodup → m.completeRegions raised ancestors w = .ok raised' w' →
      w'.snapshot = w.snapshot ∧
      (∀ a, a ∈ raised' ↔ a ∈ raised ∨ a ∈ m.dueRegions w.snapshot.config raised ancestors) ∧
      w.Tells w' ((m.dueRegions w.snapshot.config raised ancestors).map fun a =>
        (a, .doneState (m.definition.node a).id .null))
  | [], raised, raised', w, _, h => by
      cases h
      exact ⟨rfl, by simp [dueRegions], .refl rfl rfl⟩
  | a :: rest, raised, raised', w, hnodup, h => by
      obtain ⟨hnew, hnodup'⟩ := List.nodup_cons.mp hnodup
      obtain ⟨_, _, hget, h⟩ := bind_eq_ok h
      cases hget
      simp only at h
      split at h
      · rename_i hdue
        obtain ⟨_, w₁, hraise, hrest⟩ := bind_eq_ok h
        obtain ⟨hsnapshot, htells⟩ := raiseDone_tells hraise
        obtain ⟨hsnapshot', hraised, htells'⟩ := completeRegions_tells hnodup' hrest
        -- what is added to the memory does not stand further up
        have hsame : m.dueRegions w₁.snapshot.config (a :: raised) rest =
            m.dueRegions w.snapshot.config raised rest := by
          rw [hsnapshot]
          refine List.filter_congr fun b hb => ?_
          have hne : b ≠ a := by
            rintro rfl
            exact hnew hb
          simp [hne]
        have hcons : m.dueRegions w.snapshot.config raised (a :: rest) =
            a :: m.dueRegions w.snapshot.config raised rest :=
          List.filter_cons_of_pos (by simpa using hdue)
        rw [hsame] at hraised htells'
        rw [hcons]
        refine ⟨hsnapshot'.trans hsnapshot, fun b => ?_, htells.trans htells'⟩
        rw [hraised, List.mem_cons, List.mem_cons, or_assoc, or_left_comm]
      · rename_i hdue
        obtain ⟨hsnapshot', hraised, htells'⟩ := completeRegions_tells hnodup' h
        have hcons : m.dueRegions w.snapshot.config raised (a :: rest) =
            m.dueRegions w.snapshot.config raised rest :=
          List.filter_cons_of_neg (by simpa using hdue)
        rw [hcons]
        exact ⟨hsnapshot', hraised, htells'⟩

/-- What an entered final state completes at once. -/
structure Completes (m : Machine) (config : Configuration) (raised raised' : List Nat) (final : Nat)
    (done : List (Nat × Event)) : Prop where
  named : ∀ c ∈ done, c.1 ≠ Definition.rootIndex ∧
    ((m.definition.node c.1).kind = .compound ∨ (m.definition.node c.1).kind = .parallel) ∧
      ∃ output, c.2 = .doneState (m.definition.node c.1).id output
  times : ∀ q ≠ Definition.rootIndex, timesCompleted q done =
    (if m.definition.isFinalChild q final = true then 1 else 0) +
      if (m.definition.node q).kind = .parallel ∧ q ∉ raised ∧
        m.definition.isDeeper q final = true ∧
          m.definition.isInFinalState config q = true then 1 else 0
  raised : ∀ q ≠ Definition.rootIndex, q ∈ raised' ↔ q ∈ raised ∨
    (m.definition.node q).kind = .parallel ∧ m.definition.isDeeper q final = true ∧
      m.definition.isInFinalState config q = true

theorem completes_nil {config : Configuration} {raised : List Nat} {state : Nat}
    (h : (m.definition.node state).isFinal = false) : m.Completes config raised raised state [] := by
  have hchild : ∀ q, m.definition.isFinalChild q state = false := by
    simp [Definition.isFinalChild, h]
  have hdeeper : ∀ q, m.definition.isDeeper q state = false := by
    intro q
    by_contra hno
    have hfinal := (Definition.WellFormed.isDeeper_iff.mp (by simpa using hno)).1
    rw [h] at hfinal
    cases hfinal
  exact ⟨by simp, by simp [timesCompleted, hchild, hdeeper], by simp [hdeeper]⟩

/-- A final child of the root is in nothing else. -/
theorem isDeeper_of_root (wf : m.definition.WellFormed) {q final : Nat}
    (hp : (m.definition.node final).parent = some Definition.rootIndex) :
    m.definition.isDeeper q final = false := by
  by_contra hno
  obtain ⟨-, p, hp', hbelow⟩ := Definition.WellFormed.isDeeper_iff.mp (by simpa using hno)
  rw [hp] at hp'
  cases hp'
  exact Nat.not_lt_zero _ (wf.lt_of_below hbelow)

theorem mem_dueRegions (wf : m.definition.WellFormed) {config : Configuration} {raised : List Nat}
    {final p q : Nat} (hfinal : (m.definition.node final).isFinal = true)
    (hp : (m.definition.node final).parent = some p) :
    q ∈ m.dueRegions config raised (m.definition.properAncestors p none) ↔
      q ≠ Definition.rootIndex ∧ (m.definition.node q).kind = .parallel ∧ q ∉ raised ∧
        m.definition.isDeeper q final = true ∧ m.definition.isInFinalState config q = true := by
  have hdeeper : m.definition.isDeeper q final = true ↔ m.definition.Below p q := by
    simp [Definition.WellFormed.isDeeper_iff, hfinal, hp]
  simp only [dueRegions, List.mem_filter, wf.mem_properAncestors_none, decide_eq_true_eq, hdeeper]
  tauto

/-- Entering a final state completes the state above it at once, and the parallel states further up
whose regions are complete by then and that have not been reported. -/
theorem completeAround_tells (wf : m.definition.WellFormed) {raised raised' : List Nat} {final : Nat}
    (hfinal : (m.definition.node final).isFinal = true)
    (h : m.completeAround raised final w = .ok raised' w') :
    w'.snapshot = w.snapshot ∧ ∃ done, w.Tells w' done ∧
      m.Completes w.snapshot.config raised raised' final done := by
  unfold completeAround at h
  cases hp : (m.definition.node final).parent with
  -- the root has no parent, so it completes nothing
  | none =>
      simp only [hp] at h
      cases h
      refine ⟨rfl, [], .refl rfl rfl, by simp, fun q _ => ?_, fun q _ => ?_⟩
      · simp [timesCompleted, Definition.isFinalChild, Definition.isDeeper, hp]
      · simp [Definition.isDeeper, hp]
  | some p =>
      simp only [hp] at h
      split at h
      · -- a child of the root completes the machine, which is no event
        rename_i hroot
        subst hroot
        cases h
        have hdeeper := fun q => isDeeper_of_root wf (q := q) hp
        refine ⟨rfl, [], .refl rfl rfl, by simp, fun q hq => ?_, fun q _ => by simp [hdeeper]⟩
        have hne : m.definition.isFinalChild q final = false := by
          simp [Definition.isFinalChild, hp, Ne.symm hq]
        simp [timesCompleted, hne, hdeeper]
      · -- the parent comes first, and then the parallel states above it
        rename_i hroot
        obtain ⟨_, w₁, hraise, hregions⟩ := bind_eq_ok h
        obtain ⟨hsnapshot, htells⟩ := raiseDone_tells hraise
        have hnodup : (m.definition.properAncestors p none).Nodup :=
          wf.pairwise_properAncestors.imp fun hbelow heq => by
            rw [heq] at hbelow
            exact wf.not_below_self _ hbelow
        obtain ⟨hsnapshot', hraised, htells'⟩ := completeRegions_tells hnodup hregions
        rw [hsnapshot] at hraised htells'
        have hmem : ∀ q, q ∈ m.dueRegions w.snapshot.config raised
            (m.definition.properAncestors p none) ↔ _ := fun q => mem_dueRegions wf hfinal hp
        refine ⟨hsnapshot'.trans hsnapshot, _, htells.trans htells', ?_, fun q hq => ?_,
          fun q hq => ?_⟩
        · intro c hc
          rcases List.mem_append.mp hc with hc | hc
          · rw [List.mem_singleton.mp hc]
            exact ⟨hroot, wf.kind_of_child (wf.mem_children.mpr hp), _, rfl⟩
          · obtain ⟨a, ha, rfl⟩ := List.mem_map.mp hc
            obtain ⟨hne, hk, -⟩ := (hmem a).mp ha
            exact ⟨hne, .inr hk, _, rfl⟩
        · have hchild : m.definition.isFinalChild q final = true ↔ p = q := by
            simp [Definition.isFinalChild, hfinal, hp]
          have hdue : (m.dueRegions w.snapshot.config raised
              (m.definition.properAncestors p none)).Nodup := hnodup.filter _
          have hregions := timesCompleted_map hdue
            (fun a => .doneState (m.definition.node a).id .null) q
          rw [timesCompleted_append, timesCompleted_singleton, hregions]
          simp only [hchild, hmem, hq, ne_eq, not_false_eq_true, true_and]
        · rw [hraised, hmem]
          tauto

/-! ## A whole pass -/

theorem now_or_later (parallel reported now later : Prop) [Decidable parallel]
    [Decidable reported] [Decidable now] [Decidable later] :
    (if parallel ∧ ¬ reported ∧ now then 1 else 0) +
        (if parallel ∧ ¬ (reported ∨ parallel ∧ now) ∧ later then 1 else 0) =
      if parallel ∧ ¬ reported ∧ (now ∨ later) then 1 else 0 := by
  by_cases hp : parallel <;> by_cases hr : reported <;> by_cases hn : now <;> simp [hp, hr, hn]

/-- How often an entry pass finds a state complete: at each final child of it, and, if it is parallel
and has not been reported, once when all its regions are complete. -/
theorem enterStates_tells (wf : m.definition.WellFormed) : ∀ {entering raised : List Nat} {w : Work},
    m.enterStates event raised entering w = .ok () w' → ∃ done, w.Tells w' done ∧
      (∀ c ∈ done, c.1 ≠ Definition.rootIndex ∧
        ((m.definition.node c.1).kind = .compound ∨ (m.definition.node c.1).kind = .parallel) ∧
          ∃ output, c.2 = .doneState (m.definition.node c.1).id output) ∧
      ∀ q ≠ Definition.rootIndex, timesCompleted q done =
        entering.countP (m.definition.isFinalChild q) +
          if (m.definition.node q).kind = .parallel ∧ q ∉ raised ∧
            m.definition.due w.snapshot.config q entering = true then 1 else 0
  | [], raised, w, h => by
      cases h
      exact ⟨[], .refl rfl rfl, by simp, fun q _ => by simp [timesCompleted, Definition.due]⟩
  | state :: rest, raised, w, h => by
      obtain ⟨w₁, raised', w₂, hentry, haround, hrest⟩ := enterStates_cons h
      let w₃ : Work := { w₁ with journal := .entered state :: w₁.journal }
      have hmarked : w₁.Tells w₃ [] := mark_tells rfl (by simp) rfl
      have htells : w.Tells w₃ [] := ((execute_tells hentry).trans hmarked).since rfl rfl
      have hconfig : w₃.snapshot.config = w.snapshot.config.insert state :=
        (m.kept_by_acts runs_execute hentry).1
      obtain ⟨done, hconfig', htells', hcompletes⟩ : ∃ done,
          w₂.snapshot.config = w₃.snapshot.config ∧ w₃.Tells w₂ done ∧
            m.Completes w₃.snapshot.config raised raised' state done := by
        rcases haround with ⟨hfinal, haround⟩ | ⟨hfinal, rfl, rfl⟩
        · obtain ⟨hsnapshot, done, htells', hcompletes⟩ := completeAround_tells wf hfinal haround
          exact ⟨done, by rw [hsnapshot], htells', hcompletes⟩
        · exact ⟨[], rfl, .refl rfl rfl, completes_nil hfinal⟩
      obtain ⟨done', htells'', hnamed, htimes⟩ := enterStates_tells wf hrest
      refine ⟨done ++ done', htells.trans (htells'.trans htells''), fun c hc => ?_, fun q hq => ?_⟩
      · exact (List.mem_append.mp hc).elim (hcompletes.named c) (hnamed c)
      · have hdue : m.definition.due w.snapshot.config q (state :: rest) = true ↔
            (m.definition.isDeeper q state = true ∧
              m.definition.isInFinalState w₃.snapshot.config q = true) ∨
                m.definition.due w₂.snapshot.config q rest = true := by
          rw [hconfig', hconfig, Definition.due, Bool.or_eq_true, Bool.and_eq_true]
        rw [timesCompleted_append, hcompletes.times q hq, htimes q hq, List.countP_cons]
        simp only [hdue, hcompletes.raised q hq]
        -- a parallel state is reported now or later in the pass, but not both times
        have honce := now_or_later ((m.definition.node q).kind = .parallel) (q ∈ raised)
          (m.definition.isDeeper q state = true ∧
            m.definition.isInFinalState w₃.snapshot.config q = true)
          (m.definition.due w₂.snapshot.config q rest = true)
        omega

theorem runExits_tells : ∀ {states : List Nat} {w : Work},
    m.runExits event states w = .ok () w' → w.Tells w' []
  | [], _, h => by
      cases h
      exact .refl rfl rfl
  | _ :: _, _, h => by
      obtain ⟨_, hexit, hrest⟩ := runExits_cons h
      exact (execute_tells hexit).trans
        ((mark_tells rfl (by simp) rfl).trans (runExits_tells hrest))

/-- The end of the machine completes nothing more. -/
theorem enter_tells (wf : m.definition.WellFormed) {entering : List Nat}
    (h : m.enter event entering w = .ok () w') : ∃ done, w.Tells w' done ∧
      (∀ c ∈ done, c.1 ≠ Definition.rootIndex ∧
        ((m.definition.node c.1).kind = .compound ∨ (m.definition.node c.1).kind = .parallel) ∧
          ∃ output, c.2 = .doneState (m.definition.node c.1).id output) ∧
      ∀ q ≠ Definition.rootIndex, timesCompleted q done =
        entering.countP (m.definition.isFinalChild q) +
          if (m.definition.node q).kind = .parallel ∧
            m.definition.due w.snapshot.config q entering = true then 1 else 0 := by
  obtain ⟨w₁, hstates, hends⟩ := enter_parts h
  obtain ⟨done, htells, hnamed, htimes⟩ := enterStates_tells wf hstates
  have hend : w₁.Tells w' [] := by
    rcases hends with ⟨-, hexits⟩ | ⟨-, rfl⟩
    · exact (runExits_tells hexits).since rfl rfl
    · exact .refl rfl rfl
  refine ⟨done ++ [], htells.trans hend, by simpa using hnamed, fun q hq => ?_⟩
  simpa using htimes q hq

/-- In a valid configuration a compound state has no two final children active. -/
theorem finalChild_unique (wf : m.definition.WellFormed) {config : Configuration}
    (hvalid : m.definition.isValid config = true) {q f f' : Nat}
    (hk : (m.definition.node q).kind = .compound)
    (hf : f ∈ config ∧ m.definition.isFinalChild q f = true)
    (hf' : f' ∈ config ∧ m.definition.isFinalChild q f' = true) : f = f' := by
  have hat : ∀ i ∈ config, m.definition.isValidAt config i = true := fun i hi =>
    List.all_eq_true.mp hvalid i ((NodeSet.mem_toList _ i).mpr hi)
  have hparent : ∀ f, m.definition.isFinalChild q f = true →
      (m.definition.node f).parent = some q := by
    intro f hf
    simp only [Definition.isFinalChild, Bool.and_eq_true, beq_iff_eq] at hf
    exact hf.2
  have hp := hparent f hf.2
  have hsize := wf.parent_lt hp
  have hact := ((wf.isValidAt_iff hsize.2).mp (hat f hf.1)).1 q hp
  obtain ⟨c, -, -, hunique⟩ :=
    ((wf.isValidAt_iff (Nat.lt_trans hsize.1 hsize.2)).mp (hat q hact)).2.1 hk
  exact (hunique f (wf.mem_children.mpr hp) hf.1).trans
    (hunique f' (wf.mem_children.mpr (hparent f' hf'.2)) hf'.1).symm

theorem countP_of_unique {p : Nat → Bool} {l : List Nat} (hnodup : l.Nodup)
    (hunique : ∀ a ∈ l, p a = true → ∀ b ∈ l, p b = true → a = b) :
    l.countP p = if ∃ a ∈ l, p a = true then 1 else 0 := by
  split
  · rename_i hsome
    obtain ⟨a, ha, hpa⟩ := hsome
    have hsame : l.countP p = l.count a := by
      refine List.countP_congr fun b hb => ?_
      rw [beq_iff_eq]
      refine ⟨fun hpb => hunique b hb hpb a ha hpa, ?_⟩
      rintro rfl
      exact hpa
    rw [hsame, List.count_eq_one_of_mem hnodup ha]
  · rename_i hnone
    exact List.countP_eq_zero.mpr fun a ha hpa => hnone ⟨a, ha, hpa⟩

/-- The completions of an entry pass that ends in a valid configuration. -/
theorem enter_finishes {json : Json} (hdef : Definition.ofJson json = .ok m.definition)
    {entering : List Nat} (hnodup : entering.Nodup) (h : m.enter event entering w = .ok () w')
    (hvalid : m.definition.isValid w'.snapshot.config = true) :
    ∃ new, w.Adds w' new ∧
      m.definition.Finishes entering w'.snapshot.config (completions new) := by
  have wf := Definition.wellFormed_of_ofJson hdef
  obtain ⟨-, hmem⟩ := enter_ok h
  obtain ⟨_, ⟨new, hadds, -, rfl⟩, hnamed, htimes⟩ := enter_tells wf h
  have hnext : w.snapshot.config.insertAll entering = w'.snapshot.config := by
    refine NodeSet.ext fun i => ?_
    rw [NodeSet.mem_insertAll, hmem, or_comm]
  refine ⟨new, hadds, hnamed, fun q hq hk => ?_, fun q hq hk hchild => ?_, fun q hq hk => ?_⟩
  · rw [htimes q hq, countP_of_unique hnodup]
    · simp [hk]
    · intro f hf hfinal f' hf' hfinal'
      exact finalChild_unique wf hvalid hk ⟨(hmem f).mpr (.inr hf), hfinal⟩
        ⟨(hmem f').mpr (.inr hf'), hfinal'⟩
  · have hnone : entering.countP (m.definition.isFinalChild q) = 0 :=
      List.countP_eq_zero.mpr fun f hf => by simp [hchild f hf]
    have hfinal : (m.definition.node q).isFinal = false := by simp [StateNode.isFinal, hk]
    rw [htimes q hq, hnone, Nat.zero_add]
    simp only [hk, true_and, wf.due_iff hfinal hchild, hnext, wf.isInFinalState_parallel hk]
  · rw [htimes q hq]
    split <;> omega

/-- A parallel state of a part that is finished from the first and of another one. -/
def workshopJson (first : Json) : Json :=
  let second : Json := .obj [("initial", .str "working"), ("states",
    .obj [("working", .obj [("on", .obj [("FIN", .str "done")])]),
      ("done", .obj [("type", .str "final")])])]
  let parts : Json := .obj [("type", .str "parallel"), ("onDone", .str "finished"), ("states",
    .obj [("a", first), ("b", second)])]
  .obj [("id", .str "m"), ("initial", .str "p"), ("states",
    .obj [("p", parts), ("finished", .obj [])])]

/-- The machine of the two parts, with nothing supplied. -/
def workshop (first : Json) : Machine where
  definition := (Definition.ofJson (workshopJson first)).toOption.getD default
  implementations := default
  spawn := default

/-- A part that begins in a final state of its own. -/
def idlePart : Json :=
  .obj [("initial", .str "f"), ("states", .obj [("f", .obj [("type", .str "final")])])]

set_option maxRecDepth 100000 in
/-- The part is complete, and the parallel state is not as long as the other part works. -/
theorem workshop_waits : ∃ w' new, (workshop idlePart).enterInitial default default = .ok () w' ∧
    (default : Work).Adds w' new ∧ timesCompleted 2 (completions new) = 1 ∧
      timesCompleted 1 (completions new) = 0 := by
  have hdef : (Definition.ofJson (L := Logic) (workshopJson idlePart)).isOk = true := rfl
  have hvalid : ∃ w', (workshop idlePart).enterInitial default default = .ok () w' ∧
      (workshop idlePart).definition.isValid w'.snapshot.config = true ∧
        (workshop idlePart).definition.isInFinalState w'.snapshot.config 4 = false :=
    ⟨_, rfl, rfl, rfl⟩
  obtain ⟨w', h, hvalid, hworks⟩ := hvalid
  obtain ⟨new, hadds, hfinishes⟩ :=
    enter_finishes (ok_of_isOk hdef) (NodeSet.nodup_toList _) h hvalid
  refine ⟨w', new, h, hadds, ?_, ?_⟩
  · rw [hfinishes.compound 2 (by decide) rfl]
    rfl
  · rw [hfinishes.parallel 1 (by decide) rfl (by decide)]
    refine if_neg fun hdone => ?_
    rw [hdone.2 4 (by decide) rfl] at hworks
    cases hworks

/-- A part that is a final state itself. -/
def finalPart : Json := .obj [("type", .str "final")]

set_option maxRecDepth 100000 in
/-- A region that is a final state itself completes its parallel state before the others are. -/
theorem completed_early : ¬ ∀ (m : Machine) (json : Json),
    Definition.ofJson json = .ok m.definition → ∀ (event : Event) (w w' : Work),
      m.enterInitial event w = .ok () w' →
      m.definition.isValid w'.snapshot.config = true → ∃ new, w.Adds w' new ∧
        ∀ q ≠ Definition.rootIndex, (m.definition.node q).kind = .parallel →
          timesCompleted q (completions new) =
            if (∃ f ∈ m.definition.initialEntrySet.toList, (m.definition.node f).isFinal = true ∧
                m.definition.Below f q) ∧
              (∀ c ∈ (m.definition.node q).children, (m.definition.node c).isHistory = false →
                m.definition.isInFinalState w'.snapshot.config c = true) then 1 else 0 := by
  intro hall
  have hdef : (Definition.ofJson (L := Logic) (workshopJson finalPart)).isOk = true := rfl
  obtain ⟨w', h, hvalid, htimes, hworks⟩ : ∃ w',
      (workshop finalPart).enterInitial default default = .ok () w' ∧
        (workshop finalPart).definition.isValid w'.snapshot.config = true ∧
          timesCompleted 1 (completions w'.marks) = 1 ∧
            (workshop finalPart).definition.isInFinalState w'.snapshot.config 3 = false :=
    ⟨_, rfl, rfl, rfl, rfl⟩
  obtain ⟨new, hadds, hcompleted⟩ :=
    hall (workshop finalPart) _ (ok_of_isOk hdef) default default w' h hvalid
  have hnew : w'.marks = new := hadds.marks
  rw [← hnew] at hcompleted
  have honly := hcompleted 1 (by decide) rfl
  rw [htimes, if_neg fun hdone => ?_] at honly
  · cases honly
  · rw [hdone.2 3 (by decide) rfl] at hworks
    cases hworks

end Machine

end Statechart
