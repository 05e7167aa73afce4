import Statechart.Proofs.Evolution
import Statechart.Proofs.Keeping

/-!
# How actors come to their end

The observers of an actor hear of its end at one of two stages: when it is finished, or when it has
failed. Which of the two it is going to be is decided when the actor is wound up, and its snapshot
tells it (`Delivery.Concludes`). Whoever stops is going to be at one of these stages, and does not
change any more (`Delivery.Moves.winding`).
-/

namespace Statechart

/-- Who is closed is finished later on, or reports a failure. -/
theorem Legal.ending {todo : List Stage} (h : Legal todo) (hhalt : .halt ∈ todo) :
    .finish ∈ todo ∨ .failed ∈ todo := by
  induction todo with
  | nil => cases hhalt
  | cons x rest ih =>
      cases x with
      | aside =>
          exact (ih h.2 (by simpa using hhalt)).imp (List.mem_cons_of_mem _) (List.mem_cons_of_mem _)
      | effects => rcases h with rfl | rfl | rfl <;> simp at hhalt ⊢
      | halt | retire => rcases h with rfl | rfl | rfl | rfl <;> simp at hhalt ⊢
      | finish => exact .inl List.mem_cons_self
      | failed => exact .inr List.mem_cons_self
      | drain | launch | settle | tell =>
          obtain rfl := h
          simp at hhalt

/-- A frame that neither finishes an actor nor reports a failure. -/
def Frame.lasting : Frame → Bool
  | .finish _ => false
  | .failed _ _ _ => false
  | _ => true

section Stages

variable {s : Session} {f : Frame} {frames : List Frame}

theorem mem_stages_finish : .finish ∈ stages s frames ↔ .finish s ∈ frames := by
  rw [mem_stages]
  refine ⟨?_, fun h => ⟨_, h, rfl⟩⟩
  rintro ⟨f, hf, hstage⟩
  cases f <;> simp [Frame.stage] at hstage
  exact hstage ▸ hf

theorem mem_stages_failed :
    .failed ∈ stages s frames ↔ ∃ snapshot failure, .failed s snapshot failure ∈ frames := by
  rw [mem_stages]
  refine ⟨?_, fun ⟨_, _, h⟩ => ⟨_, h, rfl⟩⟩
  rintro ⟨f, hf, hstage⟩
  cases f <;> simp [Frame.stage] at hstage
  exact ⟨_, _, hstage ▸ hf⟩

theorem stages_lasting (h : frames.all Frame.lasting = true) :
    .finish ∉ stages s frames ∧ .failed ∉ stages s frames := by
  rw [List.all_eq_true] at h
  refine ⟨fun hmem => ?_, fun hmem => ?_⟩
  · cases h _ (mem_stages_finish.mp hmem)
  · obtain ⟨_, _, hmem⟩ := mem_stages_failed.mp hmem
    cases h _ hmem

theorem Frame.Plain.lasting (h : f.Plain) : f.lasting = true := by
  cases f <;> first | rfl | cases h.stage

theorem Frame.Aside.lasting (h : f.Aside s) : f.lasting = true := by
  cases f <;> first | rfl | cases h

end Stages

namespace Delivery

variable {sys sys' : System} {top : Option Frame} {s t : Session} {xs rest : List Frame} {a : Actor}

/-! ## Coming to an end -/

/-- Frames that come up for an actor decide how it ends: its snapshot says whether it has failed. Such
frames only come up for an actor that has not stopped yet. -/
structure Concludes (s : Session) (sys sys' : System) (xs : List Frame) : Prop where
  finish : .finish ∈ stages s xs →
    (sys.actor s).status ≠ .stopped ∧ (sys'.actor s).snapshot.status ≠ .error
  failed : .failed ∈ stages s xs →
    (sys.actor s).status ≠ .stopped ∧ (sys'.actor s).snapshot.status = .error

theorem Concludes.lasting (h : xs.all Frame.lasting = true) : Concludes s sys sys' xs := by
  obtain ⟨hfinish, hfailed⟩ := stages_lasting (s := s) h
  exact ⟨fun hmem => absurd hmem hfinish, fun hmem => absurd hmem hfailed⟩

/-- Frames of another actor. -/
theorem Concludes.other (h : ∀ g ∈ xs, ∀ u y, g.stage = some (u, y) → u = t) (hts : s ≠ t) :
    Concludes s sys sys' xs := by
  have hnone : stages s xs = [] := stages_eq_nil fun g hg => by
    cases hstage : g.stageOf s with
    | none => rfl
    | some y => exact absurd (h g hg s y (Frame.stage_of_stageOf hstage)) hts
  constructor
  all_goals
    intro hmem
    rw [hnone] at hmem
    cases hmem

/-- Frames that finish an actor that has not failed. -/
theorem Concludes.finishing (hxs : ∀ g ∈ xs, ∀ u y, g.stage = some (u, y) → u = t ∧ y ≠ .failed)
    (hopen : (sys.actor t).status ≠ .stopped) (hstatus : (sys'.actor t).snapshot.status ≠ .error) :
    Concludes s sys sys' xs := by
  by_cases hts : s = t
  · refine ⟨fun _ => hts ▸ ⟨hopen, hstatus⟩, fun hmem => ?_⟩
    obtain ⟨g, hg, hstage⟩ := mem_stages.mp hmem
    exact absurd rfl (hxs g hg _ _ hstage).2
  · exact .other (fun g hg u y hstage => (hxs g hg u y hstage).1) hts

/-- Frames that report the failure of an actor. -/
theorem Concludes.failing (hxs : ∀ g ∈ xs, ∀ u y, g.stage = some (u, y) → u = t ∧ y ≠ .finish)
    (hopen : (sys.actor t).status ≠ .stopped) (hstatus : (sys'.actor t).snapshot.status = .error) :
    Concludes s sys sys' xs := by
  by_cases hts : s = t
  · refine ⟨fun hmem => ?_, fun _ => hts ▸ ⟨hopen, hstatus⟩⟩
    obtain ⟨g, hg, hstage⟩ := mem_stages.mp hmem
    exact absurd rfl (hxs g hg _ _ hstage).2
  · exact .other (fun g hg u y hstage => (hxs g hg u y hstage).1) hts

theorem Calls.lasting {c : Call} {below : List Frame} (h : Calls sys top t c below) :
    below.all Frame.lasting = true := by
  cases h <;> rfl

/-- Only an actor that has not started ends with the call that stops it. -/
theorem Answered.concludes {c : Call} {sys₁ : System} {below : List Frame}
    (h : Answered sys₁ t c sys' xs) (hquiet : sys.Quiet sys₁)
    (hbelow : below.all Frame.lasting = true) : Concludes s sys sys' (xs ++ below) := by
  have hlasting : xs.all Frame.lasting = true → Concludes s sys sys' (xs ++ below) := by
    intro hxs
    refine .lasting ?_
    rw [List.all_append, hxs, hbelow]
    rfl
  cases h with
  | refused _ hframes => exact hlasting (by rcases hframes with rfl | rfl <;> rfl)
  | posted _ _ _ _ hframes => exact hlasting (by rcases hframes with rfl | rfl <;> rfl)
  | claimed => exact hlasting rfl
  | @halted a sys' ha hnew hputs =>
      have hself : Concludes s sys sys' [.halt t, .finish t, .reply (.ok ())] := by
        refine .finishing (t := t) (by simp [Frame.stage]) ?_ ?_
        · rw [← hquiet.actor t, System.actor_eq ha, hnew]
          intro h
          cases h
        · rw [hputs.actor_self, Snapshot.status_stopped]
          intro h
          cases h
      have hnone : Concludes s sys sys' below := .lasting hbelow
      refine ⟨fun hmem => ?_, fun hmem => ?_⟩ <;> rw [stages_append, List.mem_append] at hmem
      · exact hmem.elim hself.finish hnone.finish
      · exact hmem.elim hself.failed hnone.failed

/-- Who is going to be settled runs, and has the snapshot that it is settled with. -/
theorem Orderly.settling {snapshot : Snapshot} {failure : Option ActorError}
    (hd : Orderly none sys (.settle s snapshot failure :: rest)) :
    (sys.actor s).status = .running ∧ (sys.actor s).snapshot = snapshot := by
  obtain ⟨a, ha⟩ := hd.known _ List.mem_cons_self s .settle rfl
  rw [System.actor_eq ha]
  exact ⟨(hd.staged rfl ha).running .settle List.mem_cons_self (.inr rfl),
    ((hd.attended s a ha).current _ List.mem_cons_self snapshot (if_pos rfl)).symm⟩

theorem Moves.concludes (h : Moves sys top sys' xs)
    (hd : Orderly (closing (top.toList ++ rest)) sys (top.toList ++ rest)) :
    Concludes s sys sys' xs := by
  cases h with
  | idled _ _ hxs => exact .lasting (List.all_eq_true.mpr fun g hg => (hxs g hg).lasting)
  | called hcalls hquiet h => exact h.concludes hquiet hcalls.lasting
  | resumed _ _ hxs =>
      rcases hxs with rfl | ⟨g, hg, rfl⟩
      · exact .lasting rfl
      · exact .lasting (by simp [hg.lasting])
  | interrupted _ hg =>
      refine .lasting ?_
      rw [List.all_cons, hg.lasting]
      rfl
  | @done t snapshot failure sys' hquiet hstatus =>
      have hd : Orderly none sys (.settle t snapshot failure :: rest) := hd
      obtain ⟨hrunning, hsnapshot⟩ := hd.settling
      refine .finishing (t := t) (by simp [Frame.stage]) (by simp [hrunning]) ?_
      rw [hquiet.actor, hsnapshot, hstatus]
      intro h
      cases h
  | @broken t snapshot failure sys' hquiet hstatus =>
      have hd : Orderly none sys (.settle t snapshot failure :: rest) := hd
      obtain ⟨hrunning, hsnapshot⟩ := hd.settling
      refine .failing (t := t) (by simp [Frame.stage]) (by simp [hrunning]) ?_
      rw [hquiet.actor, hsnapshot, hstatus]
  | reported _ hbefore =>
      refine .lasting ?_
      rw [List.all_append, List.all_eq_true.mpr fun g hg => (hbefore g hg).lasting]
      rfl
  | @stopped t a m event sys₀ sys₁ sys' next effects kept ha hnext hname htook hends hputs =>
      have hd : Orderly none sys (.drain t :: rest) := hd
      refine .finishing (t := t) (by simp [Frame.stage]) ?_ ?_
      · rw [System.actor_eq ha, hd.running ha hnext]
        intro h
        cases h
      · rw [hputs.actor_self]
        simp [hends.status]
  | _ => exact .lasting rfl

/-! ## After the end -/

/-- What a move means to an actor that comes to its end. -/
structure Winding (s : Session) (sys : System) (top : Option Frame) (sys' : System)
    (xs rest : List Frame) : Prop where
  /-- Who has stopped stays as it is. -/
  stopped : (sys.actor s).status = .stopped →
    (sys'.actor s).status = .stopped ∧ (sys'.actor s).snapshot = (sys.actor s).snapshot
  /-- Who is closed keeps its snapshot. -/
  halted : top = some (.halt s) → (sys'.actor s).snapshot = (sys.actor s).snapshot
  /-- Whoever stops is going to be finished, or to report a failure. -/
  stops : (sys.actor s).status ≠ .stopped → (sys'.actor s).status = .stopped →
    .finish ∈ stages s (xs ++ rest) ∨ .failed ∈ stages s (xs ++ rest)
  concludes : Concludes s sys sys' xs

theorem Winding.since {sys₁ : System} (h : Winding s sys₁ top sys' xs rest)
    (hquiet : sys.Quiet sys₁) : Winding s sys top sys' xs rest := by
  have hactor := hquiet.actor s
  obtain ⟨hstopped, hhalted, hstops, hfinish, hfailed⟩ := h
  rw [hactor] at hstopped hhalted hstops hfinish hfailed
  exact ⟨hstopped, hhalted, hstops, hfinish, hfailed⟩

theorem Moves.winding (h : Moves sys top sys' xs)
    (hd : Orderly (closing (top.toList ++ rest)) sys (top.toList ++ rest))
    (hd' : Orderly (closing (xs ++ rest)) sys' (xs ++ rest)) (ha : sys.actor? s = some a) :
    Winding s sys top sys' xs rest := by
  obtain ⟨a', ha', -, hevolves⟩ := (h.evolution hd).actor s a ha
  have hself := System.actor_eq ha
  have hself' := System.actor_eq ha'
  refine ⟨fun hstopped => ?_, fun htop => ?_, fun hopen hstopped => ?_, h.concludes hd⟩
  · rw [hself] at hstopped ⊢
    rw [hself']
    exact hevolves.stopped hstopped
  · subst htop
    cases h with
    | idled htop => exact absurd (htop _ rfl).stage nofun
    | called hcalls => cases hcalls
    | resumed hf => cases hf
    | posted hf => cases hf
    | halted hb hputs => rw [hputs.actor_self, System.actor_eq hb]
  · rw [hself] at hopen
    rw [hself'] at hstopped
    rcases hevolves.stops hopen hstopped with ⟨rfl, -⟩ | ⟨_, -, hhalt, -⟩
    · -- what stands below tells how the actor ends
      have hlegal := (hd.staged (f := .halt s) (by rfl) ha).legal
      have hending := hlegal.ending List.mem_cons_self
      rw [stages_append]
      exact hending.imp (fun hmem => List.mem_append_right _ (by simpa using hmem))
        fun hmem => List.mem_append_right _ (by simpa using hmem)
    · refine (hd'.attended s a' ha').staged.legal.ending ?_
      rw [stages_append]
      exact List.mem_append_left _ (mem_stages.mpr ⟨_, hhalt, rfl⟩)

/-- Where an actor stands that has observers: once it has stopped, its end is still to be told, and
its snapshot says what is going to be told. -/
structure Ending (s : Session) (sys : System) (frames : List Frame) : Prop where
  closes : (sys.actor s).status = .stopped → .finish ∈ stages s frames ∨ .failed ∈ stages s frames
  finish : .finish ∈ stages s frames → (sys.actor s).snapshot.status ≠ .error
  failed : .failed ∈ stages s frames → (sys.actor s).snapshot.status = .error

/-- Who comes to its end keeps its snapshot. -/
theorem Winding.kept (h : Winding s sys top sys' xs rest)
    (hd : Orderly (closing (top.toList ++ rest)) sys (top.toList ++ rest))
    (ha : sys.actor? s = some a) (hopen : top = none → closing rest = none) {x : Stage}
    (hx : x.Final) (hmem : x ∈ stages s rest) :
    (sys'.actor s).snapshot = (sys.actor s).snapshot := by
  have hmem : x ∈ stages s (top.toList ++ rest) := by
    rw [stages_append]
    exact List.mem_append_right _ hmem
  rcases (hd.attended s a ha).staged.stopped x hmem hx with hstopped | hclosing
  · exact (h.stopped (System.actor_eq ha ▸ hstopped)).2
  · cases top with
    | none =>
        rw [Option.toList_none, List.nil_append, hopen rfl] at hclosing
        cases hclosing
    | some f =>
        refine h.halted (congrArg some ?_)
        cases f <;> cases hclosing
        rfl

/-- It stays like that until the end is told. -/
theorem Ending.next (h : Ending s sys (top.toList ++ rest)) (hwinding : Winding s sys top sys' xs rest)
    (hd : Orderly (closing (top.toList ++ rest)) sys (top.toList ++ rest))
    (ha : sys.actor? s = some a) (hopen : top = none → closing rest = none)
    (htop : .finish ∉ stages s top.toList ∧ .failed ∉ stages s top.toList) :
    Ending s sys' (xs ++ rest) := by
  -- the frame on top does not tell the end, so what tells it stands below
  have hbelow : ∀ {x : Stage}, x ∉ stages s top.toList → x ∈ stages s (top.toList ++ rest) →
      x ∈ stages s rest := by
    intro x htop hmem
    rw [stages_append, List.mem_append] at hmem
    exact hmem.resolve_left htop
  have hadd : ∀ {x : Stage} (ys : List Frame), x ∈ stages s rest → x ∈ stages s (ys ++ rest) := by
    intro x ys hmem
    rw [stages_append]
    exact List.mem_append_right _ hmem
  refine ⟨fun hstopped => ?_, fun hmem => ?_, fun hmem => ?_⟩
  · by_cases hbefore : (sys.actor s).status = .stopped
    · exact (h.closes hbefore).imp (fun hmem => hadd xs (hbelow htop.1 hmem))
        fun hmem => hadd xs (hbelow htop.2 hmem)
    · exact hwinding.stops hbefore hstopped
  · rw [stages_append, List.mem_append] at hmem
    rcases hmem with hmem | hmem
    · exact (hwinding.concludes.finish hmem).2
    · rw [hwinding.kept hd ha hopen (by simp [Stage.Final]) hmem]
      exact h.finish (hadd _ hmem)
  · rw [stages_append, List.mem_append] at hmem
    rcases hmem with hmem | hmem
    · exact (hwinding.concludes.failed hmem).2
    · rw [hwinding.kept hd ha hopen (by simp [Stage.Final]) hmem]
      exact h.failed (hadd _ hmem)

end Delivery

end Statechart
