import Mathlib.Data.List.Pairwise
import Statechart.Actor.Scheduler
import Statechart.Proofs.SortedMap

/-!
# Pending timers

The timers of a scheduler stand in the order of their keys, no key occurs twice, and the index finds
exactly the timers that have an id (`Scheduler.Sound`). So an owner has at most one timer of an id
(`Sound.unique`), to cancel takes that one away (`mem_cancel_iff`), to schedule puts the new one in
its place (`mem_schedule_iff`), and the timer that is taken is the first that falls due
(`popDue?_eq_some`).
-/

namespace Statechart

/-- Whether a timer is the one that an owner knows by an id. -/
def Timer.IsCalled (t : Timer) (owner : Session) (id : String) : Prop :=
  t.owner = owner ∧ t.id = some id

instance (t : Timer) (owner : Session) (id : String) : Decidable (t.IsCalled owner id) :=
  inferInstanceAs (Decidable (_ ∧ _))

namespace Scheduler

/-! ## The order of keys -/

namespace Key

variable {a b c : Key}

theorem before_iff :
    a.before b = true ↔ a.due < b.due ∨ a.due = b.due ∧ a.number < b.number := by
  simp only [before, Bool.or_eq_true, Bool.and_eq_true, decide_eq_true_eq, beq_iff_eq]

theorem before_irrefl (a : Key) : ¬ a.before a = true := by
  rw [before_iff]
  omega

theorem before_trans (h : a.before b = true) (h' : b.before c = true) : a.before c = true := by
  rw [before_iff] at *
  omega

theorem due_le (h : a.before b = true) : a.due ≤ b.due := by
  rw [before_iff] at h
  omega

/-- A key with a later number comes after any that it does not come before. -/
theorem before_of_not (h : ¬ a.before b = true) (hnumber : b.number < a.number) :
    b.before a = true := by
  rw [before_iff] at *
  omega

end Key

/-! ## Sound schedulers -/

structure Sound (s : Scheduler) : Prop where
  ordered : s.timers.Pairwise fun e e' => e.1.before e'.1 = true
  due : ∀ e ∈ s.timers, e.1.due = e.2.due
  fresh : ∀ e ∈ s.timers, e.1.number < s.nextNumber
  indexed : ∀ owner id key,
    s.key? owner id = some key ↔ ∃ t, (key, t) ∈ s.timers ∧ t.IsCalled owner id

variable {s s' : Scheduler} {e e' : Key × Timer} {owner : Session} {id : String}

theorem sound_empty : Sound {} where
  ordered := .nil
  due _ h := absurd h List.not_mem_nil
  fresh _ h := absurd h List.not_mem_nil
  indexed _ _ _ := ⟨nofun, fun ⟨_, h, _⟩ => absurd h List.not_mem_nil⟩

/-- No key occurs twice. -/
theorem Sound.eq_of_key (h : s.Sound) (he : e ∈ s.timers) (he' : e' ∈ s.timers)
    (hkey : e.1 = e'.1) : e = e' := by
  have hsymm : Std.Symm fun e e' : Key × Timer =>
      e = e' ∨ e.1.before e'.1 = true ∨ e'.1.before e.1 = true :=
    ⟨fun _ _ h => h.imp Eq.symm Or.symm⟩
  have hall := h.ordered.imp fun {e e'} hbefore =>
    show e = e' ∨ e.1.before e'.1 = true ∨ e'.1.before e.1 = true from .inr (.inl hbefore)
  rcases hall.forall_of_forall (fun _ _ => .inl rfl) he he' with heq | hbefore | hbefore
  · exact heq
  · exact absurd (hkey ▸ hbefore) (Key.before_irrefl _)
  · exact absurd (hkey ▸ hbefore) (Key.before_irrefl _)

/-- An owner has at most one timer of an id. -/
theorem Sound.unique (h : s.Sound) (he : e ∈ s.timers) (he' : e' ∈ s.timers)
    (hid : e.2.IsCalled owner id) (hid' : e'.2.IsCalled owner id) : e = e' := by
  have hkey := (h.indexed owner id e.1).mpr ⟨e.2, he, hid⟩
  have hkey' := (h.indexed owner id e'.1).mpr ⟨e'.2, he', hid'⟩
  exact h.eq_of_key he he' (Option.some.inj (hkey.symm.trans hkey'))

/-! ## Leaving timers out -/

/-- To leave out some timers and their ids. -/
theorem Sound.filter (h : s.Sound) {p : Key × Timer → Bool} {q : Session × String → Bool}
    (hpq : ∀ e ∈ s.timers, ∀ owner id, e.2.IsCalled owner id → p e = q (owner, id)) :
    Sound { s with timers := s.timers.filter p, ids := s.ids.filter fun e => q e.1 } where
  ordered := h.ordered.filter _
  due e he := h.due e (List.mem_filter.mp he).1
  fresh e he := h.fresh e (List.mem_filter.mp he).1
  indexed owner id key := by
    rw [key?, SortedMap.find?_filter]
    constructor
    · intro hkey
      split at hkey <;> rename_i hq
      · obtain ⟨t, ht, hid⟩ := (h.indexed owner id key).mp hkey
        exact ⟨t, List.mem_filter.mpr ⟨ht, (hpq _ ht owner id hid).trans hq⟩, hid⟩
      · cases hkey
    · rintro ⟨t, ht, hid⟩
      obtain ⟨ht, hp⟩ := List.mem_filter.mp ht
      rw [if_pos ((hpq _ ht owner id hid).symm.trans hp)]
      exact (h.indexed owner id key).mpr ⟨t, ht, hid⟩

/-- To cancel is to leave out the timer of the id. -/
theorem mem_cancel_iff (h : s.Sound) :
    e ∈ (s.cancel owner id).1.timers ↔ e ∈ s.timers ∧ ¬ e.2.IsCalled owner id := by
  rw [cancel]
  split <;> rename_i hkey
  · refine ⟨fun he => ⟨he, fun hid => ?_⟩, fun he => he.1⟩
    rw [(h.indexed owner id e.1).mpr ⟨e.2, he, hid⟩] at hkey
    cases hkey
  · rename_i key
    obtain ⟨t, ht, hid⟩ := (h.indexed owner id key).mp hkey
    simp only [List.mem_filter, decide_eq_true_eq]
    refine and_congr_right fun he => not_congr ⟨fun heq => ?_, fun hid' => ?_⟩
    · rw [h.eq_of_key he ht heq]
      exact hid
    · rw [h.unique he ht hid' hid]

theorem Sound.cancel (h : s.Sound) (owner : Session) (id : String) :
    (s.cancel owner id).1.Sound := by
  unfold Scheduler.cancel
  split
  · exact h
  · rename_i key hkey
    refine h.filter (q := fun k => k ≠ (owner, id)) fun e he owner' id' hid => ?_
    obtain ⟨t, ht, hcalled⟩ := (h.indexed owner id key).mp hkey
    simp only [decide_eq_decide]
    refine not_congr ⟨fun heq => ?_, fun heq => ?_⟩
    · rw [h.eq_of_key he ht heq] at hid
      rw [← hid.1, hcalled.1, Option.some.inj (hid.2.symm.trans hcalled.2)]
    · cases heq
      rw [h.unique he ht hid hcalled]

theorem mem_cancelOwner_iff :
    e ∈ (s.cancelOwner owner).1.timers ↔ e ∈ s.timers ∧ e.2.owner ≠ owner := by
  simp only [cancelOwner, List.mem_filter, decide_eq_true_eq]

theorem Sound.cancelOwner (h : s.Sound) (owner : Session) : (s.cancelOwner owner).1.Sound :=
  h.filter (q := fun k => k.1 ≠ owner) fun e _ owner' id' hid => by rw [hid.1]

/-! ## Adding a timer -/

theorem mem_place_iff {key : Key} {timer : Timer} {timers : List (Key × Timer)} :
    e ∈ place key timer timers ↔ e = (key, timer) ∨ e ∈ timers := by
  induction timers with
  | nil => simp [place]
  | cons entry rest ih =>
      rw [place]
      split
      · exact List.mem_cons
      · rw [List.mem_cons, ih, List.mem_cons, or_left_comm]

/-- A timer with a new number finds its place. -/
theorem ordered_place {key : Key} (timer : Timer) {timers : List (Key × Timer)}
    (h : timers.Pairwise fun e e' => e.1.before e'.1 = true)
    (hfresh : ∀ e ∈ timers, e.1.number < key.number) :
    (place key timer timers).Pairwise fun e e' => e.1.before e'.1 = true := by
  -- a tie in the due time is decided by the number, and the new number is the last one
  induction timers with
  | nil => exact .cons (fun _ hnone => absurd hnone List.not_mem_nil) .nil
  | cons entry rest ih =>
      obtain ⟨hfirst, hrest⟩ := List.pairwise_cons.mp h
      rw [place]
      split <;> rename_i hbefore
      · refine .cons (fun e he => ?_) h
        rcases List.mem_cons.mp he with rfl | he
        · exact hbefore
        · exact Key.before_trans hbefore (hfirst e he)
      · refine .cons (fun e he => ?_) (ih hrest fun e he => hfresh e (List.mem_cons_of_mem _ he))
        rcases mem_place_iff.mp he with rfl | he
        · exact Key.before_of_not hbefore (hfresh entry List.mem_cons_self)
        · exact hfirst e he

/-- A timer is scheduled under a new key, in place of the one that goes by the same id. -/
theorem mem_schedule_iff (h : s.Sound) {timer : Timer} :
    e ∈ (s.schedule timer).timers ↔
      e = ({ due := timer.due, number := s.nextNumber }, timer) ∨
        e ∈ s.timers ∧ ∀ id, timer.id = some id → ¬ e.2.IsCalled timer.owner id := by
  rw [schedule]
  cases hid : timer.id with
  | none => simp [mem_place_iff]
  | some id =>
      have hnumber : (s.cancel timer.owner id).1.nextNumber = s.nextNumber := by
        unfold cancel
        split <;> rfl
      simp [mem_place_iff, mem_cancel_iff h, hnumber]

/-- The scheduler with one more timer, whose id is taken to be new. -/
def placed (s : Scheduler) (timer : Timer) : Scheduler where
  timers := place { due := timer.due, number := s.nextNumber } timer s.timers
  ids := timer.id.elim s.ids fun id =>
    ((timer.owner, id), { due := timer.due, number := s.nextNumber }) :: s.ids
  nextNumber := s.nextNumber + 1

theorem key?_placed_self {timer : Timer} (hid : timer.IsCalled owner id) :
    (s.placed timer).key? owner id = some { due := timer.due, number := s.nextNumber } := by
  rw [key?, placed, hid.2]
  simp only [Option.elim_some]
  rw [SortedMap.find?_cons, if_pos (by rw [hid.1])]

theorem key?_placed_of_not {timer : Timer} (hid : ¬ timer.IsCalled owner id) :
    (s.placed timer).key? owner id = s.key? owner id := by
  rw [key?, placed]
  cases hown : timer.id with
  | none => rfl
  | some own =>
      refine (SortedMap.find?_cons _ _ _ _).trans (if_neg fun heq => hid ?_)
      cases heq
      exact ⟨rfl, hown⟩

theorem Sound.placed (h : s.Sound) {timer : Timer}
    (hnew : ∀ id, timer.id = some id → ∀ e ∈ s.timers, ¬ e.2.IsCalled timer.owner id) :
    (s.placed timer).Sound where
  ordered := ordered_place timer h.ordered h.fresh
  due e he := by
    rcases mem_place_iff.mp he with rfl | he
    · rfl
    · exact h.due e he
  fresh e he := by
    rcases mem_place_iff.mp he with rfl | he
    · exact Nat.lt_succ_self _
    · exact Nat.lt_succ_of_lt (h.fresh e he)
  indexed owner id key := by
    by_cases hid : timer.IsCalled owner id
    · -- of this id there is the new timer only
      rw [key?_placed_self hid, Option.some.injEq]
      refine ⟨fun heq => ⟨timer, mem_place_iff.mpr (.inl (by rw [heq])), hid⟩, ?_⟩
      rintro ⟨t, ht, hcalled⟩
      rcases mem_place_iff.mp ht with heq | ht
      · exact (congrArg Prod.fst heq).symm
      · exact absurd (hid.1 ▸ hcalled) (hnew id hid.2 _ ht)
    · rw [key?_placed_of_not hid, h.indexed]
      refine exists_congr fun t => and_congr_left fun hcalled => ?_
      refine ⟨fun ht => mem_place_iff.mpr (.inr ht), fun ht => ?_⟩
      refine (mem_place_iff.mp ht).resolve_left fun heq => hid ?_
      cases heq
      exact hcalled

/-- What is scheduled is put into a scheduler without the id of the timer. -/
theorem schedule_eq_placed (s : Scheduler) (timer : Timer) :
    s.schedule timer =
      (timer.id.elim s fun id => (s.cancel timer.owner id).1).placed timer := by
  rw [schedule, placed]
  cases timer.id <;> rfl

theorem Sound.schedule (h : s.Sound) (timer : Timer) : (s.schedule timer).Sound := by
  rw [schedule_eq_placed]
  cases hid : timer.id with
  | none => exact h.placed (by simp [hid])
  | some id =>
      refine (h.cancel timer.owner id).placed fun id' hid' e he => ?_
      rw [hid] at hid'
      cases hid'
      exact ((mem_cancel_iff h).mp he).2

/-! ## Taking a timer -/

/-- The timer that is taken is the first one, and it is due. -/
theorem popDue?_eq_some (h : s.Sound) {now : Nat} {timer : Timer}
    (hpop : s.popDue? now = some (timer, s')) :
    timer.due ≤ now ∧ s'.Sound ∧ ∃ key, s.timers = (key, timer) :: s'.timers := by
  unfold popDue? at hpop
  split at hpop
  · cases hpop
  · rename_i key first rest htimers
    split at hpop <;> rename_i hdue
    · cases hpop
    · have hdue' := h.due (key, first) (htimers ▸ List.mem_cons_self)
      obtain ⟨rfl, rfl⟩ := Prod.mk.inj (Option.some.inj hpop)
      refine ⟨hdue' ▸ Nat.le_of_not_lt hdue, ?_, key, htimers⟩
      have hother : ∀ e ∈ rest, e.1 ≠ key := by
        rintro e he rfl
        exact Key.before_irrefl _ ((List.pairwise_cons.mp (htimers ▸ h.ordered)).1 e he)
      -- keys are unique, so to drop the first timer is to drop its key
      have hrest : rest = s.timers.filter fun e => e.1 ≠ key := by
        rw [htimers, List.filter_cons, if_neg (by simp)]
        exact (List.filter_eq_self.mpr fun e he => by simpa using hother e he).symm
      cases hid : first.id with
      | none =>
          have hkept := h.filter (p := fun e => e.1 ≠ key) (q := fun _ => true)
            fun e he owner id hcalled => by
              have hne : e.1 ≠ key := fun heq => by
                rw [h.eq_of_key he (htimers ▸ List.mem_cons_self) heq] at hcalled
                exact absurd (hid.symm.trans hcalled.2) (by simp)
              simpa using hne
          rw [← hrest, List.filter_eq_self.mpr fun _ _ => rfl] at hkept
          exact hkept
      | some id =>
          have hkey : s.key? first.owner id = some key := (h.indexed _ _ _).mpr
            ⟨first, htimers ▸ List.mem_cons_self, rfl, hid⟩
          have hkept := h.cancel first.owner id
          rw [Scheduler.cancel, hkey] at hkept
          simp only [← hrest] at hkept
          exact hkept

/-- When no timer is taken, all fall due later. -/
theorem popDue?_eq_none (h : s.Sound) {now : Nat} (hpop : s.popDue? now = none) :
    ∀ e ∈ s.timers, now < e.2.due := by
  unfold popDue? at hpop
  split at hpop <;> rename_i htimers
  · rw [htimers]
    exact fun _ hnone => absurd hnone List.not_mem_nil
  · rename_i key first rest
    split at hpop <;> rename_i hdue
    · intro e he
      rw [← h.due e he]
      rw [htimers] at he
      rcases List.mem_cons.mp he with rfl | hrest
      · exact hdue
      · have hbefore := (List.pairwise_cons.mp (htimers ▸ h.ordered)).1 e hrest
        exact Nat.lt_of_lt_of_le hdue (Key.due_le hbefore)
    · cases hpop

/-- What is due at one time is due later as well. -/
theorem popDue?_mono {now later : Nat} (hle : now ≤ later) {x : Timer × Scheduler}
    (hpop : s.popDue? now = some x) : s.popDue? later = some x := by
  unfold popDue? at hpop ⊢
  split at hpop
  · cases hpop
  · split at hpop <;> rename_i hdue
    · cases hpop
    · rw [if_neg (Nat.not_lt.mpr (Nat.le_trans (Nat.le_of_not_lt hdue) hle))]
      exact hpop

end Scheduler

end Statechart
