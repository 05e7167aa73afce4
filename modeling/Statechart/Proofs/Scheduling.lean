import Mathlib.Data.List.MinMax
import Statechart.Proofs.Timers

/-!
# Schedulers as lists

Seen from outside, a scheduler is the list of its pending timers in the order in which they were
scheduled (`Lists`). It gives every request the answer that the list gives (`lists_serve`), and so
it does for any requests in a row (`scheduler_keeps_list`). The index has an entry for each pending
timer with an id and no other, so nothing stale can ever be found in it.
-/

namespace Statechart

/-! ## Requests and answers -/

namespace Scheduler

/-- What is asked of a scheduler. -/
inductive Request where
  | schedule (timer : Timer)
  | cancel (owner : Session) (id : String)
  | cancelOwner (owner : Session)
  | popDue (now : Nat)

/-- What is told about a request. -/
inductive Answer where
  | scheduled
  | cancelled (found : Bool)
  | dropped (count : Nat)
  | popped (timer : Option Timer)
deriving DecidableEq

/-- What is left after some requests in a row, and the answers to them. -/
def Request.answers {σ : Type} (serve : σ → Request → σ × Answer) :
    σ → List Request → σ × List Answer
  | s, [] => (s, [])
  | s, r :: rest =>
      let (s, answer) := serve s r
      let (s, others) := answers serve s rest
      (s, answer :: others)

theorem Request.answers_cons {σ : Type} (serve : σ → Request → σ × Answer) (s : σ) (r : Request)
    (rest : List Request) : answers serve s (r :: rest) =
      ((answers serve (serve s r).1 rest).1,
        (serve s r).2 :: (answers serve (serve s r).1 rest).2) := rfl

def serve (s : Scheduler) : Request → Scheduler × Answer
  | .schedule timer => (s.schedule timer, .scheduled)
  | .cancel owner id =>
      let (s, found) := s.cancel owner id
      (s, .cancelled found)
  | .cancelOwner owner =>
      let (s, count) := s.cancelOwner owner
      (s, .dropped count)
  | .popDue now =>
      match s.popDue? now with
      | some (timer, s) => (s, .popped (some timer))
      | none => (s, .popped none)

end Scheduler

/-! ## Pending timers -/

/-- The pending timers in the order in which they were scheduled. -/
abbrev Pending := List Timer

namespace Pending

/-- The list without the timer that an owner knows by an id. -/
def without (l : Pending) (owner : Session) (id : String) : Pending :=
  l.filter fun t => ¬ t.IsCalled owner id

/-- A timer goes to the end, after the one that it replaces has been taken out. -/
def schedule (l : Pending) (timer : Timer) : Pending :=
  match timer.id with
  | some id => l.without timer.owner id ++ [timer]
  | none => l ++ [timer]

/-- The timer that falls due first; of several, the one that was scheduled first. -/
def first? (l : Pending) : Option Timer := l.argmin Timer.due

def serve (l : Pending) : Scheduler.Request → Pending × Scheduler.Answer
  | .schedule timer => (l.schedule timer, .scheduled)
  | .cancel owner id => (l.without owner id, .cancelled (l.any fun t => t.IsCalled owner id))
  | .cancelOwner owner =>
      (l.filter fun t => t.owner ≠ owner, .dropped (l.countP fun t => t.owner = owner))
  | .popDue now =>
      match l.first? with
      | some timer =>
          if timer.due ≤ now then (l.erase timer, .popped (some timer)) else (l, .popped none)
      | none => (l, .popped none)

theorem mem_of_first? {l : Pending} {timer : Timer} (h : l.first? = some timer) : timer ∈ l :=
  List.argmin_mem h

/-- A timer is the first one if all before it fall due later and none after it earlier. -/
theorem first?_append {as bs : List Timer} {timer : Timer} (has : ∀ t ∈ as, timer.due < t.due)
    (hbs : ∀ t ∈ bs, timer.due ≤ t.due) : first? (as ++ timer :: bs) = some timer := by
  have hnot : timer ∉ as := by
    intro hmem
    exact Nat.lt_irrefl _ (has timer hmem)
  apply List.argmin_eq_some_iff.mpr
  refine ⟨by simp, ?_, ?_⟩
  · intro t ht
    rcases List.mem_append.mp ht with ht | ht
    · exact Nat.le_of_lt (has t ht)
    · rcases List.mem_cons.mp ht with rfl | ht
      · exact Nat.le_refl _
      · exact hbs t ht
  · intro t ht hle
    have hnot' : t ∉ as := by
      intro hmem
      have := has t hmem
      omega
    rw [List.idxOf_append_of_notMem hnot, List.idxOf_append_of_notMem hnot', List.idxOf_cons_self]
    omega

theorem erase_append {as bs : List Timer} {timer : Timer} (has : ∀ t ∈ as, timer.due < t.due) :
    (as ++ timer :: bs).erase timer = as ++ bs := by
  have hnot : timer ∉ as := by
    intro hmem
    exact Nat.lt_irrefl _ (has timer hmem)
  rw [List.erase_append_right _ hnot, List.erase_cons_head]

end Pending

/-! ## Schedulers and their lists -/

namespace Scheduler

/-- A list has the timers of a scheduler in the order of their numbers, and the index of the
scheduler has no key twice. -/
structure Lists (s : Scheduler) (l : Pending) : Prop where
  sound : s.Sound
  keys : (s.ids.map Prod.fst).Nodup
  entries : ∃ es : List (Key × Timer), (∀ e, e ∈ es ↔ e ∈ s.timers) ∧
    es.Pairwise (fun e e' => e.1.number < e'.1.number) ∧ es.map Prod.snd = l

variable {s s' : Scheduler} {l : Pending} {owner : Session} {id : String}

theorem lists_empty : Lists {} [] where
  sound := sound_empty
  keys := .nil
  entries := ⟨[], by simp, .nil, rfl⟩

namespace Lists

/-! ### What is seen of a scheduler -/

theorem perm (h : s.Lists l) : (s.timers.map Prod.snd).Perm l := by
  obtain ⟨es, hmem, hnumbers, rfl⟩ := h.entries
  have htimers : s.timers.Nodup := h.sound.ordered.imp fun {e e'} hbefore heq => by
    rw [heq] at hbefore
    exact Key.before_irrefl _ hbefore
  have hes : es.Nodup := hnumbers.imp fun {e e'} hlt heq => by
    rw [heq] at hlt
    exact Nat.lt_irrefl _ hlt
  apply List.Perm.map
  apply (List.perm_ext_iff_of_nodup htimers hes).mpr
  intro e
  exact (hmem e).symm

theorem mem_iff (h : s.Lists l) {t : Timer} : t ∈ l ↔ ∃ key, (key, t) ∈ s.timers := by
  rw [← h.perm.mem_iff, List.mem_map]
  constructor
  · rintro ⟨⟨key, t'⟩, he, rfl⟩
    exact ⟨key, he⟩
  · rintro ⟨key, he⟩
    exact ⟨(key, t), he, rfl⟩

/-- No two pending timers go by one owner and one id. -/
theorem pairwise_called (h : s.Lists l) :
    l.Pairwise fun t t' => ∀ owner id, t.IsCalled owner id → ¬ t'.IsCalled owner id := by
  obtain ⟨es, hmem, hnumbers, rfl⟩ := h.entries
  apply List.pairwise_map.mpr
  apply hnumbers.imp_of_mem
  intro e e' he he' hlt owner id hid hid'
  have heq := h.sound.unique ((hmem e).mp he) ((hmem e').mp he') hid hid'
  rw [heq] at hlt
  exact Nat.lt_irrefl _ hlt

/-- The index finds a timer exactly if one of that owner and id is pending. -/
theorem isSome_key?_iff (h : s.Lists l) :
    (s.key? owner id).isSome = true ↔ ∃ t ∈ l, t.IsCalled owner id := by
  rw [Option.isSome_iff_exists]
  constructor
  · rintro ⟨key, hkey⟩
    obtain ⟨t, ht, hid⟩ := (h.sound.indexed owner id key).mp hkey
    exact ⟨t, h.mem_iff.mpr ⟨key, ht⟩, hid⟩
  · rintro ⟨t, ht, hid⟩
    obtain ⟨key, he⟩ := h.mem_iff.mp ht
    exact ⟨key, (h.sound.indexed owner id key).mpr ⟨t, he, hid⟩⟩

/-- What has the same elements has them still when an element is taken out that both have once. -/
theorem mem_around {α : Type} {x : α} {as bs rest : List α}
    (h : ∀ e, e ∈ as ++ x :: bs ↔ e ∈ x :: rest) (hx : x ∉ as ++ bs) (hx' : x ∉ rest) (e : α) :
    e ∈ as ++ bs ↔ e ∈ rest := by
  have hiff := h e
  simp only [List.mem_append, List.mem_cons] at hiff hx ⊢
  by_cases he : e = x
  · rw [he]
    exact iff_of_false hx hx'
  · simpa only [he, false_or] using hiff

/-- The entry that stands first splits the list at the timer that falls due first. -/
theorem split (h : s.Lists l) {key : Key} {timer : Timer} {rest : List (Key × Timer)}
    (htimers : s.timers = (key, timer) :: rest) :
    ∃ as bs : List (Key × Timer), l = as.map Prod.snd ++ timer :: bs.map Prod.snd ∧
      (∀ t ∈ as.map Prod.snd, timer.due < t.due) ∧ (∀ t ∈ bs.map Prod.snd, timer.due ≤ t.due) ∧
      (as ++ bs).Pairwise (fun e e' => e.1.number < e'.1.number) ∧
      ∀ e, e ∈ as ++ bs ↔ e ∈ rest := by
  obtain ⟨es, hmem, hnumbers, rfl⟩ := h.entries
  have hself : (key, timer) ∈ s.timers := htimers ▸ List.mem_cons_self
  have hdue : key.due = timer.due := h.sound.due _ hself
  have hfirst : ∀ e ∈ rest, key.before e.1 = true :=
    (List.pairwise_cons.mp (htimers ▸ h.sound.ordered)).1
  obtain ⟨as, bs, rfl⟩ := List.append_of_mem ((hmem _).mpr hself)
  obtain ⟨has, hbs, hacross⟩ := List.pairwise_append.mp hnumbers
  obtain ⟨hafter, hbs⟩ := List.pairwise_cons.mp hbs
  have hearlier : ∀ e ∈ as, e.1.number < key.number := fun e he =>
    hacross e he _ List.mem_cons_self
  -- apart from the first one the entries are those behind it in the scheduler
  have hrest : ∀ e, e ∈ as ++ bs ↔ e ∈ rest := by
    apply mem_around (fun e => (hmem e).trans (by rw [htimers]))
    · intro hin
      rcases List.mem_append.mp hin with hin | hin
      · exact Nat.lt_irrefl _ (hearlier _ hin)
      · exact Nat.lt_irrefl _ (hafter _ hin)
    · intro hin
      exact Key.before_irrefl _ (hfirst _ hin)
  have hlater : ∀ e ∈ as ++ bs, key.before e.1 = true ∧ e.1.due = e.2.due := by
    intro e he
    have hin := (hrest e).mp he
    exact ⟨hfirst e hin, h.sound.due e (htimers ▸ List.mem_cons_of_mem _ hin)⟩
  refine ⟨as, bs, by simp, ?_, ?_, ?_, hrest⟩
  · rw [List.forall_mem_map]
    intro e he
    obtain ⟨hbefore, hedue⟩ := hlater e (List.mem_append_left _ he)
    have hnumber := hearlier e he
    rw [Key.before_iff] at hbefore
    omega
  · rw [List.forall_mem_map]
    intro e he
    obtain ⟨hbefore, hedue⟩ := hlater e (List.mem_append_right _ he)
    have := Key.due_le hbefore
    omega
  · apply List.pairwise_append.mpr
    exact ⟨has, hbs, fun e he e' he' => hacross e he e' (List.mem_cons_of_mem _ he')⟩

theorem nextDue?_eq (h : s.Lists l) : s.nextDue? = l.first?.map Timer.due := by
  unfold nextDue?
  cases htimers : s.timers with
  | nil =>
      have hnil : l = [] := by
        have hperm := h.perm
        rw [htimers] at hperm
        exact hperm.symm.eq_nil
      rw [hnil]
      rfl
  | cons e rest =>
      obtain ⟨as, bs, rfl, has, hbs, -, -⟩ := h.split htimers
      rw [Pending.first?_append has hbs]
      show some e.1.due = some e.2.due
      rw [h.sound.due e (htimers ▸ List.mem_cons_self)]

/-! ### What the requests do -/

/-- To leave some timers out of a scheduler is to leave them out of its list. -/
theorem filter (h : s.Lists l) (hsound : s'.Sound) (hids : s'.ids.Sublist s.ids)
    {p : Timer → Bool} (hmem : ∀ e, e ∈ s'.timers ↔ e ∈ s.timers ∧ p e.2 = true) :
    s'.Lists (l.filter p) where
  sound := hsound
  keys := h.keys.sublist (hids.map Prod.fst)
  entries := by
    obtain ⟨es, hes, hnumbers, rfl⟩ := h.entries
    refine ⟨es.filter fun e => p e.2, fun e => ?_, hnumbers.filter _, ?_⟩
    · rw [List.mem_filter, hes, hmem]
    · rw [List.filter_map]
      rfl

/-- A timer with a new number goes to the end. -/
theorem append (h : s.Lists l) (hsound : s'.Sound) (hids : (s'.ids.map Prod.fst).Nodup)
    (key : Key) {timer : Timer} (hlast : ∀ e ∈ s.timers, e.1.number < key.number)
    (hmem : ∀ e, e ∈ s'.timers ↔ e = (key, timer) ∨ e ∈ s.timers) :
    s'.Lists (l ++ [timer]) where
  sound := hsound
  keys := hids
  entries := by
    obtain ⟨es, hes, hnumbers, rfl⟩ := h.entries
    refine ⟨es ++ [(key, timer)], fun e => ?_, ?_, by simp⟩
    · rw [hmem, List.mem_append, List.mem_singleton, hes, or_comm]
    · apply List.pairwise_append.mpr
      refine ⟨hnumbers, List.pairwise_singleton _ _, ?_⟩
      intro e he e' he'
      rw [List.mem_singleton.mp he']
      exact hlast e ((hes e).mp he)

end Lists

theorem ids_cancel : (s.cancel owner id).1.ids.Sublist s.ids := by
  unfold cancel
  split
  · exact .refl _
  · exact List.filter_sublist

/-- To cancel tells whether the index has found a timer. -/
theorem found_cancel (h : s.Sound) : (s.cancel owner id).2 = (s.key? owner id).isSome := by
  unfold cancel
  split <;> rename_i hkey
  · rw [hkey]
    rfl
  · obtain ⟨t, ht, -⟩ := (h.indexed owner id _).mp hkey
    rw [hkey]
    exact List.any_eq_true.mpr ⟨_, ht, by simp⟩

/-- After a cancel, the index has nothing left under the id. -/
theorem not_mem_ids_cancel (h : s.Sound) :
    (owner, id) ∉ (s.cancel owner id).1.ids.map Prod.fst := by
  intro hmem
  have hnone : (s.cancel owner id).1.key? owner id = none := by
    apply Option.eq_none_iff_forall_ne_some.mpr
    intro key hkey
    obtain ⟨t, ht, hid⟩ := ((h.cancel owner id).indexed owner id key).mp hkey
    exact ((mem_cancel_iff h).mp ht).2 hid
  exact SortedMap.find?_eq_none.mp hnone hmem

theorem ids_popDue {now : Nat} {timer : Timer} (hpop : s.popDue? now = some (timer, s')) :
    s'.ids.Sublist s.ids := by
  unfold popDue? at hpop
  split at hpop
  · cases hpop
  · split at hpop
    · cases hpop
    · obtain ⟨rfl, rfl⟩ := Prod.mk.inj (Option.some.inj hpop)
      dsimp only
      split
      · exact List.filter_sublist
      · exact .refl _

namespace Lists

theorem cancel (h : s.Lists l) (owner : Session) (id : String) :
    (s.cancel owner id).1.Lists (l.without owner id) := by
  apply h.filter (h.sound.cancel owner id) ids_cancel
  intro e
  rw [mem_cancel_iff h.sound, decide_eq_true_eq]

theorem schedule (h : s.Lists l) (timer : Timer) :
    (s.schedule timer).Lists (l.schedule timer) := by
  have hsound := h.sound.schedule timer
  have hmem : ∀ e, e ∈ (s.schedule timer).timers ↔ _ := fun e => mem_schedule_iff h.sound
  unfold Pending.schedule
  cases hid : timer.id with
  | none =>
      have hids : ((s.schedule timer).ids.map Prod.fst).Nodup := by
        simpa [Scheduler.schedule, hid] using h.keys
      apply h.append hsound hids { due := timer.due, number := s.nextNumber } h.sound.fresh
      intro e
      simpa [hid] using hmem e
  | some id =>
      have hcancel := h.cancel timer.owner id
      have hids : ((s.schedule timer).ids.map Prod.fst).Nodup := by
        simp only [Scheduler.schedule, hid, List.map_cons]
        exact List.nodup_cons.mpr ⟨not_mem_ids_cancel h.sound, hcancel.keys⟩
      have hlast : ∀ e ∈ (s.cancel timer.owner id).1.timers, e.1.number < s.nextNumber := by
        intro e he
        exact h.sound.fresh e ((mem_cancel_iff h.sound).mp he).1
      apply hcancel.append hsound hids { due := timer.due, number := s.nextNumber } hlast
      intro e
      rw [mem_cancel_iff h.sound]
      simpa [hid] using hmem e

theorem cancelOwner (h : s.Lists l) (owner : Session) :
    (s.cancelOwner owner).1.Lists (l.filter fun t => t.owner ≠ owner) := by
  apply h.filter (h.sound.cancelOwner owner) List.filter_sublist
  intro e
  rw [mem_cancelOwner_iff, decide_eq_true_eq]

theorem popDue (h : s.Lists l) {now : Nat} {timer : Timer}
    (hpop : s.popDue? now = some (timer, s')) :
    timer.due ≤ now ∧ l.first? = some timer ∧ s'.Lists (l.erase timer) := by
  obtain ⟨hdue, hsound, key, htimers⟩ := popDue?_eq_some h.sound hpop
  obtain ⟨as, bs, rfl, has, hbs, hnumbers, hmem⟩ := h.split htimers
  refine ⟨hdue, Pending.first?_append has hbs, hsound, ?_, ?_⟩
  · have hids : s'.ids.Sublist s.ids := ids_popDue hpop
    exact h.keys.sublist (hids.map Prod.fst)
  · rw [Pending.erase_append has]
    exact ⟨as ++ bs, hmem, hnumbers, List.map_append⟩

end Lists

/-- A scheduler answers a request as its list does. -/
theorem lists_serve (h : s.Lists l) (r : Request) :
    (s.serve r).1.Lists (l.serve r).1 ∧ (s.serve r).2 = (l.serve r).2 := by
  cases r with
  | schedule timer => exact ⟨h.schedule timer, rfl⟩
  | cancel owner id =>
      refine ⟨h.cancel owner id, ?_⟩
      show Answer.cancelled (s.cancel owner id).2 = _
      rw [found_cancel h.sound]
      have hany : (s.key? owner id).isSome = l.any fun t => t.IsCalled owner id := by
        rw [Bool.eq_iff_iff, h.isSome_key?_iff]
        simp
      rw [hany]
      rfl
  | cancelOwner owner =>
      refine ⟨h.cancelOwner owner, ?_⟩
      show Answer.dropped (s.timers.filter fun e => e.2.owner = owner).length = Answer.dropped _
      rw [← h.perm.countP_eq, List.countP_map, List.countP_eq_length_filter]
      rfl
  | popDue now =>
      simp only [serve, Pending.serve]
      cases hpop : s.popDue? now with
      | some next =>
          obtain ⟨timer, s'⟩ := next
          obtain ⟨hdue, hfirst, hlists⟩ := h.popDue hpop
          rw [hfirst]
          simp only [if_pos hdue]
          exact ⟨hlists, trivial⟩
      | none =>
          -- nothing is due in the scheduler, so the first of the list is not due either
          have hlate := popDue?_eq_none h.sound hpop
          cases hfirst : l.first? with
          | none => exact ⟨h, rfl⟩
          | some timer =>
              obtain ⟨key, hmem⟩ := h.mem_iff.mp (Pending.mem_of_first? hfirst)
              have hdue : ¬ timer.due ≤ now := Nat.not_le.mpr (hlate _ hmem)
              simp only [if_neg hdue]
              exact ⟨h, trivial⟩

/-- So it does for any requests in a row. -/
theorem lists_answers (h : s.Lists l) (requests : List Request) :
    (Request.answers serve s requests).1.Lists (Request.answers Pending.serve l requests).1 ∧
      (Request.answers serve s requests).2 = (Request.answers Pending.serve l requests).2 := by
  induction requests generalizing s l with
  | nil => exact ⟨h, rfl⟩
  | cons r rest ih =>
      obtain ⟨hlists, hanswer⟩ := lists_serve h r
      obtain ⟨hrest, hanswers⟩ := ih hlists
      simp only [Request.answers_cons]
      exact ⟨hrest, by rw [hanswer, hanswers]⟩

/-- **Schedulers keep a list.** Whatever is asked of a scheduler that is empty at first, it answers
as the plain list of pending timers does. In the end the same timers are pending in both, their
number and the next due time are the same, the index leads to exactly the pending timers with an id,
and no two of them go by one owner and one id. -/
theorem scheduler_keeps_list (requests : List Request) :
    ∃ (s : Scheduler) (l : Pending) (answers : List Answer),
      Request.answers serve {} requests = (s, answers) ∧
      Request.answers Pending.serve [] requests = (l, answers) ∧
      (s.timers.map Prod.snd).Perm l ∧ s.size = l.length ∧
      s.nextDue? = l.first?.map Timer.due ∧
      (∀ owner id key,
        s.key? owner id = some key ↔ ∃ t, (key, t) ∈ s.timers ∧ t.IsCalled owner id) ∧
      (∀ e ∈ s.ids, s.key? e.1.1 e.1.2 = some e.2) ∧
      l.Pairwise fun t t' => ∀ owner id, t.IsCalled owner id → ¬ t'.IsCalled owner id := by
  obtain ⟨hlists, hanswers⟩ := lists_answers lists_empty requests
  refine ⟨_, _, _, rfl, Prod.ext rfl hanswers.symm, hlists.perm, ?_, hlists.nextDue?_eq,
    hlists.sound.indexed, ?_, hlists.pairwise_called⟩
  · rw [size, ← hlists.perm.length_eq, List.length_map]
  · intro e he
    exact (SortedMap.find?_eq_some_iff hlists.keys).mpr he

end Scheduler

end Statechart
