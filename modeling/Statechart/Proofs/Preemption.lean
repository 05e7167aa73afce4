import Statechart.Logic
import Statechart.Proofs.Build
import Statechart.Proofs.Selection
import Statechart.Proofs.Targets

/-!
# What is kept of the picks

`IsPick` says what a leaf picks: the first transition on the way to the root whose guard passes. Of
the picks of all leaves a choice is kept. `Choice` says which: no two of them leave a common state,
and whatever is not kept gives way to one that is, which has its source further down or else was
picked earlier. This holds for every configuration, also where the transition that another one
first gave way to was displaced itself later on (`justified_join`). The main result is
`selection_justified`.
-/

namespace Statechart.Definition

variable {L : Type} (d : Definition L) (s : Situation) (event : Event)
  (candidates : Nat → List Nat)

/-- The first transition whose guard passes, going from a leaf to the root and through the
candidates of each state in order. -/
def IsPick (leaf t : Nat) : Prop :=
  ∃ before after,
    (leaf :: d.properAncestors leaf none).flatMap candidates = before ++ t :: after ∧
      (∀ u ∈ before, d.passes s event (d.transition u).guard = .ok false) ∧
        d.passes s event (d.transition t).guard = .ok true

/-- Some state is left by both of two transitions. -/
def Overlap (t r : Nat) : Prop :=
  ∃ i, i ∈ d.exitSet s.config s.history (d.transition t) ∧
    i ∈ d.exitSet s.config s.history (d.transition r)

/-- Some leaf that picks `r` stands before every leaf that picks `t`. -/
def Earlier (r t : Nat) : Prop :=
  ∃ first ∈ d.leaves s.config, d.IsPick s event candidates first r ∧
    ∀ leaf ∈ d.leaves s.config, d.IsPick s event candidates leaf t → first < leaf

/-- What a pick may give way to: a transition with a state to leave in common, whose source lies
below its own, or else one that was picked earlier and has not its own source below its source. -/
structure GivesWay (t r : Nat) : Prop where
  overlap : d.Overlap s t r
  reason : d.Below (d.transition r).source (d.transition t).source ∨
    d.Earlier s event candidates r t ∧
      ¬ d.Below (d.transition t).source (d.transition r).source

/-- What is kept of the picks of all active leaves. -/
structure Choice (ts : List Nat) : Prop where
  nodup : ts.Nodup
  picked : ∀ t ∈ ts, ∃ leaf ∈ d.leaves s.config, d.IsPick s event candidates leaf t
  disjoint : ∀ t ∈ ts, ∀ r ∈ ts, t ≠ r → ¬ d.Overlap s t r
  justified : ∀ leaf ∈ d.leaves s.config, ∀ t, d.IsPick s event candidates leaf t → t ∉ ts →
    ∃ r ∈ ts, d.GivesWay s event candidates t r

variable {d s event candidates}

/-! ## Picks -/

theorem firstEnabled_append {ts ts' : List Nat} : d.firstEnabled s event (ts ++ ts') =
    match d.firstEnabled s event ts with
    | .ok (some t) => .ok (some t)
    | .ok none => d.firstEnabled s event ts'
    | .error e => .error e := by
  induction ts with
  | nil => rfl
  | cons t rest ih =>
      rw [List.cons_append, firstEnabled, firstEnabled]
      cases d.passes s event (d.transition t).guard with
      | error e => rfl
      | ok passed =>
          cases passed with
          | true => rfl
          | false => exact ih

/-- A path offers the candidates of its states one after the other. -/
theorem pickAlong_eq {path : List Nat} : d.pickAlong s event candidates path =
    d.firstEnabled s event (path.flatMap candidates) := by
  induction path with
  | nil => rfl
  | cons node rest ih =>
      rw [List.flatMap_cons, firstEnabled_append, ← ih]
      rfl

theorem firstEnabled_eq_some {ts : List Nat} {t : Nat} :
    d.firstEnabled s event ts = .ok (some t) ↔ ∃ before after, ts = before ++ t :: after ∧
      (∀ u ∈ before, d.passes s event (d.transition u).guard = .ok false) ∧
        d.passes s event (d.transition t).guard = .ok true := by
  constructor
  · intro h
    induction ts with
    | nil => cases h
    | cons u rest ih =>
        rw [firstEnabled] at h
        split at h
        · rename_i hpasses
          cases h
          exact ⟨[], rest, rfl, by simp, hpasses⟩
        · rename_i hfails
          obtain ⟨before, after, rfl, hbefore, hpasses⟩ := ih h
          refine ⟨u :: before, after, rfl, fun v hv => ?_, hpasses⟩
          rcases List.mem_cons.mp hv with rfl | hv
          · exact hfails
          · exact hbefore v hv
        · cases h
  · rintro ⟨before, after, rfl, hbefore, hpasses⟩
    induction before with
    | nil => rw [List.nil_append, firstEnabled, hpasses]
    | cons u rest ih =>
        rw [List.cons_append, firstEnabled, hbefore u List.mem_cons_self]
        exact ih fun v hv => hbefore v (List.mem_cons_of_mem _ hv)

theorem isPick_iff {leaf t : Nat} : d.IsPick s event candidates leaf t ↔
    d.pick s event candidates leaf = .ok (some t) := by
  rw [pick, pickAlong_eq, firstEnabled_eq_some]
  rfl

/-- A leaf picks one transition. -/
theorem IsPick.unique {leaf t t' : Nat} (h : d.IsPick s event candidates leaf t)
    (h' : d.IsPick s event candidates leaf t') : t = t' := by
  rw [isPick_iff] at h h'
  rw [h] at h'
  cases h'
  rfl

/-- The state on a path that offers the transition picked, which is the first one enabled there. -/
theorem exists_offer {t : Nat} : ∀ {path : List Nat},
    d.pickAlong s event candidates path = .ok (some t) →
      ∃ node ∈ path, d.firstEnabled s event (candidates node) = .ok (some t)
  | [], h => by cases h
  | node :: rest, h => by
      rw [pickAlong] at h
      split at h
      · rename_i hfirst
        cases h
        exact ⟨node, List.mem_cons_self, hfirst⟩
      · obtain ⟨node', hnode, hfirst⟩ := exists_offer h
        exact ⟨node', List.mem_cons_of_mem _ hnode, hfirst⟩
      · cases h

/-! ## The order of picks -/

/-- From the picks of the leaves up to some point, in the order in which they were first picked, to
the picks of all leaves. -/
theorem picks_ordered : ∀ {rest done picked out : List Nat},
    done ++ rest = d.leaves s.config →
      (∀ t, t ∈ picked ↔ ∃ leaf ∈ done, d.IsPick s event candidates leaf t) →
      picked.Pairwise (d.Earlier s event candidates) →
      d.picks s event candidates picked rest = .ok out →
        (∀ t, t ∈ out ↔ ∃ leaf ∈ d.leaves s.config, d.IsPick s event candidates leaf t) ∧
          out.Pairwise (d.Earlier s event candidates)
  | [], done, picked, out, hall, hmem, hpairs, h => by
      cases h
      rw [List.append_nil] at hall
      exact ⟨hall ▸ hmem, hpairs⟩
  | leaf :: rest, done, picked, out, hall, hmem, hpairs, h => by
      have hall' : (done ++ [leaf]) ++ rest = d.leaves s.config := by
        rw [List.append_assoc]
        exact hall
      have hdone : ∀ x ∈ done, x ∈ d.leaves s.config := fun x hx =>
        hall ▸ List.mem_append_left _ hx
      have hsorted : (done ++ leaf :: rest).Pairwise (· < ·) :=
        hall ▸ (NodeSet.sorted_toList _).filter _
      obtain ⟨-, hrest, hbefore⟩ := List.pairwise_append.mp hsorted
      rw [picks] at h
      split at h
      · rename_i t hpick
        have hpick := isPick_iff.mpr hpick
        refine picks_ordered hall' (fun u => ?_) ?_ h
        · simp only [mem_addNew, hmem, List.mem_append, List.mem_singleton, or_and_right, exists_or,
            exists_eq_left]
          exact or_congr_right ⟨fun heq => heq ▸ hpick, fun h => h.unique hpick⟩
        · unfold addNew
          split
          · exact hpairs
          · rename_i hnew
            refine List.pairwise_append.mpr ⟨hpairs, List.pairwise_singleton _ _, ?_⟩
            intro r hr t' ht'
            rw [List.mem_singleton.mp ht']
            obtain ⟨first, hfirst, hpickr⟩ := (hmem r).mp hr
            refine ⟨first, hdone first hfirst, hpickr, fun leaf' hleaf' hpick' => ?_⟩
            rw [← hall] at hleaf'
            rcases List.mem_append.mp hleaf' with hleaf' | hleaf'
            · -- a leaf before would have picked it already
              exact absurd ((hmem t).mpr ⟨leaf', hleaf', hpick'⟩) (by simpa using hnew)
            · exact hbefore first hfirst leaf' hleaf'
      · rename_i hpick
        refine picks_ordered hall' (fun u => ?_) hpairs h
        simp only [hmem, List.mem_append, List.mem_singleton, or_and_right, exists_or,
          exists_eq_left, isPick_iff, hpick]
        simp
      · cases h

/-! ## Conflicts -/

/-- What one more pick does to those kept: it gives way to one of them, or else it is kept, and
those that it overlaps with have their sources above its own and go. -/
theorem joinPicks_cases {kept : List (Nat × Configuration)} (h : d.Compatible s kept) (t : Nat) :
    (d.joinPicks s kept t = kept ∧ ∃ r ∈ kept.map Prod.fst, d.Overlap s t r ∧
      ¬ d.Below (d.transition t).source (d.transition r).source) ∨
    (t ∈ (d.joinPicks s kept t).map Prod.fst ∧ ∀ r ∈ kept.map Prod.fst,
      r ∈ (d.joinPicks s kept t).map Prod.fst ∨
        d.Overlap s t r ∧ d.Below (d.transition t).source (d.transition r).source) := by
  have hoverlap : ∀ k ∈ kept,
      (!(d.exitSet s.config s.history (d.transition t)).disjoint k.2) = true ↔
        d.Overlap s t k.1 := by
    intro k hk
    rw [Bool.not_eq_true', ← Bool.not_eq_true, NodeSet.disjoint_iff, h.exit k hk, Overlap]
    simp only [not_forall, not_not]
  unfold joinPicks
  simp only
  split
  · -- it displaces all that it overlaps with
    rename_i hall
    refine .inr ⟨by simp, fun r hr => ?_⟩
    obtain ⟨k, hk, rfl⟩ := List.mem_map.mp hr
    by_cases hkt : d.Overlap s t k.1
    · refine .inr ⟨hkt, ?_⟩
      exact List.all_eq_true.mp hall k (List.mem_filter.mpr ⟨hk, (hoverlap k hk).mpr hkt⟩)
    · refine .inl (List.mem_map.mpr ⟨k, List.mem_append_left _ (List.mem_filter.mpr ⟨hk, ?_⟩), rfl⟩)
      rw [Bool.not_eq_true', ← Bool.not_eq_true, hoverlap k hk]
      exact hkt
  · -- one that it overlaps with does not have its source above
    rename_i hno
    refine .inl ⟨rfl, ?_⟩
    obtain ⟨k, hk, hkt⟩ : ∃ k ∈ kept, d.Overlap s t k.1 ∧
        ¬ d.Below (d.transition t).source (d.transition k.1).source := by
      rw [List.all_eq_true] at hno
      push Not at hno
      obtain ⟨k, hk, hbelow⟩ := hno
      obtain ⟨hk, hdisj⟩ := List.mem_filter.mp hk
      exact ⟨k, hk, (hoverlap k hk).mp hdisj, hbelow⟩
    exact ⟨k.1, List.mem_map_of_mem hk, hkt⟩

theorem Overlap.symm {t r : Nat} (h : d.Overlap s t r) : d.Overlap s r t := by
  obtain ⟨i, ht, hr⟩ := h
  exact ⟨i, hr, ht⟩

namespace WellFormed

variable (wf : d.WellFormed)
include wf

/-- Where two transitions leave something and one has its source within the other's, they leave
something in common. -/
theorem overlap_of_within {t r u v : Nat} (ht : d.Overlap s t u) (hr : d.Overlap s r v)
    (hwithin : d.Within (d.transition t).source (d.transition r).source) : d.Overlap s t r := by
  obtain ⟨i, hi, -⟩ := ht
  obtain ⟨j, hj, -⟩ := hr
  obtain ⟨hic, hiless, hib⟩ := mem_exitSet_iff.mp hi
  obtain ⟨hjc, hjless, hjb⟩ := mem_exitSet_iff.mp hj
  -- the two domains lie around the source further down, so one lies within the other
  cases hdt : d.domain s.history (d.transition t) with
  | none => exact ⟨j, mem_exitSet_iff.mpr ⟨hjc, hiless, by simp [hdt]⟩, hj⟩
  | some a =>
      cases hdr : d.domain s.history (d.transition r) with
      | none => exact ⟨i, hi, mem_exitSet_iff.mpr ⟨hic, hjless, by simp [hdr]⟩⟩
      | some b =>
          have hsource := wf.within_trans hwithin (wf.domain_spec hdr).1
          rcases wf.within_total (wf.domain_spec hdt).1 hsource with hab | hba
          · refine ⟨i, hi, mem_exitSet_iff.mpr ⟨hic, hjless, fun b' hb' => ?_⟩⟩
            rw [hdr] at hb'
            cases hb'
            exact wf.below_of_below_within (hib a hdt) hab
          · refine ⟨j, mem_exitSet_iff.mpr ⟨hjc, hiless, fun a' ha' => ?_⟩, hj⟩
            rw [hdt] at ha'
            cases ha'
            exact wf.below_trans (hjb b hdr) hba

/-- A state that stands between two states of a subtree lies in it. -/
theorem within_of_between {a x y z : Nat} (hx : d.Within x a) (hz : d.Within z a) (hxy : x < y)
    (hyz : y < z) : d.Within y a := by
  have hza := hz.resolve_left fun h => by
    have := wf.le_of_within hx
    omega
  have ha : a < d.nodes.size := by
    have := wf.below_bounds hza
    omega
  have hle := wf.le_of_within hx
  have hend := ((wf.below_iff ha).mp hza).2
  exact .inr ((wf.below_iff ha).mpr ⟨by omega, by omega⟩)

section

variable (hcand : ∀ node, ∀ t ∈ candidates node, t ∈ (d.node node).transitions)
include hcand

/-- A pick comes from the state that is its source, where it is the first one enabled. -/
theorem IsPick.source {leaf t : Nat} (h : d.IsPick s event candidates leaf t) :
    d.Within leaf (d.transition t).source ∧
      d.firstEnabled s event (candidates (d.transition t).source) = .ok (some t) := by
  obtain ⟨node, hnode, hfirst⟩ := exists_offer (isPick_iff.mp h)
  have hmem := hcand node t (mem_of_firstEnabled hfirst)
  have hlt : node < d.nodes.size := by
    by_contra hge
    rw [node_of_size_le (by omega)] at hmem
    cases hmem
  obtain ⟨-, rfl⟩ := (wf.mem_transitions node hlt t).mp hmem
  refine ⟨?_, hfirst⟩
  rcases List.mem_cons.mp hnode with heq | habove
  · exact .inl heq.symm
  · exact .inr (wf.mem_properAncestors_none.mp habove)

/-- Picks with one source are one. -/
theorem eq_of_source {leaf leaf' t t' : Nat} (h : d.IsPick s event candidates leaf t)
    (h' : d.IsPick s event candidates leaf' t')
    (heq : (d.transition t).source = (d.transition t').source) : t = t' := by
  have hfirst := (IsPick.source wf hcand h).2
  rw [heq, (IsPick.source wf hcand h').2] at hfirst
  cases hfirst
  rfl

/-- Whoever gave way to a transition that is displaced now gives way to the one that displaces. -/
theorem givesWay_trans {u k t : Nat} (hu : d.GivesWay s event candidates u k)
    (hlater : d.Earlier s event candidates u t) (hoverlap : d.Overlap s t k)
    (hbelow : d.Below (d.transition t).source (d.transition k).source)
    (ht : ∃ leaf ∈ d.leaves s.config, d.IsPick s event candidates leaf t) :
    d.GivesWay s event candidates u t := by
  have hsource : d.Below (d.transition k).source (d.transition u).source := by
    rcases hu.reason with h | ⟨⟨first, hfirst, hpickk, hfirstu⟩, hnot⟩
    · exact h
    · -- a leaf that picks `u` stands between one that picks `k` and one that picks `t`
      obtain ⟨second, hsecond, hpicku, hsecondt⟩ := hlater
      obtain ⟨third, hthird, hpickt⟩ := ht
      have hin : d.Within second (d.transition k).source := by
        refine wf.within_of_between (IsPick.source wf hcand hpickk).1
          (.inr (wf.below_of_within (IsPick.source wf hcand hpickt).1 hbelow))
          (hfirstu second hsecond hpicku) (hsecondt third hthird hpickt)
      rcases wf.within_total hin (IsPick.source wf hcand hpicku).1 with (heq | hku) | huk
      · have := hfirstu first hfirst (eq_of_source wf hcand hpickk hpicku heq ▸ hpickk)
        omega
      · exact hku
      · exact absurd huk hnot
  have htu := wf.below_trans hbelow hsource
  exact ⟨(wf.overlap_of_within hoverlap hu.overlap (.inr htu)).symm, .inl htu⟩

/-- One more pick leaves everybody who is not kept with a reason. -/
theorem justified_join {kept : List (Nat × Configuration)} (hkept : d.Compatible s kept)
    {done : List Nat} {t : Nat} (hsub : ∀ r ∈ kept.map Prod.fst, r ∈ done)
    (hjust : ∀ u ∈ done, u ∉ kept.map Prod.fst →
      ∃ r ∈ kept.map Prod.fst, d.GivesWay s event candidates u r)
    (hearlier : ∀ u ∈ done, d.Earlier s event candidates u t)
    (ht : ∃ leaf ∈ d.leaves s.config, d.IsPick s event candidates leaf t) :
    ∀ u ∈ done ++ [t], u ∉ (d.joinPicks s kept t).map Prod.fst →
      ∃ r ∈ (d.joinPicks s kept t).map Prod.fst, d.GivesWay s event candidates u r := by
  intro u hu hout
  rcases joinPicks_cases hkept t with ⟨heq, r, hr, hoverlap, hnot⟩ | ⟨hmem, hstay⟩
  · rw [heq] at hout ⊢
    rcases List.mem_append.mp hu with hu | hu
    · exact hjust u hu hout
    · rw [List.mem_singleton.mp hu]
      exact ⟨r, hr, hoverlap, .inr ⟨hearlier r (hsub r hr), hnot⟩⟩
  · rcases List.mem_append.mp hu with hu | hu
    · by_cases huk : u ∈ kept.map Prod.fst
      · obtain ⟨hoverlap, hbelow⟩ := (hstay u huk).resolve_left hout
        exact ⟨t, hmem, hoverlap.symm, .inl hbelow⟩
      · obtain ⟨r, hr, hway⟩ := hjust u hu huk
        rcases hstay r hr with hr' | ⟨hoverlap, hbelow⟩
        · exact ⟨r, hr', hway⟩
        · exact ⟨t, hmem, wf.givesWay_trans hcand hway (hearlier u hu) hoverlap hbelow ht⟩
    · rw [List.mem_singleton.mp hu] at hout
      exact absurd hmem hout

/-- All picks, taken in one after the other. -/
theorem justified_foldl : ∀ {rest done : List Nat} {kept : List (Nat × Configuration)},
    d.Compatible s kept → (done ++ rest).Pairwise (d.Earlier s event candidates) →
      (done ++ rest).Nodup → (∀ r ∈ kept.map Prod.fst, r ∈ done) →
      (∀ t ∈ rest, ∃ leaf ∈ d.leaves s.config, d.IsPick s event candidates leaf t) →
      (∀ u ∈ done, u ∉ kept.map Prod.fst →
        ∃ r ∈ kept.map Prod.fst, d.GivesWay s event candidates u r) →
      ∀ u ∈ done ++ rest, u ∉ (rest.foldl (d.joinPicks s) kept).map Prod.fst →
        ∃ r ∈ (rest.foldl (d.joinPicks s) kept).map Prod.fst, d.GivesWay s event candidates u r
  | [], done, kept, _, _, _, _, _, hjust => by
      rw [List.append_nil]
      exact hjust
  | t :: rest, done, kept, hkept, hearlier, hnodup, hsub, hpicked, hjust => by
      have hdone : ∀ u ∈ done, d.Earlier s event candidates u t := fun u hu =>
        (List.pairwise_append.mp hearlier).2.2 u hu t List.mem_cons_self
      have hfresh : t ∉ kept.map Prod.fst := fun h =>
        (List.nodup_append.mp hnodup).2.2 t (hsub t h) t List.mem_cons_self rfl
      have hnext := wf.justified_join hcand hkept hsub hjust hdone (hpicked t List.mem_cons_self)
      have hsub' : ∀ r ∈ (d.joinPicks s kept t).map Prod.fst, r ∈ done ++ [t] := by
        intro r hr
        rcases joinPicks_subset hr with hr | rfl
        · exact List.mem_append_left _ (hsub r hr)
        · exact List.mem_append_right _ List.mem_cons_self
      rw [show done ++ t :: rest = (done ++ [t]) ++ rest by simp] at hearlier hnodup ⊢
      exact justified_foldl (hkept.join hfresh) hearlier hnodup hsub'
        (fun u hu => hpicked u (List.mem_cons_of_mem _ hu)) hnext

/-- Whatever is selected is a choice among the picks. -/
theorem choice_of_selectFrom {ts : List Nat} (h : d.selectFrom s event candidates = .ok ts) :
    d.Choice s event candidates ts := by
  have hsel := wf.selection_of_selectFrom hcand h
  unfold selectFrom at h
  split at h
  · rename_i picked hpicks
    cases h
    obtain ⟨hnodup, -⟩ := picks_spec List.nodup_nil hpicks
    obtain ⟨hmem, hearlier⟩ := picks_ordered (List.nil_append _) (by simp) .nil hpicks
    have hnone : d.Compatible s [] := ⟨by simp, .nil, .nil⟩
    obtain ⟨-, hsub⟩ := compatible_foldl hnone hnodup (by simp)
    refine ⟨hsel.nodup, fun t ht => ?_, fun t ht r hr hne => ?_, fun leaf hleaf t hpick hout => ?_⟩
    · exact (hmem t).mp ((hsub t ht).resolve_left (by simp))
    · have hsym : Std.Symm fun t t' => ∀ i,
          ¬ (i ∈ d.exitSet s.config s.history (d.transition t) ∧
            i ∈ d.exitSet s.config s.history (d.transition t')) := ⟨fun _ _ h i hi => h i hi.symm⟩
      rintro ⟨i, hi⟩
      exact hsel.disjoint.forall ht hr hne i hi
    · have hall : ([] ++ picked).Pairwise (d.Earlier s event candidates) := hearlier
      exact wf.justified_foldl hcand hnone hall hnodup (by simp)
        (fun t ht => (hmem t).mp ht) (by simp) t ((hmem t).mpr ⟨leaf, hleaf, hpick⟩) hout
  · cases h

end

end WellFormed

/-! ## Selection -/

/-- What is selected for an event, or without one, is a choice among the picks of the active leaves,
in whatever configuration and with whatever remembered. -/
theorem selection_justified {json : Json} (hdef : ofJson json = .ok d) (s : Situation)
    (event : Event) :
    (∀ ts, d.select s event = .ok ts →
      d.Choice s event (fun node => d.candidates node event.name) ts) ∧
    (∀ ts, d.selectEventless s event = .ok ts → d.Choice s event d.eventless ts) := by
  have wf := wellFormed_of_ofJson hdef
  refine ⟨fun ts h => ?_, fun ts h => ?_⟩
  · exact wf.choice_of_selectFrom (fun _ _ => WellFormed.mem_transitions_of_candidates) h
  · exact wf.choice_of_selectFrom (fun _ _ ht => (List.mem_filter.mp ht).1) h

/-- Three states in each other with a transition each that needs no event. -/
def nestedJson : Json :=
  let inner : Json := .obj [("initial", .str "x"), ("always", .str ".y"),
    ("states", .obj [("x", .obj []), ("y", .obj [])])]
  let middle : Json := .obj [("type", .str "parallel"), ("always", .str ".left"),
    ("states", .obj [("left", .obj []), ("right", inner)])]
  .obj [("type", .str "parallel"), ("always", .str ".first"),
    ("states", .obj [("first", .obj []), ("second", middle)])]

/-- The nested states as a definition. -/
def nested : Definition Logic := (ofJson nestedJson).toOption.getD default

/-- The nested states when they have been entered, with nothing supplied. -/
def nestedStart : Situation where
  config := nested.resolve .empty [rootIndex]
  history := []
  context := .null
  predicates := fun _ => none

/-- The transition of the outermost state gives way to that of the middle one, which gives way to
that of the innermost. This one is kept, and the outermost gives way to it as well. -/
theorem outermost_gives_way : nested.selectEventless nestedStart default = .ok [2] ∧
    nested.GivesWay nestedStart default nested.eventless 0 2 := by
  have hdef : (ofJson (L := Logic) nestedJson).isOk = true := rfl
  have hselect : nested.selectEventless nestedStart default = .ok [2] := rfl
  have hchoice := (selection_justified (ok_of_isOk hdef) nestedStart default).2 _ hselect
  obtain ⟨r, hr, hway⟩ := hchoice.justified 1 (by decide) 0 (isPick_iff.mpr rfl) (by decide)
  rw [List.mem_singleton.mp hr] at hway
  exact ⟨hselect, hway⟩

end Statechart.Definition
