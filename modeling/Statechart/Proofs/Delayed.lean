import Statechart.Proofs.Build
import Statechart.Proofs.Standing

/-!
# Delayed transitions

A state sets a timer for each of its after keys when it is entered, and cancels it when it is left
(`Definition.delayed_of_build`). Where the keys have no dots, the id of such a timer tells its key
and its state (`Definition.afterEvent_inj`). So a machine whose other actions leave such ids alone
tends each of them with the state that it tells (`Machine.Undisturbed.tends`).
-/

namespace Statechart

namespace Definition

/-! ## Ids of timers -/

/-- An id like those of the timers that drive delayed transitions. -/
def IsAfterId (id : String) : Prop := Event.afterStart.toList <+: id.toList

/-- What comes before the first separator is the same, and so is what comes after it. -/
theorem eq_of_separated {α : Type} [DecidableEq α] {a : α} {xs ys zs zs' : List α} (hxs : a ∉ xs)
    (hys : a ∉ ys) (h : xs ++ a :: zs = ys ++ a :: zs') : xs = ys ∧ zs = zs' := by
  have hidx := congrArg (List.idxOf a) h
  rw [List.idxOf_append_of_notMem hxs, List.idxOf_append_of_notMem hys, List.idxOf_cons_self,
    List.idxOf_cons_self] at hidx
  obtain ⟨hkeys, hrest⟩ := List.append_inj h hidx
  exact ⟨hkeys, List.tail_eq_of_cons_eq hrest⟩

theorem toList_afterEvent (key id : String) :
    (afterEvent key id).toList = Event.afterStart.toList ++ (key.toList ++ '.' :: id.toList) := by
  simp [afterEvent]

theorem isAfterId_afterEvent (key id : String) : IsAfterId (afterEvent key id) :=
  ⟨_, (toList_afterEvent key id).symm⟩

/-- The id of a timer tells its key and its state. -/
theorem afterEvent_inj {key key' id id' : String} (hkey : '.' ∉ key.toList)
    (hkey' : '.' ∉ key'.toList) (h : afterEvent key id = afterEvent key' id') :
    key = key' ∧ id = id' := by
  have hlists := congrArg String.toList h
  rw [toList_afterEvent, toList_afterEvent, List.append_right_inj] at hlists
  obtain ⟨hkeys, hids⟩ := eq_of_separated hkey hkey' hlists
  exact ⟨String.toList_inj.mp hkeys, String.toList_inj.mp hids⟩

/-! ## Built definitions -/

variable {L : Type}

/-- The keys of the delayed transitions of a written state. -/
def delaysOf (a : StateAttributes) : List String := (a.after.getD []).map Prod.fst

/-- The written states in document order. -/
def outlines (d : Definition L) : List Outline := d.raw.root.layout 0 d.id none []

/-- The keys of the delayed transitions of a state. -/
def afterKeys (d : Definition L) (st : Nat) : List String :=
  (d.outlines[st]?.map fun o => delaysOf o.attributes).getD []

/-- Every state tends the timers of its delayed transitions, and is known by its id. -/
structure Delayed (d : Definition L) : Prop where
  entry : ∀ st, ∀ key ∈ d.afterKeys st, afterEntry (d.node st).id key ∈ (d.node st).entry
  exit : ∀ st, ∀ key ∈ d.afterKeys st, .cancel (afterEvent key (d.node st).id) ∈ (d.node st).exit
  ids : ∀ st st', d.afterKeys st ≠ [] → d.afterKeys st' ≠ [] → (d.node st).id = (d.node st').id →
    st = st'

/-- What linking adds to a state for its delayed transitions. -/
structure LinkedDelays (n : StateNode L) (a : StateAttributes) (linked : StateNode L) : Prop where
  id : linked.id = n.id
  entry : ∀ key ∈ delaysOf a, afterEntry n.id key ∈ linked.entry
  exit : ∀ key ∈ delaysOf a, .cancel (afterEvent key n.id) ∈ linked.exit

variable {nodes : Array (StateNode L)}

theorem linkNode_delays {n linked : StateNode L} {a : StateAttributes} {ts : List (Transition L)}
    (h : linkNode nodes n a = .ok (linked, ts)) : LinkedDelays n a linked := by
  simp only [linkNode, Except.bind_eq_ok] at h
  obtain ⟨_, -, _, -, entry, -, exit, -, _, -, _, -, _, -, _, -, _, -, heq⟩ := h
  cases heq
  refine ⟨rfl, fun key hkey => ?_, fun key hkey => ?_⟩
  · exact List.mem_append_left _ (List.mem_append_right _ (List.mem_map_of_mem hkey))
  · exact List.mem_append_left _ (List.mem_append_right _ (List.mem_map_of_mem hkey))

theorem linkAll_delays : ∀ {pairs : List (StateNode L × StateAttributes)}
    {linked : List (StateNode L)} {ts : List (Transition L)},
      linkAll nodes pairs = .ok (linked, ts) →
        List.Forall₂ (fun x l => LinkedDelays x.1 x.2 l) pairs linked
  | [], linked, ts, h => by
      cases h
      exact .nil
  | (n, a) :: rest, linked, ts, h => by
      simp only [linkAll, Except.bind_eq_ok] at h
      obtain ⟨⟨first, ts₁⟩, hfirst, ⟨others, ts₂⟩, hothers, heq⟩ := h
      cases heq
      exact .cons (linkNode_delays hfirst) (linkAll_delays hothers)

/-- The states of a built definition are those that were written, with ids of their own. -/
theorem outlines_of_build {raw : MachineConfig} {d : Definition L} (h : build raw = .ok d) :
    (d.outlines.map (Outline.id d.id)).Nodup ∧
      List.Forall₂ (fun o n => LinkedDelays (o.toNode d.id) o.attributes n) d.outlines
        d.nodes.toList := by
  simp only [build, Except.bind_eq_ok] at h
  obtain ⟨_, hcheck, ⟨linked, ts⟩, hlink, heq⟩ := h
  cases heq
  refine ⟨(Outline.check_spec hcheck).2.1, ?_⟩
  have hlinked := linkAll_delays hlink
  rw [List.zip_map', List.forall₂_map_left_iff] at hlinked
  exact List.forall₂_map_right_iff.mpr (hlinked.imp fun _ _ hn => ⟨hn.id, hn.entry, hn.exit⟩)

/-- The states of a built definition tend their timers. -/
theorem delayed_of_build {raw : MachineConfig} {d : Definition L} (h : build raw = .ok d) :
    d.Delayed := by
  obtain ⟨hids, hlinked⟩ := outlines_of_build h
  -- a state with keys has been written
  have hstate : ∀ {st key}, key ∈ d.afterKeys st → ∃ hlt : st < d.outlines.length,
      key ∈ delaysOf d.outlines[st].attributes ∧
        LinkedDelays (d.outlines[st].toNode d.id) d.outlines[st].attributes (d.node st) := by
    intro st key hkey
    have hlt : st < d.outlines.length := by
      by_contra hge
      rw [afterKeys, List.getElem?_eq_none (Nat.not_lt.mp hge)] at hkey
      cases hkey
    have hlt' : st < d.nodes.toList.length := hlinked.length_eq ▸ hlt
    have hnode := hlinked.get hlt hlt'
    rw [afterKeys, List.getElem?_eq_getElem hlt] at hkey
    have hsize : st < d.nodes.size := hlt'
    refine ⟨hlt, hkey, ?_⟩
    rw [node, Array.getElem?_eq_getElem hsize]
    exact hnode
  refine ⟨fun st key hkey => ?_, fun st key hkey => ?_, fun st st' hst hst' heq => ?_⟩
  · obtain ⟨_, hmem, hnode⟩ := hstate hkey
    exact hnode.id ▸ hnode.entry key hmem
  · obtain ⟨_, hmem, hnode⟩ := hstate hkey
    exact hnode.id ▸ hnode.exit key hmem
  · obtain ⟨key, hkey⟩ := List.exists_mem_of_ne_nil _ hst
    obtain ⟨key', hkey'⟩ := List.exists_mem_of_ne_nil _ hst'
    obtain ⟨hlt, -, hnode⟩ := hstate hkey
    obtain ⟨hlt', -, hnode'⟩ := hstate hkey'
    have hid : d.outlines[st].id d.id = d.outlines[st'].id d.id :=
      hnode.id.symm.trans (heq.trans hnode'.id)
    have hi : st < (d.outlines.map (Outline.id d.id)).length := by simpa using hlt
    have hj : st' < (d.outlines.map (Outline.id d.id)).length := by simpa using hlt'
    exact (@List.Nodup.getElem_inj_iff _ _ hids st hi st' hj).mp (by simpa using hid)

end Definition

/-! ## Machines -/

namespace Machine

open Definition

variable {m : Machine}

/-- After keys have no dots, and no actions but those that the states have for their delayed
transitions use ids like theirs. -/
structure Undisturbed (m : Machine) : Prop where
  keys : ∀ st, ∀ key ∈ m.definition.afterKeys st, '.' ∉ key.toList
  entry : ∀ st, ∀ action ∈ (m.definition.node st).entry, ∀ id, IsAfterId id →
    m.implementations.Uses id action →
      ∃ key ∈ m.definition.afterKeys st, action = afterEntry (m.definition.node st).id key
  exit : ∀ st, ∀ action ∈ (m.definition.node st).exit, ∀ id, IsAfterId id →
    m.implementations.Uses id action →
      ∃ key ∈ m.definition.afterKeys st,
        action = .cancel (afterEvent key (m.definition.node st).id)
  transitions : ∀ t, ∀ action ∈ (m.definition.transition t).actions, ∀ id, IsAfterId id →
    ¬ m.implementations.Uses id action

/-- The timer of a delayed transition is tended by the state that it leaves. -/
theorem Undisturbed.tends (h : m.Undisturbed) (hdelayed : m.definition.Delayed) {st : Nat}
    {key : String} (hkey : key ∈ m.definition.afterKeys st) :
    m.Tends (afterEvent key (m.definition.node st).id) (some st) (.parse key) := by
  have hafter := isAfterId_afterEvent key (m.definition.node st).id
  -- the id tells the state and the key
  have htells : ∀ {st' key'}, key' ∈ m.definition.afterKeys st' →
      afterEvent key (m.definition.node st).id = afterEvent key' (m.definition.node st').id →
        st = st' ∧ key = key' := by
    intro st' key' hkey' heq
    obtain ⟨hkeys, hids⟩ := afterEvent_inj (h.keys st key hkey) (h.keys st' key' hkey') heq
    exact ⟨hdelayed.ids st st' (List.ne_nil_of_mem hkey) (List.ne_nil_of_mem hkey') hids, hkeys⟩
  refine ⟨fun st' action haction huses => ?_, fun st' action haction huses => ?_,
    fun t action haction => h.transitions t action haction _ hafter, ?_, ?_⟩
  · obtain ⟨key', hkey', rfl⟩ := h.entry st' action haction _ hafter huses
    obtain ⟨rfl, rfl⟩ :=
      htells hkey' (Option.some.inj (Implementations.uses_raise huses)).symm
    exact ⟨rfl, _, rfl⟩
  · obtain ⟨key', hkey', rfl⟩ := h.exit st' action haction _ hafter huses
    obtain ⟨rfl, rfl⟩ := htells hkey' (Implementations.uses_cancel huses).symm
    exact ⟨rfl, rfl⟩
  · rintro st' ⟨⟩
    exact ⟨_, hdelayed.entry st key hkey, _, rfl⟩
  · rintro st' ⟨⟩
    exact hdelayed.exit st key hkey

/-- Other such ids are used by nobody. -/
theorem Undisturbed.tends_none (h : m.Undisturbed) {id : String} (hafter : IsAfterId id)
    (hother : ∀ st, ∀ key ∈ m.definition.afterKeys st,
      id ≠ afterEvent key (m.definition.node st).id) (delay : Delay) : m.Tends id none delay := by
  refine ⟨fun st action haction huses => ?_, fun st action haction huses => ?_,
    fun t action haction => h.transitions t action haction _ hafter, nofun, nofun⟩
  · obtain ⟨key, hkey, rfl⟩ := h.entry st action haction _ hafter huses
    exact absurd (Option.some.inj (Implementations.uses_raise huses)).symm (hother st key hkey)
  · obtain ⟨key, hkey, rfl⟩ := h.exit st action haction _ hafter huses
    exact absurd (Implementations.uses_cancel huses).symm (hother st key hkey)

end Machine

end Statechart
