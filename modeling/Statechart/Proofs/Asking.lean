import Statechart.Proofs.StateValue
import Statechart.Machine

/-!
# State values from outside

A state value that asks for a child which is missing cannot be read (`named_error`). Else all that it
asks for becomes active, so the configuration that it is completed to is valid exactly if it asks no
compound state for two children, and no state for a history state (`isValid_iff_fits`). Nothing checks
this: what is restored may be invalid (`restored_valid_iff`).
-/

namespace Statechart

namespace Definition

variable {L : Type} (d : Definition L)

/-- What a value asks for below the root can be active together. -/
structure Fits (value : StateValue) : Prop where
  single : ∀ p, (d.node p).kind = .compound → ∀ key key', d.Asks rootIndex value p key →
    d.Asks rootIndex value p key' → key = key'
  history : ∀ p key c, d.Asks rootIndex value p key → d.childByKey? p key = some c →
    (d.node c).isHistory = false

/-- What is reported when a state has no child with a key. -/
def noChild (p : Nat) (key : String) : ActorError :=
  .restore ("state '" ++ (d.node p).id ++ "' has no child '" ++ key ++ "'")

variable {d} {p q c : Nat} {key asked : String} {value : StateValue} {states : List Nat}
  {e : ActorError}

/-! ## Reading -/

theorem namedChild_error (h : d.namedChild p key = .error e) :
    d.childByKey? p key = none ∧ e = d.noChild p key := by
  unfold namedChild at h
  split at h
  · cases h
  · rename_i hnone
    cases h
    exact ⟨hnone, rfl⟩

mutual

/-- A value that cannot be read asks for a child that is missing. -/
theorem named_error : ∀ {value : StateValue} {p : Nat} {e : ActorError},
    d.named p value = .error e →
      ∃ q asked, d.Asks p value q asked ∧ d.childByKey? q asked = none ∧ e = d.noChild q asked
  | .leaf key, p, _, h => by
      rcases Except.bind_eq_error.mp h with h | ⟨_, _, h⟩
      · exact ⟨p, key, .leaf p key, namedChild_error h⟩
      · cases h
  | .branch _, _, _, h => by
      rw [named] at h
      exact namedFields_error h

theorem namedFields_error : ∀ {fields : List (String × StateValue)} {p : Nat} {e : ActorError},
    d.namedFields p fields = .error e → ∃ q asked, d.Asks p (.branch fields) q asked ∧
      d.childByKey? q asked = none ∧ e = d.noChild q asked
  | [], _, _, h => by cases h
  | (key, value) :: rest, p, _, h => by
      rw [namedFields] at h
      rcases Except.bind_eq_error.mp h with h | ⟨c, hc, h⟩
      · exact ⟨p, key, .entry List.mem_cons_self, namedChild_error h⟩
      · have hchild := namedChild_ok.mp hc
        rcases Except.bind_eq_error.mp h with h | ⟨below, -, h⟩
        · obtain ⟨q, asked, hasks, hmissing⟩ := named_error h
          exact ⟨q, asked, .deeper List.mem_cons_self hchild hasks, hmissing⟩
        · rcases Except.bind_eq_error.mp h with h | ⟨others, -, h⟩
          · obtain ⟨q, asked, hasks, hmissing⟩ := namedFields_error h
            exact ⟨q, asked, (asks_cons hchild).mpr (.inr (.inr hasks)), hmissing⟩
          · cases h

end

/-! ## Completing -/

namespace WellFormed

variable (wf : d.WellFormed)
include wf

/-- What is asked for below a state lies there. -/
theorem below_of_asks (hasks : d.Asks p value q asked)
    (hfound : d.childByKey? q asked = some c) : d.Below c p := by
  induction hasks with
  | leaf => exact wf.child_below (childByKey?_mem hfound)
  | entry => exact wf.child_below (childByKey?_mem hfound)
  | deeper _ hchild _ ih =>
      exact wf.below_trans (ih hfound) (wf.child_below (childByKey?_mem hchild))

/-- On the way up from a state to another one, all lies within the same child of the latter. -/
theorem within_child {j i : Nat} (hc : c ∈ (d.node p).children) (hjc : d.Within j c)
    (hji : d.Within j i) (hip : d.Below i p) : d.Within i c := by
  obtain ⟨c', hc', hwithin⟩ := wf.exists_child hip
  rwa [wf.child_unique hc hc' hjc (wf.within_trans hji hwithin)]

/-- Whatever lies on the way down to something that is asked for is asked for as well. -/
theorem asks_above (hasks : d.Asks p value q asked) {t i r : Nat}
    (hfound : d.childByKey? q asked = some t) (hwithin : d.Within t i) (hbelow : d.Below i p)
    (hparent : (d.node i).parent = some r) :
    ∃ key, d.Asks p value r key ∧ d.childByKey? r key = some i := by
  have hchild : ∀ {p key}, d.childByKey? p key = some i → p = r := by
    intro p key hkey
    exact Option.some.inj ((wf.mem_children.mp (childByKey?_mem hkey)).symm.trans hparent)
  induction hasks with
  | leaf p key =>
      obtain rfl : t = i := wf.within_antisymm hwithin
        (wf.within_child (childByKey?_mem hfound) (.refl t) hwithin hbelow)
      obtain rfl := hchild hfound
      exact ⟨key, .leaf _ key, hfound⟩
  | @entry p key _ _ hentry =>
      obtain rfl : t = i := wf.within_antisymm hwithin
        (wf.within_child (childByKey?_mem hfound) (.refl t) hwithin hbelow)
      obtain rfl := hchild hfound
      exact ⟨key, .entry hentry, hfound⟩
  | @deeper p c q key _ _ _ hentry hkey hasks ih =>
      rcases wf.within_child (childByKey?_mem hkey) (wf.below_of_asks hasks hfound).within hwithin
        hbelow with rfl | hbelow
      · obtain rfl := hchild hkey
        exact ⟨key, .entry hentry, hkey⟩
      · obtain ⟨key', hasks', hfound'⟩ := ih hfound hbelow
        exact ⟨key', .deeper hentry hkey hasks', hfound'⟩

/-- What fits can be active together. -/
theorem agreeing_of_fits (h : d.Fits value) (hanswered : d.Answered rootIndex value states) :
    d.Agreeing (rootIndex :: states) := by
  -- a child below which something is asked for is asked for by its key
  have hasked : ∀ {p c}, c ∈ (d.node p).children → d.Targeted (rootIndex :: states) c →
      ∃ key, d.Asks rootIndex value p key ∧ d.childByKey? p key = some c := by
    rintro p c hc ⟨t, ht, hwithin⟩
    have hbelow : d.Below c rootIndex :=
      wf.below_of_below_within (wf.child_below hc)
        (wf.within_root (Nat.lt_trans (wf.lt_of_below (wf.child_below hc)) (wf.child_lt hc)))
    rcases List.mem_cons.mp ht with rfl | ht
    · exact absurd (wf.below_of_within hwithin hbelow) (wf.not_below_self _)
    · obtain ⟨q, asked, hasks, hfound⟩ := (hanswered.mem t).mp ht
      exact wf.asks_above hasks hfound hwithin hbelow (wf.mem_children.mp hc)
  refine ⟨wf.lt_of_answered hanswered, fun t ht => ?_, fun p hp c hc c' hc' htc htc' => ?_⟩
  · rcases List.mem_cons.mp ht with rfl | ht
    · simpa [StateNode.isHistory, rootIndex] using wf.root_kind.1
    · obtain ⟨q, asked, hasks, hfound⟩ := (hanswered.mem t).mp ht
      exact h.history q asked t hasks hfound
  · obtain ⟨key, hasks, hfound⟩ := hasked hc htc
    obtain ⟨key', hasks', hfound'⟩ := hasked hc' htc'
    rw [h.single p hp key key' hasks hasks'] at hfound
    exact Option.some.inj (hfound.symm.trans hfound')

/-- All that a value asks for becomes active. -/
theorem mem_resolve_of_asks (hanswered : d.Answered rootIndex value states)
    (hasks : d.Asks rootIndex value q asked) (hfound : d.childByKey? q asked = some c) :
    c ∈ d.resolve .empty (rootIndex :: states) := by
  rw [wf.mem_resolve (wf.lt_of_answered hanswered) (List.cons_ne_nil _ _)]
  have hmem : c ∈ states := (hanswered.mem c).mpr ⟨q, asked, hasks, hfound⟩
  exact wf.filled_of_targeted ⟨c, List.mem_cons_of_mem _ hmem, .refl c⟩
    (wf.child_lt (childByKey?_mem hfound))

/-- What a value is completed to is valid exactly if the value asks for nothing that cannot be active
together. -/
theorem isValid_iff_fits (hanswered : d.Answered rootIndex value states) :
    d.isValid (d.resolve .empty (rootIndex :: states)) = true ↔ d.Fits value := by
  constructor
  · intro hvalid
    have hat := fun {i} (hi : i < d.nodes.size) hact =>
      (wf.isValidAt_iff hi).mp (isValidAt_of_valid hvalid hact)
    constructor
    · intro p hp key key' hasks hasks'
      obtain ⟨c, hfound⟩ := hanswered.found p key hasks
      obtain ⟨c', hfound'⟩ := hanswered.found p key' hasks'
      have hact := wf.mem_resolve_of_asks hanswered hasks hfound
      have hact' := wf.mem_resolve_of_asks hanswered hasks' hfound'
      have hparent := wf.mem_children.mp (childByKey?_mem hfound)
      have hlt := wf.parent_lt hparent
      obtain ⟨_, -, -, hunique⟩ := (hat (Nat.lt_trans hlt.1 hlt.2)
        (wf.parent_mem_of_valid hvalid hact hparent)).2.1 hp
      have hsame : c = c' := (hunique c (childByKey?_mem hfound) hact).trans
        (hunique c' (childByKey?_mem hfound') hact').symm
      rw [← key_of_childByKey? hfound, ← key_of_childByKey? hfound', hsame]
    · intro p key c hasks hfound
      exact (hat (wf.child_lt (childByKey?_mem hfound))
        (wf.mem_resolve_of_asks hanswered hasks hfound)).2.2.2
  · intro hfits
    have hpossible : d.Possible (d.resolve .empty (rootIndex :: states)) :=
      wf.possible_resolve (wf.agreeing_of_fits hfits hanswered) (List.cons_ne_nil _ _)
    exact (wf.possible_iff.mp hpossible).1

end WellFormed

end Definition

namespace Machine

variable {m : Machine} {scope scope' : Scope} {stored : PersistedSnapshot} {s : MachineSnapshot}

theorem restoreOwn_config (h : m.restoreOwn stored = .ok s) :
    ∃ value, stored.value = some value ∧ m.definition.ofValue value = .ok s.config := by
  unfold restoreOwn at h
  cases hvalue : stored.value with
  | none =>
      rw [hvalue] at h
      cases h
  | some value =>
      rw [hvalue] at h
      obtain ⟨_, hsame, h⟩ := Except.bind_eq_ok.mp h
      cases hsame
      obtain ⟨config, hconfig, h⟩ := Except.bind_eq_ok.mp h
      obtain ⟨history, -, h⟩ := Except.bind_eq_ok.mp h
      cases h
      exact ⟨value, rfl, hconfig⟩

/-- A machine that is restored is in the configuration that its stored value is completed to. -/
theorem restore_config (h : m.restore scope stored = (scope', .ok s)) :
    ∃ value, stored.value = some value ∧ m.definition.ofValue value = .ok s.config := by
  unfold restore at h
  simp only at h
  split at h
  · cases h
  · rename_i own hown
    split at h <;> cases h
    exact restoreOwn_config (s := own) hown

/-- A state value either asks a state for a child that it does not have, and is refused for this, or
it is completed to a configuration in which all that it asks for is active. That configuration is
valid exactly if what the value asks for can be active together. Restoring does not look into this
any further. -/
theorem restored_valid_iff {json : Json} (hjson : Definition.ofJson json = .ok m.definition) :
    (∀ value, (∃ p key, m.definition.Asks Definition.rootIndex value p key ∧
        m.definition.childByKey? p key = none ∧
        m.definition.ofValue value = .error (m.definition.noChild p key)) ∨
      ∃ config, m.definition.ofValue value = .ok config ∧
        (∀ p key, m.definition.Asks Definition.rootIndex value p key →
          ∃ c ∈ config, m.definition.childByKey? p key = some c) ∧
        (m.definition.isValid config = true ↔ m.definition.Fits value)) ∧
    ∀ (scope scope' : Scope) (stored : PersistedSnapshot) (s : MachineSnapshot),
      m.restore scope stored = (scope', .ok s) → ∃ value, stored.value = some value ∧
        m.definition.ofValue value = .ok s.config ∧
        (m.definition.isValid s.config = true ↔ m.definition.Fits value) := by
  have wf := Definition.wellFormed_of_ofJson hjson
  -- a configuration that is read is the completion of the states that the value names
  have hread : ∀ {value config}, m.definition.ofValue value = .ok config → ∃ states,
      m.definition.Answered Definition.rootIndex value states ∧
        config = m.definition.resolve .empty (Definition.rootIndex :: states) := by
    intro value config h
    obtain ⟨states, hnamed, h⟩ := Except.bind_eq_ok.mp h
    cases h
    exact ⟨states, Definition.named_ok hnamed, rfl⟩
  refine ⟨fun value => ?_, fun scope scope' stored s hrestore => ?_⟩
  · cases hvalue : m.definition.ofValue value with
    | error e =>
        rcases Except.bind_eq_error.mp hvalue with herror | ⟨_, _, h⟩
        · obtain ⟨p, key, hasks, hmissing, rfl⟩ := Definition.named_error herror
          exact .inl ⟨p, key, hasks, hmissing, rfl⟩
        · cases h
    | ok config =>
        obtain ⟨states, hanswered, rfl⟩ := hread hvalue
        refine .inr ⟨_, rfl, fun p key hasks => ?_, wf.isValid_iff_fits hanswered⟩
        obtain ⟨c, hfound⟩ := hanswered.found p key hasks
        exact ⟨c, wf.mem_resolve_of_asks hanswered hasks hfound, hfound⟩
  · obtain ⟨value, hvalue, hconfig⟩ := restore_config hrestore
    obtain ⟨states, hanswered, hsame⟩ := hread hconfig
    exact ⟨value, hvalue, hconfig, hsame ▸ wf.isValid_iff_fits hanswered⟩

/-- A machine in one of two states. -/
def switchJson : Json :=
  .obj [("id", .str "switch"), ("initial", .str "off"), ("states", .obj
    [("off", .obj []), ("on", .obj [])])]

def switch : Machine where
  definition := (Definition.ofJson switchJson).toOption.getD default
  implementations := default
  spawn := default

theorem switch_ofJson : Definition.ofJson switchJson = .ok switch.definition := by
  have hread : (Definition.ofJson (L := Logic) switchJson).isOk = true := by decide +kernel
  exact ok_of_isOk hread

/-- A value that asks for both states. -/
def bothStates : StateValue := .branch [("off", .branch []), ("on", .branch [])]

theorem switch_reads_both : ∃ config, switch.definition.ofValue bothStates = .ok config ∧
    switch.definition.isValid config = false := by
  have hread : (switch.definition.ofValue bothStates).isOk = true := by decide +kernel
  exact ⟨_, ok_of_isOk hread, by decide +kernel⟩

/-- One of the two states fits, both do not. -/
theorem switch_fits : switch.definition.Fits (.leaf "on") ∧
    ¬ switch.definition.Fits bothStates := by
  have hread := (restored_valid_iff switch_ofJson).1
  constructor
  · have hok : (switch.definition.ofValue (.leaf "on")).isOk = true := by decide +kernel
    rcases hread (.leaf "on") with ⟨_, _, -, -, herror⟩ | ⟨config, hconfig, -, hiff⟩
    · rw [herror] at hok
      cases hok
    · obtain rfl := Except.ok.inj ((ok_of_isOk hok).symm.trans hconfig)
      exact hiff.mp (by decide +kernel)
  · obtain ⟨config, hconfig, hinvalid⟩ := switch_reads_both
    rcases hread bothStates with ⟨_, _, -, -, herror⟩ | ⟨config', hconfig', -, hiff⟩
    · cases hconfig.symm.trans herror
    · cases hconfig.symm.trans hconfig'
      exact fun hfits => absurd (hiff.mpr hfits) (by simp [hinvalid])

/-- Both are restored all the same. -/
theorem switch_restores_both : ¬∀ (m : Machine) (json : Json),
    Definition.ofJson json = .ok m.definition → ∀ value : StateValue,
      (∃ message, m.definition.ofValue value = .error (.restore message)) ∨
        ∃ config, m.definition.ofValue value = .ok config ∧
          m.definition.isValid config = true := by
  intro hall
  obtain ⟨config, hconfig, hinvalid⟩ := switch_reads_both
  rcases hall switch switchJson switch_ofJson bothStates with ⟨_, herror⟩ | ⟨_, hok, hvalid⟩
  · cases hconfig.symm.trans herror
  · cases hconfig.symm.trans hok
    exact absurd hvalid (by simp [hinvalid])

end Machine

end Statechart
