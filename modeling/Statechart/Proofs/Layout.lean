import Mathlib.Data.List.Range
import Statechart.Definition.Build

/-!
# Document order

The layout of a written tree numbers its states in document order. `Spans` collects what the rest of
the theory uses of it: the positions of a tree are an interval, every parent stands before its
children, and a subtree is the interval from its root to its end. Two intervals that follow each
other under one parent join (`Spans.append`), and an interval joins the state above it
(`Spans.cons`), which are the two ways in which a layout grows.
-/

namespace Statechart

/-- The outlines of the positions from `lo` up to `hi`, which lie under `top`. -/
structure Spans (lo hi : Nat) (top : Option Nat) (os : List Outline) : Prop where
  le : lo ≤ hi
  index : os.map Outline.index = List.range' lo (hi - lo)
  subtree : ∀ o ∈ os, o.index < o.subtreeEnd ∧ o.subtreeEnd ≤ hi
  parent : ∀ o ∈ os, o.parent = top ∨ ∃ p, o.parent = some p ∧ lo ≤ p ∧ p < o.index
  nested : ∀ o ∈ os, ∀ o' ∈ os, o.index < o'.index →
    (o'.index < o.subtreeEnd ↔ ∃ p, o'.parent = some p ∧ o.index ≤ p ∧ p < o.subtreeEnd)
  children : ∀ o ∈ os, ∀ c, c ∈ o.children ↔ ∃ o' ∈ os, o'.index = c ∧ o'.parent = some o.index
  sorted : ∀ o ∈ os, o.children.Pairwise (· < ·)

namespace Spans

variable {lo mid hi : Nat} {top : Option Nat} {os os' : List Outline}

/-- A position of an interval lies in it. -/
theorem bounds (h : Spans lo hi top os) {o : Outline} (ho : o ∈ os) :
    lo ≤ o.index ∧ o.index < hi := by
  have hmem : o.index ∈ os.map Outline.index := List.mem_map_of_mem ho
  rw [h.index, List.mem_range'_1] at hmem
  have := h.le
  omega

/-- A parent stands right above the interval, or in it before its child. -/
theorem parent_cases (h : Spans lo hi top os) {o : Outline} (ho : o ∈ os) {q : Nat}
    (hq : o.parent = some q) : top = some q ∨ lo ≤ q ∧ q < o.index := by
  rcases h.parent o ho with htop | ⟨r, hr, hlo, hlt⟩
  · exact .inl (htop.symm.trans hq)
  · rw [hr] at hq
    cases hq
    exact .inr ⟨hlo, hlt⟩

theorem parent_ne {p : Nat} (h : Spans lo hi (some p) os) {o : Outline} (ho : o ∈ os) {q : Nat}
    (hne : q ≠ p) (hout : q < lo ∨ hi ≤ q) : o.parent ≠ some q := by
  intro hq
  have hb := h.bounds ho
  rcases h.parent_cases ho hq with htop | ⟨hlo, hlt⟩
  · exact hne (Option.some.inj htop).symm
  · omega

/-- Two intervals that follow each other under one parent are one interval. -/
theorem append {p : Nat} (hp : p < lo) (h : Spans lo mid (some p) os)
    (h' : Spans mid hi (some p) os') : Spans lo hi (some p) (os ++ os') where
  le := h.le.trans h'.le
  index := by
    have hle := h.le
    have hle' := h'.le
    rw [List.map_append, h.index, h'.index, show hi - lo = (mid - lo) + (hi - mid) by omega,
      ← List.range'_append_1, show lo + (mid - lo) = mid by omega]
  subtree o ho := by
    rcases List.mem_append.mp ho with ho | ho
    · have hs := h.subtree o ho
      have hle' := h'.le
      omega
    · exact h'.subtree o ho
  parent o ho := by
    rcases List.mem_append.mp ho with ho | ho
    · exact h.parent o ho
    · exact (h'.parent o ho).imp_right fun ⟨q, hq, hlo, hlt⟩ => ⟨q, hq, h.le.trans hlo, hlt⟩
  nested o ho o' ho' hlt := by
    rcases List.mem_append.mp ho with ho | ho <;> rcases List.mem_append.mp ho' with ho' | ho'
    · exact h.nested o ho o' ho' hlt
    · -- the second interval begins after every subtree of the first
      have hb := h.bounds ho
      have hs := h.subtree o ho
      have hb' := h'.bounds ho'
      refine ⟨fun hin => by omega, ?_⟩
      rintro ⟨q, hq, hlo, hhi⟩
      exact absurd hq (h'.parent_ne ho' (by omega) (by omega))
    · have hb := h.bounds ho'
      have hb' := h'.bounds ho
      omega
    · exact h'.nested o ho o' ho' hlt
  -- nobody in one of the intervals has a parent in the other one
  children o ho c := by
    rcases List.mem_append.mp ho with ho | ho
    · have hb := h.bounds ho
      rw [h.children o ho]
      constructor
      · rintro ⟨o', ho', hc⟩
        exact ⟨o', List.mem_append_left _ ho', hc⟩
      · rintro ⟨o', ho', hc, hq⟩
        rcases List.mem_append.mp ho' with ho' | ho'
        · exact ⟨o', ho', hc, hq⟩
        · exact absurd hq (h'.parent_ne ho' (by omega) (by omega))
    · have hb := h'.bounds ho
      have hle := h.le
      rw [h'.children o ho]
      constructor
      · rintro ⟨o', ho', hc⟩
        exact ⟨o', List.mem_append_right _ ho', hc⟩
      · rintro ⟨o', ho', hc, hq⟩
        rcases List.mem_append.mp ho' with ho' | ho'
        · exact absurd hq (h.parent_ne ho' (by omega) (by omega))
        · exact ⟨o', ho', hc, hq⟩
  sorted o ho := by
    rcases List.mem_append.mp ho with ho | ho
    · exact h.sorted o ho
    · exact h'.sorted o ho

/-- An interval and the state right before it, which is the parent of its topmost states. -/
theorem cons {o : Outline} (htop : ∀ p, top = some p → p < o.index)
    (h : Spans (o.index + 1) o.subtreeEnd (some o.index) os) (hparent : o.parent = top)
    (hchildren : ∀ c, c ∈ o.children ↔ ∃ o' ∈ os, o'.index = c ∧ o'.parent = some o.index)
    (hsorted : o.children.Pairwise (· < ·)) :
    Spans o.index o.subtreeEnd top (o :: os) where
  le := Nat.le_of_succ_le h.le
  index := by
    have hle := h.le
    rw [List.map_cons, h.index,
      show o.subtreeEnd - o.index = (o.subtreeEnd - (o.index + 1)) + 1 by omega, List.range'_succ]
  subtree x hx := by
    rcases List.mem_cons.mp hx with rfl | hx
    · exact ⟨h.le, le_refl _⟩
    · exact h.subtree x hx
  parent x hx := by
    rcases List.mem_cons.mp hx with rfl | hx
    · exact .inl hparent
    · have hb := h.bounds hx
      rcases h.parent x hx with hp | ⟨p, hp, hlo, hlt⟩
      · exact .inr ⟨o.index, hp, le_refl _, by omega⟩
      · exact .inr ⟨p, hp, by omega, hlt⟩
  nested x hx x' hx' hlt := by
    rcases List.mem_cons.mp hx with rfl | hin <;> rcases List.mem_cons.mp hx' with rfl | hin'
    · omega
    · have hb := h.bounds hin'
      refine ⟨fun _ => ?_, fun _ => hb.2⟩
      rcases h.parent x' hin' with hp | ⟨p, hp, hlo, hlt'⟩
      · exact ⟨_, hp, le_refl _, by omega⟩
      · exact ⟨p, hp, by omega, by omega⟩
    · have hb := h.bounds hin
      omega
    · exact h.nested x hin x' hin' hlt
  -- the parent of the state in front lies before it, and so is none of those here
  children x hx c := by
    have hfront : ∀ q, o.index ≤ q → o.parent ≠ some q := fun q hle hq => by
      have hlt := htop q (hparent.symm.trans hq)
      omega
    rcases List.mem_cons.mp hx with rfl | hx
    · rw [hchildren]
      constructor
      · rintro ⟨x', hx', hc⟩
        exact ⟨x', List.mem_cons_of_mem _ hx', hc⟩
      · rintro ⟨x', hx', hc, hp⟩
        rcases List.mem_cons.mp hx' with rfl | hx'
        · exact absurd hp (hfront _ (le_refl _))
        · exact ⟨x', hx', hc, hp⟩
    · have hb := h.bounds hx
      rw [h.children x hx]
      constructor
      · rintro ⟨x', hx', hc⟩
        exact ⟨x', List.mem_cons_of_mem _ hx', hc⟩
      · rintro ⟨x', hx', hc, hp⟩
        rcases List.mem_cons.mp hx' with rfl | hx'
        · exact absurd hp (hfront _ (by omega))
        · exact ⟨x', hx', hc, hp⟩
  sorted x hx := by
    rcases List.mem_cons.mp hx with rfl | hx
    · exact hsorted
    · exact h.sorted x hx

/-- Of the subtree of its first state, an interval has only that state under an earlier one. -/
theorem eq_lo_of_parent (h : Spans lo hi top os) {o x : Outline} {p : Nat} (ho : o ∈ os)
    (hindex : o.index = lo) (hend : o.subtreeEnd = hi) (hlt : p < lo) (hx : x ∈ os)
    (hp : x.parent = some p) : x.index = lo := by
  by_contra hne
  have hb := h.bounds hx
  obtain ⟨q, hq, hlo, _⟩ := (h.nested o ho x hx (by omega)).mp (by omega)
  rw [hp] at hq
  cases hq
  omega

end Spans

namespace StateConfig

/-! ## Layouts are intervals -/

theorem le_of_mem_positions {start c : Nat} : ∀ {states : List (String × StateConfig)},
    c ∈ positions start states → start ≤ c
  | [], h => by simp [positions] at h
  | (_, state) :: rest, h => by
      rcases List.mem_cons.mp h with rfl | h
      · exact le_refl _
      · exact le_trans (Nat.le_add_right _ _) (le_of_mem_positions h)

theorem size_pos : ∀ c : StateConfig, 0 < size c
  | .node _ none => by simp [size]
  | .node _ (some _) => by simp [size]

theorem positions_sorted : ∀ (start : Nat) (states : List (String × StateConfig)),
    (positions start states).Pairwise (· < ·)
  | _, [] => .nil
  | start, (_, state) :: rest => by
      refine .cons (fun c hc => ?_) (positions_sorted (start + size state) rest)
      have := le_of_mem_positions hc
      have := size_pos state
      omega

/-- A layout begins with the root of the tree. -/
theorem layout_head (index : Nat) (key : String) (parent : Option Nat) (path : List String)
    (c : StateConfig) : ∃ o rest, layout index key parent path c = o :: rest ∧ o.index = index ∧
      o.parent = parent ∧ o.key = key ∧ o.subtreeEnd = index + size c := by
  match c with
  | .node _ none => exact ⟨_, _, rfl, rfl, rfl, rfl, rfl⟩
  | .node _ (some states) => exact ⟨_, _, rfl, rfl, rfl, rfl, by simp only [size]; omega⟩

mutual

/-- The layout of a tree is an interval. -/
theorem spans_layout (index : Nat) (key : String) (parent : Option Nat) (path : List String)
    (hparent : ∀ p, parent = some p → p < index) : ∀ c : StateConfig,
      Spans index (index + size c) parent (layout index key parent path c)
  | .node attributes none => by
      have hnone : Spans (index + 1) (index + 1) (some index) [] :=
        ⟨le_refl _, by simp, by simp, by simp, by simp, by simp, by simp⟩
      have h := Spans.cons
        (o := { index, key, parent, path, children := [], subtreeEnd := index + 1, attributes })
        hparent hnone rfl (by simp) .nil
      simpa only [layout, size] using h
  | .node attributes (some states) => by
      have hall := spans_layoutAll (index + 1) index path (Nat.lt_succ_self _) states
      have h := Spans.cons
        (o := { index, key, parent, path, children := positions (index + 1) states
                subtreeEnd := index + 1 + sizeAll states, attributes })
        hparent hall.1 rfl hall.2 (positions_sorted _ _)
      simpa only [layout, size, Nat.add_assoc, Nat.add_comm 1] using h

/-- The layouts of neighbours are an interval, whose topmost states stand at `positions`. -/
theorem spans_layoutAll (start parent : Nat) (path : List String) (hparent : parent < start) :
    ∀ states : List (String × StateConfig),
      Spans start (start + sizeAll states) (some parent) (layoutAll start parent path states) ∧
        ∀ c, c ∈ positions start states ↔
          ∃ o ∈ layoutAll start parent path states, o.index = c ∧ o.parent = some parent
  | [] => by
      refine ⟨⟨le_refl _, ?_, ?_, ?_, ?_, ?_, ?_⟩, ?_⟩ <;> simp [layoutAll, sizeAll, positions]
  | (key, state) :: rest => by
      have hfirst := spans_layout start key (some parent) (path ++ [key])
        (by rintro p hp; cases hp; exact hparent) state
      obtain ⟨hrest, hpositions⟩ :=
        spans_layoutAll (start + size state) parent path (by omega) rest
      obtain ⟨o, tail, hlayout, hindex, hopar, -, hend⟩ :=
        layout_head start key (some parent) (path ++ [key]) state
      refine ⟨?_, fun c => ?_⟩
      · have h := Spans.append hparent hfirst hrest
        simpa only [layoutAll, sizeAll, Nat.add_assoc] using h
      · simp only [positions, layoutAll, List.mem_cons, List.mem_append, hpositions]
        constructor
        · rintro (rfl | ⟨o', ho', hc⟩)
          · exact ⟨o, .inl (by rw [hlayout]; exact List.mem_cons_self), hindex, hopar⟩
          · exact ⟨o', .inr ho', hc⟩
        · rintro ⟨o', ho' | ho', hc, hp⟩
          · -- the top of a tree is the only one in it with that parent
            left
            rw [← hc]
            exact hfirst.eq_lo_of_parent (by rw [hlayout]; exact List.mem_cons_self) hindex hend
              hparent ho' hp
          · exact .inr ⟨o', ho', hc, hp⟩

end

/-! ## Paths -/

mutual

/-- A state of a layout is its root, or its path is one key longer than that of its parent. -/
theorem layout_path (index : Nat) (key : String) (parent : Option Nat) (path : List String) :
    ∀ (c : StateConfig), ∀ o ∈ layout index key parent path c,
      (o.parent = parent ∧ o.path = path) ∨ ∃ p ∈ layout index key parent path c,
        o.parent = some p.index ∧ o.path.length = p.path.length + 1
  | .node attributes none, o, ho => by
      simp only [layout, List.mem_singleton] at ho
      subst ho
      exact .inl ⟨rfl, rfl⟩
  | .node attributes (some states), o, ho => by
      simp only [layout, List.mem_cons] at ho ⊢
      rcases ho with rfl | ho
      · exact .inl ⟨rfl, rfl⟩
      · rcases layoutAll_path (index + 1) index path states o ho with ⟨hp, hlen⟩ | ⟨p, hp, hrest⟩
        · exact .inr ⟨_, .inl rfl, hp, hlen⟩
        · exact .inr ⟨p, .inr hp, hrest⟩

theorem layoutAll_path (start parent : Nat) (path : List String) :
    ∀ (states : List (String × StateConfig)), ∀ o ∈ layoutAll start parent path states,
      (o.parent = some parent ∧ o.path.length = path.length + 1) ∨
        ∃ p ∈ layoutAll start parent path states,
          o.parent = some p.index ∧ o.path.length = p.path.length + 1
  | [], o, ho => by simp [layoutAll] at ho
  | (key, state) :: rest, o, ho => by
      simp only [layoutAll, List.mem_append] at ho ⊢
      rcases ho with ho | ho
      · rcases layout_path start key (some parent) (path ++ [key]) state o ho with
          ⟨hp, hpath⟩ | ⟨p, hp, hrest⟩
        · exact .inl ⟨hp, by simp [hpath]⟩
        · exact .inr ⟨p, .inl hp, hrest⟩
      · rcases layoutAll_path (start + size state) parent path rest o ho with
          htop | ⟨p, hp, hrest⟩
        · exact .inl htop
        · exact .inr ⟨p, .inr hp, hrest⟩

end

/-! ## Keys -/

mutual

/-- Every state of a tree gives its children different keys. -/
def KeysDistinct : StateConfig → Prop
  | .node _ none => True
  | .node _ (some states) => (states.map Prod.fst).Nodup ∧ KeysDistinctAll states

def KeysDistinctAll : List (String × StateConfig) → Prop
  | [] => True
  | (_, state) :: rest => KeysDistinct state ∧ KeysDistinctAll rest

end

/-- Of a tree, only the root has a parent outside of it. -/
theorem eq_head_of_parent {start parent : Nat} {key : String} {path : List String}
    {state : StateConfig} (hparent : parent < start) {o : Outline}
    (ho : o ∈ layout start key (some parent) path state) (hp : o.parent = some parent) :
    o.index = start ∧ o.key = key := by
  have h := spans_layout start key (some parent) path
    (by rintro p hp; cases hp; exact hparent) state
  obtain ⟨x, rest, hlayout, hindex, -, hkey, hend⟩ :=
    layout_head start key (some parent) path state
  have heq := h.eq_lo_of_parent (by rw [hlayout]; exact List.mem_cons_self) hindex hend hparent
    ho hp
  refine ⟨heq, ?_⟩
  rw [hlayout] at ho
  rcases List.mem_cons.mp ho with rfl | hrest
  · exact hkey
  · -- positions are pairwise different
    have hnodup : ((layout start key (some parent) path state).map Outline.index).Nodup := by
      rw [h.index]
      exact List.nodup_range'
    rw [hlayout, List.map_cons, List.nodup_cons] at hnodup
    exact absurd (List.mem_map.mpr ⟨o, hrest, heq.trans hindex.symm⟩) hnodup.1

/-- The topmost states of neighbouring trees have the keys of these trees. -/
theorem key_mem_of_layoutAll (start parent : Nat) (path : List String) (hparent : parent < start) :
    ∀ (states : List (String × StateConfig)) (o : Outline),
      o ∈ layoutAll start parent path states → o.parent = some parent →
        o.key ∈ states.map Prod.fst
  | [], _, ho, _ => by simp [layoutAll] at ho
  | (key, state) :: rest, o, ho, hp => by
      rw [layoutAll, List.mem_append] at ho
      rcases ho with ho | ho
      · have hkey := (eq_head_of_parent hparent ho hp).2
        rw [hkey]
        exact List.mem_cons_self
      · exact List.mem_cons_of_mem _
          (key_mem_of_layoutAll (start + size state) parent path (by omega) rest o ho hp)

/-- Under one parent, neighbouring trees with different keys have states with different keys. -/
theorem key_ne_of_neighbours {start parent : Nat} {key : String} {path : List String}
    {state : StateConfig} {rest : List (String × StateConfig)} (hparent : parent < start)
    (hkey : key ∉ rest.map Prod.fst) {x y : Outline} {p : Nat}
    (hx : x ∈ layout start key (some parent) (path ++ [key]) state)
    (hy : y ∈ layoutAll (start + size state) parent path rest) (hxp : x.parent = some p)
    (hyp : y.parent = some p) : x.key ≠ y.key := by
  have hfirst := spans_layout start key (some parent) (path ++ [key])
    (by rintro p hp; cases hp; exact hparent) state
  have hrest := (spans_layoutAll (start + size state) parent path (by omega) rest).1
  -- they share a parent only as topmost states
  have hpar : parent = p := by
    have hb := hfirst.bounds hx
    rcases hrest.parent_cases hy hyp with htop | ⟨hlo, -⟩
    · exact Option.some.inj htop
    · rcases hfirst.parent_cases hx hxp with htop | ⟨-, hlt⟩
      · exact Option.some.inj htop
      · omega
  subst hpar
  intro hxy
  rw [← (eq_head_of_parent hparent hx hxp).2, hxy] at hkey
  exact hkey (key_mem_of_layoutAll _ _ _ (by omega) rest y hy hyp)

mutual

/-- In a tree with distinct keys, a parent and a key name one state of the layout. -/
theorem layout_key (index : Nat) (key : String) (parent : Option Nat) (path : List String)
    (hparent : ∀ p, parent = some p → p < index) : ∀ (c : StateConfig), KeysDistinct c →
      ∀ o ∈ layout index key parent path c, ∀ o' ∈ layout index key parent path c, ∀ p,
        o.parent = some p → o'.parent = some p → index ≤ p → o.key = o'.key → o.index = o'.index
  | .node _ none, _, o, ho, o', ho', p, _, _, _, _ => by
      simp only [layout, List.mem_singleton] at ho ho'
      rw [ho, ho']
  | .node _ (some states), hkeys, o, ho, o', ho', p, hp, hp', hle, hkey => by
      simp only [layout, List.mem_cons] at ho ho'
      have hroot : ∀ {x : Outline}, x.parent = parent → x.parent = some p → False := by
        intro x hx hxp
        rw [hx] at hxp
        have := hparent p hxp
        omega
      rcases ho with rfl | ho
      · exact absurd hp (fun h => hroot rfl h)
      · rcases ho' with rfl | ho'
        · exact absurd hp' (fun h => hroot rfl h)
        · exact layoutAll_key (index + 1) index path (Nat.lt_succ_self _) states hkeys.1 hkeys.2
            o ho o' ho' p hp hp' hkey

theorem layoutAll_key (start parent : Nat) (path : List String) (hparent : parent < start) :
    ∀ (states : List (String × StateConfig)), (states.map Prod.fst).Nodup →
      KeysDistinctAll states → ∀ o ∈ layoutAll start parent path states,
        ∀ o' ∈ layoutAll start parent path states, ∀ p,
          o.parent = some p → o'.parent = some p → o.key = o'.key → o.index = o'.index
  | [], _, _, o, ho, _, _, _, _, _, _ => by simp [layoutAll] at ho
  | (key, state) :: rest, hnodup, hkeys, o, ho, o', ho', p, hp, hp', hkey => by
      rw [List.map_cons, List.nodup_cons] at hnodup
      rw [layoutAll, List.mem_append] at ho ho'
      rcases ho with ho | ho <;> rcases ho' with ho' | ho'
      · have htop : ∀ p, some parent = some p → p < start := by
          rintro p ⟨⟩
          exact hparent
        by_cases hle : start ≤ p
        · exact layout_key start key (some parent) (path ++ [key]) htop state hkeys.1 o ho o' ho' p
            hp hp' hle hkey
        · -- both are the root of the first tree
          have hfirst := spans_layout start key (some parent) (path ++ [key]) htop state
          rcases hfirst.parent_cases ho hp with heq | ⟨hlo, -⟩
          · cases heq
            rw [(eq_head_of_parent hparent ho hp).1, (eq_head_of_parent hparent ho' hp').1]
          · exact absurd hlo hle
      · exact absurd hkey (key_ne_of_neighbours hparent hnodup.1 ho ho' hp hp')
      · exact absurd hkey.symm (key_ne_of_neighbours hparent hnodup.1 ho' ho hp' hp)
      · exact layoutAll_key (start + size state) parent path (by omega) rest hnodup.2 hkeys.2
          o ho o' ho' p hp hp' hkey

end

end StateConfig

end Statechart
