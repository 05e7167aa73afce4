import Statechart.Proofs.Words

/-!
# The grammar of guards

`Phrase` says which texts stand for an expression, with all the white space and the parentheses that
the grammar leaves free, and with no order in which a text is read. Its parts bind at three levels:
conditions joined by `||`, conditions joined by `&&`, and what stands between those signs.

The parser is compared with it in both directions (`Expr.parse_eq_ok_iff`): a text is read as an
expression if and only if it is a written form of it, where a path may have an empty name before the
first one. A text therefore has one meaning at most (`Expr.Written.unique`). What the grammar itself
calls a written form is always read (`Expr.parse_of_written`), and what is read is one unless a path
in it begins with an empty name (`Expr.written_of_accepted`).
-/

namespace Statechart.Guard

/-! ## Written forms -/

/-- What stands behind a field: nothing, or a sign with a constant or a number. -/
inductive Comparison (f : Field) : Expr → List Char → Prop where
  | truthy : Comparison f (.truthy f) []
  | eq {l : Literal} {ws ws' text : List Char} (hws : Blank ws) (hws' : Blank ws')
      (h : l.Written text) : Comparison f (.eq f l) (ws ++ ('=' :: '=' :: (ws' ++ text)))
  | ne {l : Literal} {ws ws' text : List Char} (hws : Blank ws) (hws' : Blank ws')
      (h : l.Written text) : Comparison f (.ne f l) (ws ++ ('!' :: '=' :: (ws' ++ text)))
  | order (o : Order) {n : Numeral} {ws ws' : List Char} (hws : Blank ws) (hws' : Blank ws')
      (h : n.Valid) : Comparison f (.compare f o n.value) (ws ++ (o.sign ++ (ws' ++ n.text)))

/-- How tightly an expression holds together: it joins parts by `||`, or by `&&`, or it is one. -/
inductive Level where
  | or
  | and
  | unary

/-- The texts of an expression at a level, where `paths` says what a path is. White space stands
before every word. -/
inductive Phrase (paths : List String → Prop) : Level → Expr → List Char → Prop where
  | comparison {f : Field} {e : Expr} {ws text : List Char} (hws : Blank ws) (hf : paths f.path)
      (h : Comparison f e text) : Phrase paths .unary e (ws ++ (f.text ++ text))
  | not {e : Expr} {ws text : List Char} (hws : Blank ws) (h : Phrase paths .unary e text) :
      Phrase paths .unary (.not e) (ws ++ '!' :: text)
  | parens {e : Expr} {ws ws' text : List Char} (hws : Blank ws) (hws' : Blank ws')
      (h : Phrase paths .or e text) : Phrase paths .unary e (ws ++ '(' :: (text ++ (ws' ++ [')'])))
  | ofUnary {e : Expr} {text : List Char} (h : Phrase paths .unary e text) : Phrase paths .and e text
  | and {a b : Expr} {ws text text' : List Char} (ha : Phrase paths .and a text) (hws : Blank ws)
      (hb : Phrase paths .unary b text') :
      Phrase paths .and (.and a b) (text ++ (ws ++ ('&' :: '&' :: text')))
  | ofAnd {e : Expr} {text : List Char} (h : Phrase paths .and e text) : Phrase paths .or e text
  | or {a b : Expr} {ws text text' : List Char} (ha : Phrase paths .or a text) (hws : Blank ws)
      (hb : Phrase paths .and b text') :
      Phrase paths .or (.or a b) (text ++ (ws ++ ('|' :: '|' :: text')))

/-- A written form of an expression, with white space at its end. -/
def Expr.Written (paths : List String → Prop) (e : Expr) (text : String) : Prop :=
  ∃ phrase ws, Phrase paths .or e phrase ∧ Blank ws ∧ text.toList = phrase ++ ws

/-- The fields that an expression reads. -/
def Expr.fields : Expr → List Field
  | .truthy f => [f]
  | .eq f _ => [f]
  | .ne f _ => [f]
  | .compare f _ _ => [f]
  | .and a b => a.fields ++ b.fields
  | .or a b => a.fields ++ b.fields
  | .not e => e.fields

theorem Comparison.fields {f : Field} {e : Expr} {text : List Char} (h : Comparison f e text) :
    e.fields = [f] := by
  cases h <;> rfl

/-- The fields of what is written are written as `paths` says. -/
theorem Phrase.fields {paths : List String → Prop} {level : Level} {e : Expr} {text : List Char}
    (h : Phrase paths level e text) : ∀ f ∈ e.fields, paths f.path := by
  induction h with
  | comparison hws hf h =>
      rw [h.fields]
      intro f' hf'
      rw [List.mem_singleton.mp hf']
      exact hf
  | not _ _ ih | parens _ _ _ ih | ofUnary _ ih | ofAnd _ ih => exact ih
  | and _ _ _ iha ihb | or _ _ _ iha ihb =>
      exact fun f hf => (List.mem_append.mp hf).elim (iha f) (ihb f)

/-- A written form is one under any notion of path that its fields satisfy. -/
theorem Phrase.of_fields {paths paths' : List String → Prop} {level : Level} {e : Expr}
    {text : List Char} (h : Phrase paths level e text) :
    (∀ f ∈ e.fields, paths' f.path) → Phrase paths' level e text := by
  induction h with
  | comparison hws hf h =>
      intro hall
      exact .comparison hws (hall _ (by rw [h.fields]; exact List.mem_singleton.mpr rfl)) h
  | not hws _ ih => exact fun hall => .not hws (ih hall)
  | parens hws hws' _ ih => exact fun hall => .parens hws hws' (ih hall)
  | ofUnary _ ih => exact fun hall => .ofUnary (ih hall)
  | ofAnd _ ih => exact fun hall => .ofAnd (ih hall)
  | and _ hws _ iha ihb =>
      intro hall
      exact .and (iha fun f hf => hall f (List.mem_append_left _ hf)) hws
        (ihb fun f hf => hall f (List.mem_append_right _ hf))
  | or _ hws _ iha ihb =>
      intro hall
      exact .or (iha fun f hf => hall f (List.mem_append_left _ hf)) hws
        (ihb fun f hf => hall f (List.mem_append_right _ hf))

/-! ## Comparisons -/

/-- What may stand behind an expression without a sign that joins it to more. -/
theorem not_path_of_next {rest : List Char} (h : Next [')', '|', '&'] rest) :
    ∀ c ∈ rest.head?, isPathChar c = false :=
  h.not_path (List.all_iff_forall_prop.mp (by decide))

/-- A sign, with the white space before it, ends a field. -/
theorem field?_sign {f : Field} (hf : IsLoosePath f.path) {ws ws' : List Char} (hws : Blank ws)
    (hws' : Blank ws') {c : Char} (hc : c ∈ ['=', '!', '<', '>']) (more : List Char) :
    field? (ws ++ (f.text ++ (ws' ++ c :: more))) = .ok (f, ws' ++ c :: more) := by
  have hblank : ∀ c ∈ ['=', '!', '<', '>'], Text.isBlank c = false :=
    List.all_iff_forall_prop.mp (by decide)
  have hnext : Next ['=', '!', '<', '>'] (ws' ++ c :: more) := next_cons hws' (hblank c hc) hc more
  exact field?_append hf hws (hnext.not_path (List.all_iff_forall_prop.mp (by decide)))

/-- A sign is not taken for one that begins with another character. -/
theorem eat?_other {ws : List Char} (hws : Blank ws) {c t : Char} (hc : Text.isBlank c = false)
    (ht : t ≠ c) (token more : List Char) : eat? (t :: token) (ws ++ c :: more) = none :=
  (next_cons hws hc (List.mem_singleton.mpr rfl) more).eat?_eq_none (by simpa using ht) token

/-- What stands behind the sign of an order does not make it another sign. -/
theorem Numeral.Valid.not_eq_sign {n : Numeral} (hn : n.Valid) {ws : List Char} (hws : Blank ws)
    (rest : List Char) : (ws ++ (n.text ++ rest)).head? ≠ some '=' := by
  cases ws with
  | cons c more =>
      rintro ⟨⟩
      exact absurd (hws _ List.mem_cons_self) (by decide)
  | nil =>
      obtain ⟨c, more, htext, hc⟩ := hn.first
      rw [htext]
      rintro ⟨⟩
      exact absurd hc (by decide)

theorem comparison?_append {f : Field} (hf : IsLoosePath f.path) {e : Expr} {text : List Char}
    (h : Comparison f e text) {ws : List Char} (hws : Blank ws) {rest : List Char}
    (hrest : Next [')', '|', '&'] rest) :
    comparison? (ws ++ (f.text ++ (text ++ rest))) = .ok (e, rest) := by
  have hends := endsNumber_of_not_path (not_path_of_next hrest)
  unfold comparison?
  cases h with
  | truthy =>
      refine Except.bind_eq_ok.mpr ⟨_, field?_append hf hws (not_path_of_next hrest), ?_⟩
      dsimp only
      rw [List.nil_append, hrest.eat?_eq_none (by decide), hrest.eat?_eq_none (by decide),
        order?_eq_none hrest (by decide) (by decide)]
  | @eq l ws' ws'' text hws' hws'' hl =>
      have heat := eat?_append hws' (t := '=') (by decide) ['='] (ws'' ++ (text ++ rest))
      refine Except.bind_eq_ok.mpr ⟨(f, ws' ++ '=' :: '=' :: (ws'' ++ (text ++ rest))), ?_, ?_⟩
      · simpa using field?_sign hf hws hws' (c := '=') (by decide) ('=' :: (ws'' ++ (text ++ rest)))
      · dsimp only
        rw [show ws' ++ '=' :: '=' :: (ws'' ++ (text ++ rest)) =
          ws' ++ ('=' :: ['='] ++ (ws'' ++ (text ++ rest))) from rfl, heat]
        exact Except.bind_eq_ok.mpr ⟨_, literal?_append hl hws'' hends, rfl⟩
  | @ne l ws' ws'' text hws' hws'' hl =>
      have heat := eat?_append hws' (t := '!') (by decide) ['='] (ws'' ++ (text ++ rest))
      refine Except.bind_eq_ok.mpr ⟨(f, ws' ++ '!' :: '=' :: (ws'' ++ (text ++ rest))), ?_, ?_⟩
      · simpa using field?_sign hf hws hws' (c := '!') (by decide) ('=' :: (ws'' ++ (text ++ rest)))
      · dsimp only
        -- the first sign that is tried is another one
        rw [eat?_other hws' (by decide) (by decide)]
        rw [show ws' ++ '!' :: '=' :: (ws'' ++ (text ++ rest)) =
          ws' ++ ('!' :: ['='] ++ (ws'' ++ (text ++ rest))) from rfl, heat]
        exact Except.bind_eq_ok.mpr ⟨_, literal?_append hl hws'' hends, rfl⟩
  | @order o n ws' ws'' hws' hws'' hn =>
      have hread := order?_append o hws' (hn.not_eq_sign hws'' rest)
      obtain ⟨c, more, hsign, hc⟩ := o.sign_first
      have hsigns : ∀ c ∈ ['<', '>'], Text.isBlank c = false ∧ '=' ≠ c ∧ '!' ≠ c ∧
          c ∈ ['=', '!', '<', '>'] := List.all_iff_forall_prop.mp (by decide)
      obtain ⟨hblank, heq, hbang, hfirst⟩ := hsigns c hc
      rw [hsign] at hread
      refine Except.bind_eq_ok.mpr
        ⟨(f, ws' ++ c :: (more ++ (ws'' ++ (n.text ++ rest)))), ?_, ?_⟩
      · simpa [hsign] using field?_sign hf hws hws' hfirst (more ++ (ws'' ++ (n.text ++ rest)))
      · dsimp only
        rw [eat?_other hws' hblank heq, eat?_other hws' hblank hbang]
        rw [List.cons_append] at hread
        rw [hread]
        exact Except.bind_eq_ok.mpr ⟨_, number?_append hn hws'' hends, rfl⟩

/-- What is read as a comparison is one, behind a field that may have an empty name first. -/
theorem comparison?_eq_ok {cs rest : List Char} {e : Expr} (h : comparison? cs = .ok (e, rest)) :
    ∃ ws f text, Blank ws ∧ IsLoosePath f.path ∧ Comparison f e text ∧
      cs = ws ++ (f.text ++ (text ++ rest)) := by
  unfold comparison? at h
  obtain ⟨⟨f, more⟩, hfield, hmore⟩ := Except.bind_eq_ok.mp h
  obtain ⟨hf, ws, hws, rfl⟩ := field?_eq_ok hfield
  dsimp only at hmore
  split at hmore
  · rename_i heat
    obtain ⟨⟨l, more'⟩, hread, heq⟩ := Except.bind_eq_ok.mp hmore
    cases heq
    obtain ⟨ws', hws', rfl⟩ := eat?_eq_some heat
    obtain ⟨ws'', text, hws'', hl, rfl⟩ := literal?_eq_ok hread
    exact ⟨ws, f, _, hws, hf, .eq hws' hws'' hl, by simp⟩
  split at hmore
  · rename_i heat
    obtain ⟨⟨l, more'⟩, hread, heq⟩ := Except.bind_eq_ok.mp hmore
    cases heq
    obtain ⟨ws', hws', rfl⟩ := eat?_eq_some heat
    obtain ⟨ws'', text, hws'', hl, rfl⟩ := literal?_eq_ok hread
    exact ⟨ws, f, _, hws, hf, .ne hws' hws'' hl, by simp⟩
  split at hmore
  · rename_i hsign
    obtain ⟨⟨x, more'⟩, hread, heq⟩ := Except.bind_eq_ok.mp hmore
    cases heq
    obtain ⟨ws', hws', rfl⟩ := order?_eq_some hsign
    obtain ⟨ws'', n, hws'', hn, rfl, rfl⟩ := number?_eq_ok hread
    exact ⟨ws, f, _, hws, hf, .order _ hws' hws'' hn, by simp⟩
  · cases hmore
    exact ⟨ws, f, [], hws, hf, .truthy, rfl⟩

/-! ## Negations -/

theorem negation?_append {ws : List Char} (hws : Blank ws) {text : List Char}
    (h : text.head? ≠ some '=') : negation? (ws ++ '!' :: text) = some text := by
  rw [negation?, skipBlanks_append hws, skipBlanks_cons (by decide)]
  cases text with
  | nil => rfl
  | cons c text =>
      split
      · rename_i heq
        cases heq
        exact absurd rfl h
      · rename_i heq
        cases heq
        rfl
      · rename_i hne
        exact (hne _ rfl).elim

/-- Nothing is negated that begins with something else. -/
theorem negation?_eq_none {ws : List Char} (hws : Blank ws) {c : Char} (hc : Text.isBlank c = false)
    (hne : c ≠ '!') (text : List Char) : negation? (ws ++ c :: text) = none := by
  rw [negation?, skipBlanks_append hws, skipBlanks_cons hc]
  split
  · rename_i heq
    cases heq
    exact absurd rfl hne
  · rename_i heq
    cases heq
    exact absurd rfl hne
  · rfl

theorem negation?_eq_some {cs rest : List Char} (h : negation? cs = some rest) :
    ∃ ws, Blank ws ∧ cs = ws ++ '!' :: rest := by
  obtain ⟨ws, hws, hcs⟩ := exists_blank cs
  unfold negation? at h
  split at h
  · cases h
  · rename_i heq
    cases h
    exact ⟨ws, hws, by rw [← heq]; exact hcs⟩
  · cases h

/-! ## What is written is read -/

/-- What an expression begins with: a field, a `!` or a parenthesis. -/
theorem Phrase.first {paths : List String → Prop} {level : Level} {e : Expr} {text : List Char}
    (h : Phrase paths level e text) :
    ∃ ws c more, Blank ws ∧ text = ws ++ c :: more ∧ c ∈ ['c', 'e', '!', '('] := by
  have hjoin : ∀ {text : List Char},
      (∃ ws c more, Blank ws ∧ text = ws ++ c :: more ∧ c ∈ ['c', 'e', '!', '(']) → ∀ text',
        ∃ ws c more, Blank ws ∧ text ++ text' = ws ++ c :: more ∧ c ∈ ['c', 'e', '!', '('] := by
    rintro _ ⟨ws, c, more, hws, rfl, hc⟩ text'
    exact ⟨ws, c, more ++ text', hws, by simp, hc⟩
  induction h with
  | @comparison f e ws text hws hf h =>
      obtain ⟨scope, path⟩ := f
      cases scope
      · exact ⟨ws, 'c', _, hws, rfl, by decide⟩
      · exact ⟨ws, 'e', _, hws, rfl, by decide⟩
  | not hws _ _ => exact ⟨_, '!', _, hws, rfl, by decide⟩
  | parens hws _ _ _ => exact ⟨_, '(', _, hws, rfl, by decide⟩
  | ofUnary _ ih | ofAnd _ ih => exact ih
  | and _ _ _ iha _ | or _ _ _ iha _ => exact hjoin iha _

/-- What it means to be read at a level, by every fuel that three calls for each character leave
enough of. Behind the text stands a sign that its level leaves to others, or the end. A chain is not
read to its end at its own level: its last operand leaves enough fuel to go on with what follows. -/
def Reads : Level → Expr → List Char → Prop
  | .unary, e, text => ∀ fuel rest, Next [')', '|', '&'] rest →
      3 * (text ++ rest).length + 1 ≤ fuel → unary? fuel (text ++ rest) = .ok (e, rest)
  | .and, e, text => ∀ fuel rest, Next [')', '|', '&'] rest →
      3 * (text ++ rest).length + 2 ≤ fuel → ∃ fuel', 3 * rest.length + 1 ≤ fuel' ∧
        and? fuel (text ++ rest) = andTail? fuel' e rest
  | .or, e, text => ∀ fuel rest, Next [')', '|'] rest →
      3 * (text ++ rest).length + 3 ≤ fuel → ∃ fuel', 3 * rest.length + 1 ≤ fuel' ∧
        or? fuel (text ++ rest) = orTail? fuel' e rest

/-- A chain of `&&` ends where no `&&` follows. -/
theorem andTail?_end {fuel : Nat} (hfuel : 0 < fuel) (e : Expr) {rest : List Char}
    (h : Next [')', '|'] rest) : andTail? fuel e rest = .ok (e, rest) := by
  cases fuel with
  | zero => omega
  | succ fuel => rw [andTail?, h.eat?_eq_none (by decide)]

/-- A chain of `||` ends where no `||` follows. -/
theorem orTail?_end {fuel : Nat} (hfuel : 0 < fuel) (e : Expr) {rest : List Char}
    (h : Next [')'] rest) : orTail? fuel e rest = .ok (e, rest) := by
  cases fuel with
  | zero => omega
  | succ fuel => rw [orTail?, h.eat?_eq_none (by decide)]

theorem Reads.or_end {e : Expr} {text : List Char} (h : Reads .or e text) {fuel : Nat}
    {rest : List Char} (hrest : Next [')'] rest) (hfuel : 3 * (text ++ rest).length + 3 ≤ fuel) :
    or? fuel (text ++ rest) = .ok (e, rest) := by
  obtain ⟨fuel', hfuel', hread⟩ := h fuel rest (hrest.mono (by simp)) hfuel
  rw [hread, orTail?_end (by omega) e hrest]

theorem reads_comparison {f : Field} {e : Expr} {ws text : List Char} (hws : Blank ws)
    (hf : IsLoosePath f.path) (h : Comparison f e text) : Reads .unary e (ws ++ (f.text ++ text)) := by
  intro fuel rest hrest hfuel
  have hread := comparison?_append hf h hws hrest
  obtain ⟨c, more, htext, hblank, hbang, hopen⟩ : ∃ c more, f.text = c :: more ∧
      Text.isBlank c = false ∧ c ≠ '!' ∧ '(' ≠ c := by
    obtain ⟨scope, path⟩ := f
    cases scope
    · exact ⟨'c', _, rfl, by decide, by decide, by decide⟩
    · exact ⟨'e', _, rfl, by decide, by decide, by decide⟩
  have hnext : Next [c] (ws ++ c :: (more ++ (text ++ rest))) :=
    next_cons hws hblank (List.mem_singleton.mpr rfl) _
  cases fuel with
  | zero => omega
  | succ fuel =>
      rw [htext] at hread ⊢
      simp only [List.append_assoc, List.cons_append] at hread ⊢
      rw [unary?, negation?_eq_none hws hblank hbang, hnext.eat?_eq_none (by simpa using hopen)]
      exact hread

theorem reads_not {e : Expr} {ws text : List Char} (hws : Blank ws) (hhead : text.head? ≠ some '=')
    (hne : text ≠ []) (h : Reads .unary e text) : Reads .unary (.not e) (ws ++ '!' :: text) := by
  intro fuel rest hrest hfuel
  have hhead' : (text ++ rest).head? ≠ some '=' := by
    cases text with
    | nil => exact absurd rfl hne
    | cons c text => exact hhead
  cases fuel with
  | zero => omega
  | succ fuel =>
      simp only [List.append_assoc, List.cons_append, List.length_append, List.length_cons] at hfuel ⊢
      rw [unary?, negation?_append hws hhead']
      exact Except.bind_eq_ok.mpr
        ⟨_, h fuel rest hrest (by simp only [List.length_append]; omega), rfl⟩

theorem reads_parens {e : Expr} {ws ws' text : List Char} (hws : Blank ws) (hws' : Blank ws')
    (h : Reads .or e text) : Reads .unary e (ws ++ '(' :: (text ++ (ws' ++ [')']))) := by
  intro fuel rest hrest hfuel
  cases fuel with
  | zero => omega
  | succ fuel =>
      simp only [List.append_assoc, List.cons_append, List.nil_append, List.length_append,
        List.length_cons] at hfuel ⊢
      have hread : or? fuel (text ++ (ws' ++ ')' :: rest)) = .ok (e, ws' ++ ')' :: rest) :=
        h.or_end (next_cons hws' (by decide) (List.mem_singleton.mpr rfl) rest)
          (by simp only [List.length_append, List.length_cons]; omega)
      have hopen := eat?_append hws (t := '(') (by decide) [] (text ++ (ws' ++ ')' :: rest))
      have hclose := eat?_append hws' (t := ')') (by decide) [] rest
      rw [unary?, negation?_eq_none hws (by decide) (by decide)]
      simp only [List.cons_append, List.nil_append] at hopen hclose
      rw [hopen]
      refine Except.bind_eq_ok.mpr ⟨_, hread, ?_⟩
      dsimp only
      rw [hclose]

theorem reads_ofUnary {e : Expr} {text : List Char} (h : Reads .unary e text) :
    Reads .and e text := by
  intro fuel rest hrest hfuel
  cases fuel with
  | zero => omega
  | succ fuel =>
      refine ⟨fuel, ?_, ?_⟩
      · simp only [List.length_append] at hfuel
        omega
      · rw [and?, h fuel rest hrest (by omega)]
        rfl

theorem reads_and {a b : Expr} {ws text text' : List Char} (ha : Reads .and a text) (hws : Blank ws)
    (hb : Reads .unary b text') : Reads .and (.and a b) (text ++ (ws ++ ('&' :: '&' :: text'))) := by
  intro fuel rest hrest hfuel
  simp only [List.append_assoc, List.cons_append] at hfuel ⊢
  obtain ⟨fuel', hfuel', hread⟩ := ha fuel (ws ++ '&' :: '&' :: (text' ++ rest))
    (next_cons hws (by decide) (by decide) _) hfuel
  simp only [List.length_append, List.length_cons] at hfuel'
  cases fuel' with
  | zero => omega
  | succ fuel' =>
      refine ⟨fuel', by omega, ?_⟩
      have heat := eat?_append hws (t := '&') (by decide) ['&'] (text' ++ rest)
      simp only [List.cons_append, List.nil_append] at heat
      rw [hread, andTail?, heat]
      simp only [hb fuel' rest hrest (by simp only [List.length_append]; omega)]
      rfl

theorem reads_ofAnd {e : Expr} {text : List Char} (h : Reads .and e text) : Reads .or e text := by
  intro fuel rest hrest hfuel
  cases fuel with
  | zero => omega
  | succ fuel =>
      obtain ⟨fuel', hfuel', hread⟩ := h fuel rest (hrest.mono (by simp)) (by omega)
      refine ⟨fuel, ?_, ?_⟩
      · simp only [List.length_append] at hfuel
        omega
      · rw [or?, hread, andTail?_end (by omega) e hrest]
        rfl

theorem reads_or {a b : Expr} {ws text text' : List Char} (ha : Reads .or a text) (hws : Blank ws)
    (hb : Reads .and b text') : Reads .or (.or a b) (text ++ (ws ++ ('|' :: '|' :: text'))) := by
  intro fuel rest hrest hfuel
  simp only [List.append_assoc, List.cons_append] at hfuel ⊢
  obtain ⟨fuel', hfuel', hread⟩ := ha fuel (ws ++ '|' :: '|' :: (text' ++ rest))
    (next_cons hws (by decide) (by decide) _) hfuel
  simp only [List.length_append, List.length_cons] at hfuel'
  cases fuel' with
  | zero => omega
  | succ fuel' =>
      refine ⟨fuel', by omega, ?_⟩
      have heat := eat?_append hws (t := '|') (by decide) ['|'] (text' ++ rest)
      simp only [List.cons_append, List.nil_append] at heat
      obtain ⟨fuel'', hfuel'', hother⟩ := hb fuel' rest (hrest.mono (by simp))
        (by simp only [List.length_append]; omega)
      rw [hread, orTail?, heat]
      simp only [hother, andTail?_end (show 0 < fuel'' by omega) b hrest]
      rfl

theorem Phrase.reads {level : Level} {e : Expr} {text : List Char}
    (h : Phrase IsLoosePath level e text) : Reads level e text := by
  induction h with
  | comparison hws hf h => exact reads_comparison hws hf h
  | not hws h ih =>
      obtain ⟨ws', c, more, hws', rfl, hc⟩ := h.first
      refine reads_not hws ?_ (by simp) ih
      cases ws' with
      | nil =>
          rintro ⟨⟩
          exact absurd hc (by decide)
      | cons d ws' =>
          rintro ⟨⟩
          exact absurd (hws' _ List.mem_cons_self) (by decide)
  | parens hws hws' _ ih => exact reads_parens hws hws' ih
  | ofUnary _ ih => exact reads_ofUnary ih
  | and _ hws _ iha ihb => exact reads_and iha hws ihb
  | ofAnd _ ih => exact reads_ofAnd ih
  | or _ hws _ iha ihb => exact reads_or iha hws ihb

/-- What is written is read, also where an empty name stands before the first name of a path. -/
theorem Expr.Written.parse {e : Expr} {text : String} (h : e.Written IsLoosePath text) :
    Expr.parse text = .ok e := by
  obtain ⟨phrase, ws, hphrase, hws, htext⟩ := h
  have hread : or? (4 * (phrase ++ ws).length + 4) (phrase ++ ws) = .ok (e, ws) := by
    refine hphrase.reads.or_end ?_ (by omega)
    intro c hc
    rw [skipBlanks_blank hws] at hc
    cases hc
  have hnonempty : (skipBlanks (phrase ++ ws)).isEmpty = false := by
    have hblank : ∀ c ∈ ['c', 'e', '!', '('], Text.isBlank c = false :=
      List.all_iff_forall_prop.mp (by decide)
    obtain ⟨ws', c, more, hws', rfl, hc⟩ := hphrase.first
    rw [List.append_assoc, skipBlanks_append hws', List.cons_append, skipBlanks_cons (hblank c hc)]
    rfl
  rw [Expr.parse, htext]
  simp only [hnonempty, Bool.false_eq_true, if_false]
  refine Except.bind_eq_ok.mpr ⟨_, hread, ?_⟩
  simp only [skipBlanks_blank hws, List.isEmpty_nil, if_true]

/-! ## What is read is written -/

/-- What it means that only written forms are read, with so much fuel: an expression is read off
behind a text of its own, and a chain is gone on with by more operands. -/
structure ReadsWritten (fuel : Nat) : Prop where
  unary : ∀ {cs rest : List Char} {e : Expr}, unary? fuel cs = .ok (e, rest) →
    ∃ text, cs = text ++ rest ∧ Phrase IsLoosePath .unary e text
  and : ∀ {cs rest : List Char} {e : Expr}, and? fuel cs = .ok (e, rest) →
    ∃ text, cs = text ++ rest ∧ Phrase IsLoosePath .and e text
  andTail : ∀ {cs rest : List Char} {a e : Expr}, andTail? fuel a cs = .ok (e, rest) →
    ∃ text', cs = text' ++ rest ∧
      ∀ text, Phrase IsLoosePath .and a text → Phrase IsLoosePath .and e (text ++ text')
  or : ∀ {cs rest : List Char} {e : Expr}, or? fuel cs = .ok (e, rest) →
    ∃ text, cs = text ++ rest ∧ Phrase IsLoosePath .or e text
  orTail : ∀ {cs rest : List Char} {a e : Expr}, orTail? fuel a cs = .ok (e, rest) →
    ∃ text', cs = text' ++ rest ∧
      ∀ text, Phrase IsLoosePath .or a text → Phrase IsLoosePath .or e (text ++ text')

namespace ReadsWritten

variable {fuel : Nat} {cs rest : List Char} {a e : Expr}

theorem unary_succ (ih : ReadsWritten fuel) (h : unary? (fuel + 1) cs = .ok (e, rest)) :
    ∃ text, cs = text ++ rest ∧ Phrase IsLoosePath .unary e text := by
  rw [unary?] at h
  split at h
  · rename_i hnot
    obtain ⟨⟨inner, more⟩, hread, heq⟩ := Except.bind_eq_ok.mp h
    cases heq
    obtain ⟨ws, hws, rfl⟩ := negation?_eq_some hnot
    obtain ⟨text, rfl, htext⟩ := ih.unary hread
    exact ⟨ws ++ '!' :: text, by simp, .not hws htext⟩
  split at h
  · rename_i hopen
    obtain ⟨⟨inner, more⟩, hread, hclosed⟩ := Except.bind_eq_ok.mp h
    dsimp only at hclosed
    split at hclosed
    · rename_i hclose
      cases hclosed
      obtain ⟨ws, hws, rfl⟩ := eat?_eq_some hopen
      obtain ⟨text, rfl, htext⟩ := ih.or hread
      obtain ⟨ws', hws', rfl⟩ := eat?_eq_some hclose
      exact ⟨ws ++ '(' :: (text ++ (ws' ++ [')'])), by simp, .parens hws hws' htext⟩
    · cases hclosed
  · obtain ⟨ws, f, text, hws, hf, hcomparison, rfl⟩ := comparison?_eq_ok h
    exact ⟨ws ++ (f.text ++ text), by simp, .comparison hws hf hcomparison⟩

theorem and_succ (ih : ReadsWritten fuel) (h : and? (fuel + 1) cs = .ok (e, rest)) :
    ∃ text, cs = text ++ rest ∧ Phrase IsLoosePath .and e text := by
  rw [and?] at h
  obtain ⟨⟨first, more⟩, hread, htail⟩ := Except.bind_eq_ok.mp h
  obtain ⟨text, rfl, htext⟩ := ih.unary hread
  obtain ⟨text', rfl, hjoin⟩ := ih.andTail htail
  exact ⟨text ++ text', (List.append_assoc ..).symm, hjoin text (.ofUnary htext)⟩

theorem andTail_succ (ih : ReadsWritten fuel) (h : andTail? (fuel + 1) a cs = .ok (e, rest)) :
    ∃ text', cs = text' ++ rest ∧
      ∀ text, Phrase IsLoosePath .and a text → Phrase IsLoosePath .and e (text ++ text') := by
  rw [andTail?] at h
  split at h
  · rename_i hsign
    obtain ⟨⟨next, more⟩, hread, htail⟩ := Except.bind_eq_ok.mp h
    obtain ⟨ws, hws, rfl⟩ := eat?_eq_some hsign
    obtain ⟨text', rfl, htext'⟩ := ih.unary hread
    obtain ⟨text'', rfl, hjoin⟩ := ih.andTail htail
    refine ⟨ws ++ ('&' :: '&' :: text') ++ text'', by simp, fun text htext => ?_⟩
    rw [← List.append_assoc]
    exact hjoin _ (.and htext hws htext')
  · cases h
    exact ⟨[], rfl, fun text htext => by rwa [List.append_nil]⟩

theorem or_succ (ih : ReadsWritten fuel) (h : or? (fuel + 1) cs = .ok (e, rest)) :
    ∃ text, cs = text ++ rest ∧ Phrase IsLoosePath .or e text := by
  rw [or?] at h
  obtain ⟨⟨first, more⟩, hread, htail⟩ := Except.bind_eq_ok.mp h
  obtain ⟨text, rfl, htext⟩ := ih.and hread
  obtain ⟨text', rfl, hjoin⟩ := ih.orTail htail
  exact ⟨text ++ text', (List.append_assoc ..).symm, hjoin text (.ofAnd htext)⟩

theorem orTail_succ (ih : ReadsWritten fuel) (h : orTail? (fuel + 1) a cs = .ok (e, rest)) :
    ∃ text', cs = text' ++ rest ∧
      ∀ text, Phrase IsLoosePath .or a text → Phrase IsLoosePath .or e (text ++ text') := by
  rw [orTail?] at h
  split at h
  · rename_i hsign
    obtain ⟨⟨next, more⟩, hread, htail⟩ := Except.bind_eq_ok.mp h
    obtain ⟨ws, hws, rfl⟩ := eat?_eq_some hsign
    obtain ⟨text', rfl, htext'⟩ := ih.and hread
    obtain ⟨text'', rfl, hjoin⟩ := ih.orTail htail
    refine ⟨ws ++ ('|' :: '|' :: text') ++ text'', by simp, fun text htext => ?_⟩
    rw [← List.append_assoc]
    exact hjoin _ (.or htext hws htext')
  · cases h
    exact ⟨[], rfl, fun text htext => by rwa [List.append_nil]⟩

end ReadsWritten

/-- Only written forms are read, by induction on the fuel. -/
theorem readsWritten (fuel : Nat) : ReadsWritten fuel := by
  induction fuel with
  | zero =>
      constructor
      · intro cs rest e h
        rw [unary?] at h
        cases h
      · intro cs rest e h
        rw [and?] at h
        cases h
      · intro cs rest a e h
        rw [andTail?] at h
        cases h
      · intro cs rest e h
        rw [or?] at h
        cases h
      · intro cs rest a e h
        rw [orTail?] at h
        cases h
  | succ fuel ih => exact ⟨ih.unary_succ, ih.and_succ, ih.andTail_succ, ih.or_succ, ih.orTail_succ⟩

theorem Expr.written_of_parse {text : String} {e : Expr} (h : Expr.parse text = .ok e) :
    e.Written IsLoosePath text := by
  unfold Expr.parse at h
  dsimp only at h
  split at h
  · cases h
  obtain ⟨⟨e', rest⟩, hread, hend⟩ := Except.bind_eq_ok.mp h
  dsimp only at hend
  split at hend
  · rename_i hempty
    cases hend
    obtain ⟨phrase, hphrase, hwritten⟩ := (readsWritten _).or hread
    obtain ⟨ws, hws, hrest⟩ := exists_blank rest
    refine ⟨phrase, rest, hwritten, ?_, hphrase⟩
    rw [List.isEmpty_iff.mp hempty, List.append_nil] at hrest
    rw [hrest]
    exact hws
  · cases hend

/-! ## The language of guards -/

/-- The parser reads the grammar, with paths that may have an empty name before the first one. -/
theorem Expr.parse_eq_ok_iff {text : String} {e : Expr} :
    Expr.parse text = .ok e ↔ e.Written IsLoosePath text :=
  ⟨Expr.written_of_parse, Expr.Written.parse⟩

/-- A text is the written form of one expression at most. -/
theorem Expr.Written.unique {text : String} {e e' : Expr} (h : e.Written IsLoosePath text)
    (h' : e'.Written IsLoosePath text) : e = e' :=
  Except.ok.inj (h.parse.symm.trans h'.parse)

theorem Expr.Written.loose {text : String} {e : Expr} (h : e.Written IsPath text) :
    e.Written IsLoosePath text := by
  obtain ⟨phrase, ws, hphrase, hws, htext⟩ := h
  exact ⟨phrase, ws, hphrase.of_fields fun f hf => (hphrase.fields f hf).loose, hws, htext⟩

/-- Every written form of an expression is read as that expression. -/
theorem Expr.parse_of_written {e : Expr} {text : String} (h : e.Written IsPath text) :
    Expr.parse text = .ok e := h.loose.parse

/-- A path that may have an empty name before the first is one of the grammar, unless it has it. -/
theorem IsLoosePath.isPath_iff {path : List String} (h : IsLoosePath path) :
    IsPath path ↔ path.head? ≠ some "" := by
  refine ⟨IsPath.not_empty, fun hhead => ?_⟩
  rcases h with h | ⟨names, rfl, _⟩
  · exact h
  · exact absurd rfl hhead

/-- What is read is a written form of what it is read as, and one of the grammar if and only if no
path in it begins with an empty name. -/
theorem Expr.written_of_accepted {text : String} {e : Expr} (h : Expr.parse text = .ok e) :
    e.Written IsLoosePath text ∧
      (e.Written IsPath text ↔ ∀ f ∈ e.fields, f.path.head? ≠ some "") := by
  have hwritten := Expr.written_of_parse h
  refine ⟨hwritten, ?_, ?_⟩
  · rintro ⟨phrase, ws, hphrase, _⟩ f hf
    exact (hphrase.fields f hf).not_empty
  · intro hall
    obtain ⟨phrase, ws, hphrase, hws, htext⟩ := hwritten
    exact ⟨phrase, ws, hphrase.of_fields fun f hf =>
      (hphrase.fields f hf).isPath_iff.mpr (hall f hf), hws, htext⟩

/-- A condition in parentheses, with white space around its signs, a quote within a constant, and a
number. -/
theorem Expr.parse_payment :
    Expr.parse " ( ctx.order.kind==\"a\\\"b\" || !event.paid )&& ctx.n_1 >= -12.50 " =
      .ok (.and (.or (.eq ⟨.context, ["order", "kind"]⟩ (.str "a\"b"))
          (.not (.truthy ⟨.event, ["paid"]⟩)))
        (.compare ⟨.context, ["n_1"]⟩ .ge (-(Float.ofScientific 1250 true 2)))) := by
  have hnames : ∀ name ∈ ["order", "kind", "paid", "n_1"], IsName name := by decide +kernel
  have hblank : Blank [' '] := by decide
  have hkind : Phrase IsPath .unary (.eq ⟨.context, ["order", "kind"]⟩ (.str "a\"b"))
      " ctx.order.kind==\"a\\\"b\"".toList :=
    .comparison hblank ⟨by simp, fun name h => hnames name (by simp at h ⊢; tauto)⟩
      (.eq blank_nil blank_nil (.str (.plain (by decide) (by decide) (.escaped '"'
        (.plain (by decide) (by decide) .done)))))
  have hpaid : Phrase IsPath .unary (.not (.truthy ⟨.event, ["paid"]⟩)) " !event.paid".toList :=
    .not hblank (.comparison blank_nil ⟨by simp, fun name h => hnames name (by simp at h ⊢; tauto)⟩
      .truthy)
  have hnumber : Phrase IsPath .unary
      (.compare ⟨.context, ["n_1"]⟩ .ge (-(Float.ofScientific 1250 true 2)))
      " ctx.n_1 >= -12.50".toList :=
    .comparison hblank ⟨by simp, fun name h => hnames name (by simp at h ⊢; tauto)⟩
      (.order .ge hblank hblank (n := ⟨true, ['1', '2'], some ['5', '0']⟩)
        (by decide))
  have hparens := Phrase.parens hblank hblank (.or (.ofAnd (.ofUnary hkind)) hblank (.ofUnary hpaid))
  exact Expr.parse_of_written
    ⟨_, [' '], .ofAnd (.and (.ofUnary hparens) blank_nil hnumber), hblank, by decide⟩

/-- A text that is read, and that is one of the grammar because no name in it is empty. -/
theorem Expr.written_paid :
    Expr.parse "!event.paid" = .ok (.not (.truthy ⟨.event, ["paid"]⟩)) ∧
      (Expr.not (.truthy ⟨.event, ["paid"]⟩)).Written IsPath "!event.paid" := by
  have hread : Expr.parse "!event.paid" = .ok (.not (.truthy ⟨.event, ["paid"]⟩)) := by rfl
  exact ⟨hread, (Expr.written_of_accepted hread).2.mpr (by simp [Expr.fields])⟩

/-- A slip of the pen is accepted: the path of `ctx..a` begins with an empty name, and so is none of
the grammar. -/
theorem Expr.parse_empty_name :
    Expr.parse "ctx..a" = .ok (.truthy ⟨.context, ["", "a"]⟩) ∧
      ¬ (Expr.truthy ⟨.context, ["", "a"]⟩).Written IsPath "ctx..a" := by
  have hname : IsName "a" := by decide +kernel
  have hpath : IsPath ["a"] :=
    ⟨by simp, fun name h => by rw [List.mem_singleton.mp h]; exact hname⟩
  refine ⟨Expr.Written.parse ⟨_, [], .ofAnd (.ofUnary (.comparison blank_nil
    (.inr ⟨["a"], rfl, hpath⟩) .truthy)), blank_nil, by decide⟩, ?_⟩
  rintro ⟨phrase, ws, hphrase, _⟩
  exact (hphrase.fields _ (List.mem_singleton.mpr rfl)).not_empty rfl

end Statechart.Guard
