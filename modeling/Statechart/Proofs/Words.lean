import Mathlib.Data.Bool.AllAny
import Mathlib.Data.List.Basic
import Mathlib.Data.List.TakeWhile
import Statechart.Guard.Parser
import Statechart.Proofs.Outcomes

/-!
# The words of guards

A guard is written in words: fields, constants, numbers and signs, with white space between them.
Each kind of word is a class of texts, and the function that reads it is compared with that class in
both directions: it reads the word off every text that goes on with something else, and what it
reads off is such a word, after white space.

The class of a path is the grammar's own (`IsPath`, names joined by dots). The function takes a
little more than that, a path that has an empty name before the first (`IsLoosePath`).
-/

namespace Statechart.Guard

/-! ## White space -/

/-- White space, or nothing. -/
def Blank (cs : List Char) : Prop := ∀ c ∈ cs, Text.isBlank c = true

instance : DecidablePred Blank := fun _ => decidable_of_iff _ List.all_eq_true

theorem blank_nil : Blank [] := fun _ h => absurd h List.not_mem_nil

theorem skipBlanks_append {ws : List Char} (h : Blank ws) (cs : List Char) :
    skipBlanks (ws ++ cs) = skipBlanks cs := List.dropWhile_append_of_pos h

theorem skipBlanks_cons {c : Char} (h : Text.isBlank c = false) (cs : List Char) :
    skipBlanks (c :: cs) = c :: cs := by
  rw [skipBlanks, List.dropWhile_cons, if_neg (by simp [h])]

theorem skipBlanks_blank {ws : List Char} (h : Blank ws) : skipBlanks ws = [] :=
  List.dropWhile_eq_nil_iff.mpr h

/-- A text is white space and what is left without it. -/
theorem exists_blank (cs : List Char) : ∃ ws, Blank ws ∧ cs = ws ++ skipBlanks cs :=
  ⟨cs.takeWhile Text.isBlank, fun _ h => List.mem_takeWhile_imp h,
    List.takeWhile_append_dropWhile.symm⟩

/-- After white space the text is at its end, or it goes on with one of some signs. -/
def Next (signs rest : List Char) : Prop := ∀ c ∈ (skipBlanks rest).head?, c ∈ signs

theorem Next.mono {signs signs' rest : List Char} (h : Next signs rest)
    (hsub : ∀ c ∈ signs, c ∈ signs') : Next signs' rest := fun c hc => hsub c (h c hc)

theorem next_cons {ws : List Char} (hws : Blank ws) {c : Char} (hc : Text.isBlank c = false)
    {signs : List Char} (hmem : c ∈ signs) (rest : List Char) : Next signs (ws ++ c :: rest) := by
  intro x hx
  rw [skipBlanks_append hws, skipBlanks_cons hc] at hx
  cases hx
  exact hmem

/-- The characters that are white space. -/
def blanks : List Char :=
  [0x09, 0x0A, 0x0B, 0x0C, 0x0D, 0x20, 0x85, 0xA0, 0x1680, 0x2000, 0x2001, 0x2002, 0x2003, 0x2004,
    0x2005, 0x2006, 0x2007, 0x2008, 0x2009, 0x200A, 0x2028, 0x2029, 0x202F, 0x205F, 0x3000].map
    Char.ofNat

theorem mem_blanks {c : Char} (h : Text.isBlank c = true) : c ∈ blanks := by
  simp only [Text.isBlank, Bool.or_eq_true, Bool.and_eq_true, decide_eq_true_eq, beq_iff_eq] at h
  refine List.mem_map.mpr ⟨c.toNat, ?_, Char.ofNat_toNat c⟩
  simp only [List.mem_cons, List.not_mem_nil, or_false]
  omega

/-- No white space stands within a path. -/
theorem not_path_of_blank {c : Char} (h : Text.isBlank c = true) : isPathChar c = false := by
  have hall : ∀ c ∈ blanks, isPathChar c = false :=
    List.all_iff_forall_prop.mp (by decide +kernel)
  exact hall c (mem_blanks h)

/-- Signs end a path, and so does white space before them. -/
theorem Next.not_path {signs rest : List Char} (h : Next signs rest)
    (hsigns : ∀ c ∈ signs, isPathChar c = false) : ∀ c ∈ rest.head?, isPathChar c = false := by
  cases rest with
  | nil => simp
  | cons c rest =>
      rintro _ ⟨⟩
      cases hc : Text.isBlank c with
      | true => exact not_path_of_blank hc
      | false => exact hsigns c (h c (by rw [skipBlanks_cons hc]; rfl))

/-! ## Fixed words -/

theorem eat?_append {ws : List Char} (hws : Blank ws) {t : Char} (ht : Text.isBlank t = false)
    (token rest : List Char) : eat? (t :: token) (ws ++ (t :: token ++ rest)) = some rest := by
  rw [eat?, skipBlanks_append hws, List.cons_append, skipBlanks_cons ht, ← List.cons_append,
    Text.after?_append]

theorem eat?_eq_some {token cs rest : List Char} (h : eat? token cs = some rest) :
    ∃ ws, Blank ws ∧ cs = ws ++ (token ++ rest) := by
  obtain ⟨ws, hws, hcs⟩ := exists_blank cs
  exact ⟨ws, hws, by rw [← Text.after?_eq_some_iff.mp h]; exact hcs⟩

/-- A word is not there if the text goes on with something else. -/
theorem Next.eat?_eq_none {signs rest : List Char} (h : Next signs rest) {t : Char}
    (ht : t ∉ signs) (token : List Char) : eat? (t :: token) rest = none := by
  rw [eat?]
  cases hrest : skipBlanks rest with
  | nil => rfl
  | cons c cs =>
      have hc : c ∈ signs := h c (by rw [hrest]; rfl)
      have hne : t ≠ c := by
        rintro rfl
        exact ht hc
      rw [Text.after?, if_neg hne]

/-- A longer word is not there if its second character is not. -/
theorem eat?_eq_none_of_second {ws : List Char} (hws : Blank ws) {t u : Char}
    (ht : Text.isBlank t = false) {rest : List Char} (hrest : rest.head? ≠ some u)
    (token : List Char) : eat? (t :: u :: token) (ws ++ t :: rest) = none := by
  rw [eat?, skipBlanks_append hws, skipBlanks_cons ht, Text.after?, if_pos rfl]
  cases rest with
  | nil => rfl
  | cons c rest => rw [Text.after?, if_neg (fun h => hrest (by rw [h]; rfl))]

/-! ## Paths -/

/-- A name is one or more letters, digits and underscores. -/
def IsName (name : String) : Prop :=
  name ≠ "" ∧ ∀ c ∈ name.toList, Text.isAlphanumeric c = true ∨ c = '_'

instance : DecidablePred IsName := fun name =>
  decidable_of_iff (name ≠ "" ∧ name.toList.all fun c => Text.isAlphanumeric c = true ∨ c = '_')
    (and_congr_right fun _ => List.all_iff_forall_prop)

/-- A path is one or more names. -/
def IsPath (path : List String) : Prop := path ≠ [] ∧ ∀ name ∈ path, IsName name

/-- What is taken as a path: one or more names, which an empty name may stand before. -/
def IsLoosePath (path : List String) : Prop :=
  IsPath path ∨ ∃ names, path = "" :: names ∧ IsPath names

theorem IsPath.loose {path : List String} (h : IsPath path) : IsLoosePath path := .inl h

theorem IsPath.not_empty {path : List String} (h : IsPath path) : path.head? ≠ some "" :=
  fun hhead => (h.2 "" (List.mem_of_head? hhead)).1 rfl

/-- Names hold no dot. -/
theorem IsName.not_dot {name : String} (h : IsName name) : '.' ∉ name.toList := by
  intro hmem
  have hdot : Text.isAlphanumeric '.' = false := by decide
  rcases h.2 '.' hmem with ha | hu
  · rw [hdot] at ha
    cases ha
  · exact absurd hu (by decide)

theorem IsName.path_char {name : String} (h : IsName name) : ∀ c ∈ name.toList, isPathChar c = true := by
  intro c hc
  rcases h.2 c hc with ha | rfl
  · simp [isPathChar, ha]
  · rfl


/-! ### The text of a path -/

theorem hasDoubleDot_cons (c : Char) (cs : List Char) :
    hasDoubleDot (c :: cs) = ((c == '.' && cs.head? == some '.') || hasDoubleDot cs) := by
  cases cs with
  | nil => by_cases hc : c = '.' <;> simp [hasDoubleDot]
  | cons d cs =>
      by_cases hc : c = '.'
      · by_cases hd : d = '.' <;> simp [hasDoubleDot, hc, hd]
      · simp [hasDoubleDot, hc]

theorem hasDoubleDot_append {piece rest : List Char} (h : '.' ∉ piece) :
    hasDoubleDot (piece ++ rest) = hasDoubleDot rest := by
  induction piece with
  | nil => rfl
  | cons c piece ih =>
      obtain ⟨hc, hpiece⟩ := not_or.mp (mt List.mem_cons.mpr h)
      have hne : (c == '.') = false := by simpa using Ne.symm hc
      rw [List.cons_append, hasDoubleDot_cons, ih hpiece, hne, Bool.false_and, Bool.false_or]

/-- The text of a path neither begins nor ends with a dot, and has no two dots in a row. -/
theorem IsPath.text {path : List String} (h : IsPath path) :
    (Text.joinDots path).toList ≠ [] ∧ (Text.joinDots path).toList.head? ≠ some '.' ∧
      (Text.joinDots path).toList.getLast? ≠ some '.' ∧
        hasDoubleDot (Text.joinDots path).toList = false := by
  rw [Text.joinDots, String.toList_ofList]
  obtain ⟨hne, hnames⟩ := h
  induction path with
  | nil => exact absurd rfl hne
  | cons name path ih =>
      have hname := hnames name List.mem_cons_self
      have hdot := hname.not_dot
      obtain ⟨c, cs, hcs⟩ := List.exists_cons_of_ne_nil (mt String.toList_eq_nil_iff.mp hname.1)
      have hc : c ≠ '.' := by
        rintro rfl
        exact hdot (by rw [hcs]; exact List.mem_cons_self)
      cases path with
      | nil =>
          rw [List.map_singleton, Text.joinWith]
          refine ⟨by simp [hcs], by simpa [hcs] using hc, fun hlast => ?_, ?_⟩
          · exact hdot (List.mem_of_getLast? hlast)
          · rw [← List.append_nil name.toList, hasDoubleDot_append hdot]
            rfl
      | cons next path =>
          obtain ⟨hne', hhead, hlast, hdots⟩ :=
            ih (List.cons_ne_nil _ _) fun n hn => hnames n (List.mem_cons_of_mem _ hn)
          -- between two names there is one dot, and none at the ends of either
          have htext : Text.joinWith '.' ((name :: next :: path).map String.toList) =
              name.toList ++ '.' :: Text.joinWith '.' ((next :: path).map String.toList) := rfl
          have hnext : ((Text.joinWith '.' ((next :: path).map String.toList)).head? == some '.') =
              false := by simpa using hhead
          rw [htext]
          refine ⟨by simp, by simpa [hcs] using hc, ?_, ?_⟩
          · rw [List.getLast?_append_of_ne_nil _ (List.cons_ne_nil _ _),
              List.getLast?_cons_of_ne_nil hne']
            exact hlast
          · rw [hasDoubleDot_append hdot, hasDoubleDot_cons, hdots, hnext]
            rfl

theorem joinDots_empty_cons {names : List String} (h : names ≠ []) :
    (Text.joinDots ("" :: names)).toList = '.' :: (Text.joinDots names).toList := by
  cases names with
  | nil => exact absurd rfl h
  | cons name names => simp [Text.joinDots, Text.joinWith]

/-- The text of a path that may have an empty name before it. -/
theorem IsLoosePath.text {path : List String} (h : IsLoosePath path) :
    (Text.joinDots path).toList ≠ [] ∧ (Text.joinDots path).toList.getLast? ≠ some '.' ∧
      hasDoubleDot (Text.joinDots path).toList = false := by
  rcases h with h | ⟨names, rfl, h⟩
  · exact ⟨h.text.1, h.text.2.2⟩
  · obtain ⟨hne, hhead, hlast, hdots⟩ := h.text
    rw [joinDots_empty_cons h.1]
    refine ⟨List.cons_ne_nil _ _, ?_, ?_⟩
    · rw [List.getLast?_cons_of_ne_nil hne]
      exact hlast
    · have hnext : ((Text.joinDots names).toList.head? == some '.') = false := by simpa using hhead
      rw [hasDoubleDot_cons, hdots, hnext]
      rfl

/-! ### Reading a path -/

theorem isName_ofList_cons {c : Char} {cs : List Char} (hc : Text.isAlphanumeric c = true ∨ c = '_')
    (hcs : ∀ x ∈ cs, Text.isAlphanumeric x = true ∨ x = '_') : IsName (String.ofList (c :: cs)) := by
  refine ⟨by simp, fun x hx => ?_⟩
  rw [String.toList_ofList] at hx
  rcases List.mem_cons.mp hx with rfl | hx
  · exact hc
  · exact hcs x hx

/-- The names between the dots of a text with no two dots in a row, and none at either end. -/
theorem names_of_dotted : ∀ {cs : List Char}, (∀ c ∈ cs, isPathChar c = true) → cs ≠ [] →
    cs.head? ≠ some '.' → cs.getLast? ≠ some '.' → hasDoubleDot cs = false →
      ∀ piece ∈ Text.splitAt '.' cs, IsName (String.ofList piece)
  | [], _, hne, _, _, _ => absurd rfl hne
  | c :: rest, hchars, _, hhead, hlast, hdots => by
      have hdot : c ≠ '.' := by simpa using hhead
      have hfirst : Text.isAlphanumeric c = true ∨ c = '_' := by
        simpa [isPathChar, hdot] using hchars c List.mem_cons_self
      have hrest : ∀ c ∈ rest, isPathChar c = true := fun x hx => hchars x (List.mem_cons_of_mem _ hx)
      have hdots' : hasDoubleDot rest = false := by
        rw [hasDoubleDot_cons] at hdots
        exact (Bool.or_eq_false_iff.mp hdots).2
      cases rest with
      | nil =>
          intro piece hpiece
          rw [Text.splitAt_of_not_mem (by simpa using Ne.symm hdot)] at hpiece
          rw [List.mem_singleton.mp hpiece]
          exact isName_ofList_cons hfirst (by simp)
      | cons d rest =>
          rw [List.getLast?_cons_of_ne_nil (List.cons_ne_nil _ _)] at hlast
          by_cases hd : d = '.'
          · -- the first name ends here, and the next one begins behind the dot
            subst hd
            rw [hasDoubleDot_cons] at hdots'
            have hne : rest ≠ [] := by
              rintro rfl
              exact hlast rfl
            have hhead' : rest.head? ≠ some '.' := by simpa using (Bool.or_eq_false_iff.mp hdots').1
            rw [List.getLast?_cons_of_ne_nil hne] at hlast
            have hrec := names_of_dotted (fun x hx => hrest x (List.mem_cons_of_mem _ hx)) hne hhead'
              hlast (Bool.or_eq_false_iff.mp hdots').2
            have hnot : '.' ∉ [c] := by simpa using Ne.symm hdot
            have hsplit : Text.splitAt '.' (c :: '.' :: rest) = [c] :: Text.splitAt '.' rest :=
              Text.splitAt_append hnot
            rw [hsplit]
            intro piece hpiece
            rcases List.mem_cons.mp hpiece with rfl | hpiece
            · exact isName_ofList_cons hfirst (by simp)
            · exact hrec piece hpiece
          · have hrec := names_of_dotted hrest (List.cons_ne_nil _ _) (by simpa using hd) hlast hdots'
            obtain ⟨first, others, hsplit⟩ :=
              List.exists_cons_of_ne_nil (Text.splitAt_ne_nil '.' (d :: rest))
            have hcons : Text.splitAt '.' (c :: d :: rest) = (c :: first) :: others := by
              rw [Text.splitAt, if_neg hdot, hsplit]
            rw [hsplit] at hrec
            rw [hcons]
            intro piece hpiece
            rcases List.mem_cons.mp hpiece with rfl | hpiece
            · have hname := (hrec first List.mem_cons_self).2
              rw [String.toList_ofList] at hname
              exact isName_ofList_cons hfirst hname
            · exact hrec piece (List.mem_cons_of_mem _ hpiece)

theorem IsLoosePath.path_char {path : List String} (h : IsLoosePath path) :
    ∀ c ∈ (Text.joinDots path).toList, isPathChar c = true := by
  have hnames : ∀ {names : List String}, IsPath names →
      ∀ c ∈ Text.joinWith '.' (names.map String.toList), isPathChar c = true := by
    intro names h
    obtain ⟨hne, hall⟩ := h
    induction names with
    | nil => exact absurd rfl hne
    | cons name names ih =>
        have hname := (hall name List.mem_cons_self).path_char
        cases names with
        | nil => exact hname
        | cons next names =>
            have hrest := ih (List.cons_ne_nil _ _) fun n hn => hall n (List.mem_cons_of_mem _ hn)
            intro c hc
            rcases List.mem_append.mp hc with hc | hc
            · exact hname c hc
            · rcases List.mem_cons.mp hc with rfl | hc
              · rfl
              · exact hrest c hc
  rcases h with h | ⟨names, rfl, h⟩
  · rw [Text.joinDots, String.toList_ofList]
    exact hnames h
  · rw [joinDots_empty_cons h.1, Text.joinDots, String.toList_ofList]
    intro c hc
    rcases List.mem_cons.mp hc with rfl | hc
    · rfl
    · exact hnames h c hc

theorem IsLoosePath.not_dot {path : List String} (h : IsLoosePath path) :
    path ≠ [] ∧ ∀ name ∈ path, '.' ∉ name.toList := by
  rcases h with h | ⟨names, rfl, h⟩
  · exact ⟨h.1, fun name hname => (h.2 name hname).not_dot⟩
  · refine ⟨List.cons_ne_nil _ _, fun name hname => ?_⟩
    rcases List.mem_cons.mp hname with rfl | hname
    · exact List.not_mem_nil
    · exact (h.2 name hname).not_dot

/-- A path is read off any text that does not go on with it. -/
theorem path?_append {path : List String} (h : IsLoosePath path) {rest : List Char}
    (hrest : ∀ c ∈ rest.head?, isPathChar c = false) :
    path? ((Text.joinDots path).toList ++ rest) = .ok (path, rest) := by
  have htake : rest.takeWhile isPathChar = [] := by
    cases rest with
    | nil => rfl
    | cons c rest => rw [List.takeWhile_cons, if_neg (by simp [hrest c rfl])]
  have hdrop : rest.dropWhile isPathChar = rest := by
    cases rest with
    | nil => rfl
    | cons c rest => rw [List.dropWhile_cons, if_neg (by simp [hrest c rfl])]
  obtain ⟨hne, hlast, hdots⟩ := h.text
  have hsplit : (Text.splitAt '.' (Text.joinDots path).toList).map String.ofList = path :=
    Text.splitDots_joinDots h.not_dot.1 h.not_dot.2
  have hempty : (Text.joinDots path).toList.isEmpty = false := by simpa using hne
  have hlast' : ((Text.joinDots path).toList.getLast? == some '.') = false := by simpa using hlast
  unfold path?
  simp only [List.takeWhile_append_of_pos h.path_char, List.dropWhile_append_of_pos h.path_char,
    htake, hdrop, List.append_nil, hempty, hlast', hdots, Bool.or_false, Bool.false_eq_true,
    if_false, hsplit]

/-- What is read off as a path is one, with or without an empty name before it. -/
theorem path?_eq_ok {cs rest : List Char} {path : List String} (h : path? cs = .ok (path, rest)) :
    IsLoosePath path ∧ cs = (Text.joinDots path).toList ++ rest := by
  unfold path? at h
  simp only at h
  split at h
  · cases h
  · rename_i hok
    cases h
    simp only [Bool.or_eq_true, not_or, Bool.not_eq_true] at hok
    obtain ⟨⟨hempty, hlast⟩, hdots⟩ := hok
    have hchars : ∀ c ∈ cs.takeWhile isPathChar, isPathChar c = true :=
      fun c hc => List.mem_takeWhile_imp hc
    have hcs : cs = cs.takeWhile isPathChar ++ cs.dropWhile isPathChar :=
      List.takeWhile_append_dropWhile.symm
    generalize cs.takeWhile isPathChar = text at hempty hlast hdots hchars hcs ⊢
    have hne : text ≠ [] := by simpa using hempty
    have hlast' : text.getLast? ≠ some '.' := by simpa using hlast
    have hjoin : (Text.joinDots ((Text.splitAt '.' text).map String.ofList)).toList = text := by
      rw [Text.joinDots, String.toList_ofList, List.map_map]
      have hid : (String.toList ∘ String.ofList) = id := funext fun _ => String.toList_ofList
      rw [hid, List.map_id, Text.joinWith_splitAt]
    refine ⟨?_, by rw [hjoin]; exact hcs⟩
    have hnames : ∀ {cs : List Char}, (∀ piece ∈ Text.splitAt '.' cs, IsName (String.ofList piece)) →
        IsPath ((Text.splitAt '.' cs).map String.ofList) := by
      intro cs hall
      refine ⟨by simpa using Text.splitAt_ne_nil '.' cs, fun name hname => ?_⟩
      obtain ⟨piece, hpiece, rfl⟩ := List.mem_map.mp hname
      exact hall piece hpiece
    cases text with
    | nil => exact absurd rfl hne
    | cons c text =>
        by_cases hc : c = '.'
        · subst hc
          rw [hasDoubleDot_cons] at hdots
          have hne' : text ≠ [] := by
            rintro rfl
            exact hlast' rfl
          rw [List.getLast?_cons_of_ne_nil hne'] at hlast'
          refine .inr ⟨(Text.splitAt '.' text).map String.ofList, by simp [Text.splitAt], hnames ?_⟩
          exact names_of_dotted (fun x hx => hchars x (List.mem_cons_of_mem _ hx)) hne'
            (by simpa using (Bool.or_eq_false_iff.mp hdots).1) hlast'
            (Bool.or_eq_false_iff.mp hdots).2
        · exact .inl (hnames (names_of_dotted hchars hne (by simpa using hc) hlast' hdots))

/-! ## Fields -/

/-- What a field begins with. -/
def Scope.start : Scope → List Char
  | .context => ['c', 't', 'x', '.']
  | .event => ['e', 'v', 'e', 'n', 't', '.']

/-- The text of a field: where it is read, and its path. -/
def Field.text (f : Field) : List Char := f.scope.start ++ (Text.joinDots f.path).toList

theorem field?_append {f : Field} (hf : IsLoosePath f.path) {ws : List Char} (hws : Blank ws)
    {rest : List Char} (hrest : ∀ c ∈ rest.head?, isPathChar c = false) :
    field? (ws ++ (f.text ++ rest)) = .ok (f, rest) := by
  obtain ⟨scope, path⟩ := f
  have hpath := path?_append hf hrest
  unfold field?
  cases scope with
  | context =>
      rw [Field.text, List.append_assoc, show (Scope.context).start = 'c' :: ['t', 'x', '.'] from rfl,
        eat?_append hws (by decide)]
      simp only [hpath]
      rfl
  | event =>
      have hnext : Next ['e'] (ws ++ (Field.text ⟨.event, path⟩ ++ rest)) :=
        next_cons hws (by decide) List.mem_cons_self _
      rw [hnext.eat?_eq_none (by decide), Field.text, List.append_assoc,
        show (Scope.event).start = 'e' :: ['v', 'e', 'n', 't', '.'] from rfl,
        eat?_append hws (by decide)]
      simp only [hpath]
      rfl

theorem field?_eq_ok {cs rest : List Char} {f : Field} (h : field? cs = .ok (f, rest)) :
    IsLoosePath f.path ∧ ∃ ws, Blank ws ∧ cs = ws ++ (f.text ++ rest) := by
  have hpath : ∀ (scope : Scope) {more : List Char}, eat? scope.start cs = some more →
      (path? more >>= fun read => Except.ok (({ scope, path := read.1 } : Field), read.2)) =
        .ok (f, rest) → IsLoosePath f.path ∧ ∃ ws, Blank ws ∧ cs = ws ++ (f.text ++ rest) := by
    intro scope more heat hok
    obtain ⟨⟨path, rest'⟩, hread, heq⟩ := Except.bind_eq_ok.mp hok
    cases heq
    obtain ⟨hloose, hmore⟩ := path?_eq_ok hread
    obtain ⟨ws, hws, hcs⟩ := eat?_eq_some heat
    refine ⟨hloose, ws, hws, ?_⟩
    rw [hcs, hmore, Field.text, List.append_assoc]
  unfold field? at h
  split at h
  · rename_i more heat
    exact hpath .context heat h
  · split at h
    · rename_i more heat
      exact hpath .event heat h
    · cases h

/-! ## Numbers -/

/-- The parts of a number: its sign, the digits before the point, and the point with the digits
after it. -/
structure Numeral where
  negative : Bool
  whole : List Char
  fraction : Option (List Char)

namespace Numeral

/-- The digits after the point. -/
def places (n : Numeral) : List Char := n.fraction.getD []

/-- All digits are digits. -/
def Decimal (n : Numeral) : Prop :=
  (∀ c ∈ n.whole, c.isDigit = true) ∧ ∀ c ∈ n.places, c.isDigit = true

/-- A number has a digit, before or after its point. -/
def Valid (n : Numeral) : Prop := n.Decimal ∧ (n.whole ≠ [] ∨ n.places ≠ [])

instance : DecidablePred Decimal := fun n =>
  decidable_of_iff (n.whole.all Char.isDigit ∧ n.places.all Char.isDigit)
    (and_congr List.all_eq_true List.all_eq_true)

instance : DecidablePred Valid := fun n =>
  inferInstanceAs (Decidable (n.Decimal ∧ (n.whole ≠ [] ∨ n.places ≠ [])))

/-- The digits, with the point if there is one. -/
def digits (n : Numeral) : List Char :=
  match n.fraction with
  | none => n.whole
  | some places => n.whole ++ '.' :: places

def text (n : Numeral) : List Char := if n.negative then '-' :: n.digits else n.digits

/-- What the digits say, rounded to a double. -/
def magnitude (n : Numeral) : Float :=
  Float.ofScientific (naturalOf (n.whole ++ n.places)) true n.places.length

def value (n : Numeral) : Float := if n.negative then -n.magnitude else n.magnitude

end Numeral

/-- No digit and no point goes on with a number. -/
def EndsNumber (rest : List Char) : Prop := ∀ c ∈ rest.head?, c.isDigit = false ∧ c ≠ '.'

theorem endsNumber_of_not_path {rest : List Char} (h : ∀ c ∈ rest.head?, isPathChar c = false) :
    EndsNumber rest := by
  intro c hc
  have hpath := h c hc
  simp only [isPathChar, Bool.or_eq_false_iff, beq_eq_false_iff_ne] at hpath
  refine ⟨?_, hpath.2⟩
  rw [Bool.eq_false_iff]
  intro hdigit
  have halnum := Text.isAlphanumeric_of_isAlphanum (c := c) (by simp [Char.isAlphanum, hdigit])
  rw [hpath.1.1] at halnum
  cases halnum

/-- The digits at the front of a text, with a point and the digits after it, and what is left. -/
def digitsText (cs : List Char) : List Char × List Char :=
  match cs.dropWhile Char.isDigit with
  | '.' :: rest =>
      (cs.takeWhile Char.isDigit ++ '.' :: rest.takeWhile Char.isDigit, rest.dropWhile Char.isDigit)
  | rest => (cs.takeWhile Char.isDigit, rest)

/-- What digits with a point say. -/
def magnitude? (cs : List Char) : Option Float :=
  let whole := cs.takeWhile Char.isDigit
  let places := (cs.dropWhile Char.isDigit).drop 1
  if whole.isEmpty && places.isEmpty then none
  else some (Float.ofScientific (naturalOf (whole ++ places)) true places.length)

theorem numberText_minus (cs : List Char) :
    numberText ('-' :: cs) = ('-' :: (digitsText cs).1, (digitsText cs).2) := by
  simp only [numberText, digitsText]
  generalize cs.dropWhile Char.isDigit = after
  cases after with
  | nil => rfl
  | cons c rest =>
      by_cases hc : c = '.'
      · subst hc
        rfl
      · simp [hc]

theorem numberText_unsigned {cs : List Char} (h : cs.head? ≠ some '-') :
    numberText cs = digitsText cs := by
  unfold numberText digitsText
  split
  rename_i sign cs' heq
  split at heq
  · exact absurd rfl h
  · cases heq
    rfl

theorem toFloat?_minus (cs : List Char) : toFloat? ('-' :: cs) = (magnitude? cs).map (-·) := by
  simp only [toFloat?, magnitude?]
  split <;> rfl

theorem toFloat?_unsigned {cs : List Char} (h : cs.head? ≠ some '-') :
    toFloat? cs = magnitude? cs := by
  unfold toFloat? magnitude?
  split
  rename_i sign cs' heq
  split at heq
  · exact absurd rfl h
  · cases heq
    rfl

theorem takeWhile_digits {ds : List Char} (h : ∀ c ∈ ds, c.isDigit = true) (rest : List Char)
    (hrest : ∀ c ∈ rest.head?, c.isDigit = false) :
    (ds ++ rest).takeWhile Char.isDigit = ds ∧ (ds ++ rest).dropWhile Char.isDigit = rest := by
  rw [List.takeWhile_append_of_pos h, List.dropWhile_append_of_pos h]
  cases rest with
  | nil => simp
  | cons c rest => simp [hrest c rfl]

namespace Numeral

variable {n : Numeral}

/-- The digits of a number begin with a digit or the point, so no sign is among them. -/
theorem Valid.unsigned (hn : n.Valid) (rest : List Char) : (n.digits ++ rest).head? ≠ some '-' := by
  have hdigit : ∀ c : Char, c.isDigit = true → c ≠ '-' := by
    rintro _ hd rfl
    exact absurd hd (by decide)
  obtain ⟨negative, whole, fraction⟩ := n
  cases whole with
  | cons d ds =>
      have hd : d ≠ '-' := hdigit d (hn.1.1 d List.mem_cons_self)
      cases fraction <;> simpa [digits] using hd
  | nil =>
      cases fraction with
      | none => exact absurd hn.2 (by simp [places])
      | some ds => simp [digits]

theorem Decimal.digitsText_append (hn : n.Decimal) {rest : List Char} (hrest : EndsNumber rest) :
    digitsText (n.digits ++ rest) = (n.digits, rest) := by
  obtain ⟨negative, whole, fraction⟩ := n
  obtain ⟨hwhole, hplaces⟩ := hn
  cases fraction with
  | none =>
      obtain ⟨htake, hdrop⟩ := takeWhile_digits hwhole rest fun c hc => (hrest c hc).1
      simp only [digits, digitsText]
      split
      · rename_i more heq
        rw [hdrop] at heq
        exact absurd rfl (hrest '.' (by rw [heq]; rfl)).2
      · rw [htake, hdrop]
  | some ds =>
      obtain ⟨htake, hdrop⟩ := takeWhile_digits hwhole ('.' :: (ds ++ rest)) (by simp)
      obtain ⟨htake', hdrop'⟩ := takeWhile_digits hplaces rest fun c hc => (hrest c hc).1
      simp only [digits, digitsText, List.append_assoc, List.cons_append, htake, hdrop]
      simp only [places, Option.getD_some] at htake' hdrop'
      rw [htake', hdrop']

/-- The text of a number is read off any text that does not go on with it. -/
theorem Valid.numberText_append (hn : n.Valid) {rest : List Char} (hrest : EndsNumber rest) :
    numberText (n.text ++ rest) = (n.text, rest) := by
  have hdigits := hn.1.digitsText_append hrest
  cases hneg : n.negative with
  | true =>
      simp only [text, hneg, if_true, List.cons_append]
      rw [numberText_minus, hdigits]
  | false =>
      simp only [text, hneg, Bool.false_eq_true, if_false]
      rw [numberText_unsigned (hn.unsigned rest), hdigits]

/-- Digits are worth what they say, if there are any. -/
theorem Decimal.magnitude?_digits (hn : n.Decimal) :
    magnitude? n.digits = if n.whole.isEmpty && n.places.isEmpty then none else some n.magnitude := by
  obtain ⟨negative, whole, fraction⟩ := n
  have hwhole : ∀ c ∈ whole, c.isDigit = true := hn.1
  cases fraction with
  | none =>
      obtain ⟨htake, hdrop⟩ := takeWhile_digits hwhole [] (by simp)
      rw [List.append_nil] at htake hdrop
      simp [magnitude?, digits, htake, hdrop, places, magnitude]
  | some ds =>
      obtain ⟨htake, hdrop⟩ := takeWhile_digits hwhole ('.' :: ds) (by simp)
      simp only [magnitude?, digits, htake, hdrop]
      rfl

theorem Valid.toFloat?_text (hn : n.Valid) : toFloat? n.text = some n.value := by
  have hmag : magnitude? n.digits = some n.magnitude := by
    rw [hn.1.magnitude?_digits, if_neg]
    simpa [← not_and_or] using hn.2
  cases hneg : n.negative with
  | true =>
      simp only [text, value, hneg, if_true]
      rw [toFloat?_minus, hmag, Option.map_some]
  | false =>
      have hunsigned := hn.unsigned []
      rw [List.append_nil] at hunsigned
      simp only [text, value, hneg, Bool.false_eq_true, if_false]
      rw [toFloat?_unsigned hunsigned, hmag]

end Numeral

/-- What is taken as digits consists of digits, with or without a point. -/
theorem exists_digitsText (negative : Bool) (cs : List Char) :
    ∃ n : Numeral, n.Decimal ∧ n.negative = negative ∧ (digitsText cs).1 = n.digits ∧
      cs = n.digits ++ (digitsText cs).2 := by
  have hdigits : ∀ cs : List Char, ∀ c ∈ cs.takeWhile Char.isDigit, c.isDigit = true :=
    fun _ _ hc => List.mem_takeWhile_imp hc
  have hcs : cs = cs.takeWhile Char.isDigit ++ cs.dropWhile Char.isDigit :=
    List.takeWhile_append_dropWhile.symm
  unfold digitsText
  split
  · rename_i rest heq
    refine ⟨⟨negative, cs.takeWhile Char.isDigit, some (rest.takeWhile Char.isDigit)⟩,
      ⟨hdigits cs, hdigits rest⟩, rfl, rfl, ?_⟩
    rw [Numeral.digits, List.append_assoc, List.cons_append, List.takeWhile_append_dropWhile, ← heq]
    exact hcs
  · exact ⟨⟨negative, cs.takeWhile Char.isDigit, none⟩, ⟨hdigits cs, by simp [Numeral.places]⟩, rfl,
      rfl, hcs⟩

/-- Digits that are worth something are those of a number. -/
theorem Numeral.Decimal.of_magnitude? {n : Numeral} (hn : n.Decimal) {x : Float}
    (h : magnitude? n.digits = some x) : n.Valid ∧ x = n.magnitude := by
  rw [hn.magnitude?_digits] at h
  split at h
  · cases h
  · rename_i hne
    cases h
    exact ⟨⟨hn, by simpa [Decidable.imp_iff_not_or] using hne⟩, rfl⟩

/-- What is taken as the text of a number is that of one, if it is worth something. -/
theorem exists_numberText (cs : List Char) :
    ∃ n : Numeral, (numberText cs).1 = n.text ∧ cs = n.text ++ (numberText cs).2 ∧
      ∀ x, toFloat? n.text = some x → n.Valid ∧ x = n.value := by
  by_cases hminus : cs.head? = some '-'
  · obtain ⟨more, rfl⟩ := List.head?_eq_some_iff.mp hminus
    obtain ⟨n, hn, hneg, hdigits, hmore⟩ := exists_digitsText true more
    have htext : n.text = '-' :: n.digits := by rw [Numeral.text, hneg, if_pos rfl]
    rw [numberText_minus]
    refine ⟨n, by rw [hdigits, htext], by rw [htext, List.cons_append, ← hmore], fun x hx => ?_⟩
    rw [htext, toFloat?_minus] at hx
    obtain ⟨y, hy, rfl⟩ := Option.map_eq_some_iff.mp hx
    obtain ⟨hok, rfl⟩ := hn.of_magnitude? hy
    exact ⟨hok, by rw [Numeral.value, hneg, if_pos rfl]⟩
  · obtain ⟨n, hn, hneg, hdigits, hmore⟩ := exists_digitsText false cs
    have htext : n.text = n.digits := by simp [Numeral.text, hneg]
    have hunsigned : n.digits.head? ≠ some '-' := by
      intro hhead
      rw [hmore, List.head?_append, hhead] at hminus
      exact hminus rfl
    rw [numberText_unsigned hminus]
    refine ⟨n, by rw [hdigits, htext], by rw [htext]; exact hmore, fun x hx => ?_⟩
    rw [htext, toFloat?_unsigned hunsigned] at hx
    obtain ⟨hok, rfl⟩ := hn.of_magnitude? hx
    exact ⟨hok, by simp [Numeral.value, hneg]⟩

/-- What a number begins with. -/
def numberSigns : List Char := '-' :: '.' :: (List.range' 48 10).map Char.ofNat

theorem mem_numberSigns {c : Char} (h : c.isDigit = true) : c ∈ numberSigns := by
  simp only [Char.isDigit, ge_iff_le, Bool.and_eq_true, decide_eq_true_eq, UInt32.le_iff_toNat_le] at h
  have hmem : c.toNat ∈ List.range' 48 10 := List.mem_range'_1.mpr ⟨h.1, Nat.lt_succ_of_le h.2⟩
  exact List.mem_cons_of_mem _ (List.mem_cons_of_mem _ (List.mem_map.mpr ⟨_, hmem, Char.ofNat_toNat c⟩))

theorem Numeral.Valid.first {n : Numeral} (hn : n.Valid) :
    ∃ c more, n.text = c :: more ∧ c ∈ numberSigns := by
  obtain ⟨negative, whole, fraction⟩ := n
  cases negative with
  | true => exact ⟨'-', _, rfl, List.mem_cons_self⟩
  | false =>
      cases whole with
      | cons d ds =>
          have hd : d ∈ numberSigns := mem_numberSigns (hn.1.1 d List.mem_cons_self)
          cases fraction <;> exact ⟨d, _, rfl, hd⟩
      | nil =>
          cases fraction with
          | none => exact absurd hn.2 (by simp [places])
          | some ds => exact ⟨'.', ds, rfl, by decide⟩

/-- No white space begins a number. -/
theorem numberSigns_not_blank : ∀ c ∈ numberSigns, Text.isBlank c = false :=
  List.all_iff_forall_prop.mp (by decide)

theorem number?_append {n : Numeral} (hn : n.Valid) {ws : List Char} (hws : Blank ws)
    {rest : List Char} (hrest : EndsNumber rest) :
    number? (ws ++ (n.text ++ rest)) = .ok (n.value, rest) := by
  have hskip : skipBlanks (n.text ++ rest) = n.text ++ rest := by
    obtain ⟨c, more, htext, hc⟩ := hn.first
    rw [htext, List.cons_append, skipBlanks_cons (numberSigns_not_blank c hc)]
  unfold number?
  rw [skipBlanks_append hws, hskip, hn.numberText_append hrest]
  simp only [hn.toFloat?_text]

theorem number?_eq_ok {cs rest : List Char} {x : Float} (h : number? cs = .ok (x, rest)) :
    ∃ ws n, Blank ws ∧ Numeral.Valid n ∧ cs = ws ++ (n.text ++ rest) ∧ x = n.value := by
  obtain ⟨ws, hws, hcs⟩ := exists_blank cs
  obtain ⟨n, htext, happend, hvalue⟩ := exists_numberText (skipBlanks cs)
  unfold number? at h
  simp only [htext] at h
  split at h
  · rename_i y hy
    cases h
    obtain ⟨hok, rfl⟩ := hvalue x hy
    exact ⟨ws, n, hws, hok, by rw [← happend]; exact hcs, rfl⟩
  · cases h

/-! ## Literals -/

/-- The text between the quotes of a string, and the characters it stands for. -/
inductive Quoted : List Char → List Char → Prop where
  | done : Quoted [] []
  | plain {c : Char} {text chars : List Char} (hquote : c ≠ '"') (hslash : c ≠ '\\')
      (h : Quoted text chars) : Quoted (c :: text) (c :: chars)
  | escaped (c : Char) {text chars : List Char} (h : Quoted text chars) :
      Quoted ('\\' :: c :: text) (c :: chars)

theorem string?_append {text chars : List Char} (h : Quoted text chars) (done rest : List Char) :
    string? done (text ++ '"' :: rest) = .ok (String.ofList (done.reverse ++ chars), rest) := by
  induction h generalizing done with
  | done => simp [string?]
  | @plain c text chars hquote hslash h ih =>
      rw [List.cons_append, string?, ih]
      · simp
      · simpa using hquote
      · exact fun _ _ hc _ => hslash hc
      · exact fun hc _ => hslash hc
  | @escaped c text chars h ih =>
      rw [List.cons_append, List.cons_append, string?, ih]
      simp

theorem string?_eq_ok {done cs rest : List Char} {s : String} (h : string? done cs = .ok (s, rest)) :
    ∃ text chars, Quoted text chars ∧ cs = text ++ '"' :: rest ∧
      s = String.ofList (done.reverse ++ chars) := by
  fun_induction string? done cs with
  | case1 => cases h
  | case2 done rest' =>
      cases h
      exact ⟨[], [], .done, rfl, by rw [List.append_nil]⟩
  | case3 done c rest' ih =>
      obtain ⟨text, chars, hq, rfl, rfl⟩ := ih h
      exact ⟨'\\' :: c :: text, c :: chars, .escaped c hq, rfl, by simp⟩
  | case4 => cases h
  | case5 done c rest' hquote hslash hend ih =>
      obtain ⟨text, chars, hq, rfl, rfl⟩ := ih h
      have hslash' : c ≠ '\\' := by
        rintro rfl
        cases htext : text ++ '"' :: rest with
        | nil => exact hend rfl htext
        | cons d more => exact hslash d more rfl htext
      exact ⟨c :: text, c :: chars, .plain hquote hslash' hq, rfl, by simp⟩

/-- The texts of a literal. A number is one as long as a double can hold it. -/
inductive Literal.Written : Literal → List Char → Prop where
  | yes : Literal.Written (.bool true) ['t', 'r', 'u', 'e']
  | no : Literal.Written (.bool false) ['f', 'a', 'l', 's', 'e']
  | null : Literal.Written .null ['n', 'u', 'l', 'l']
  | str {text chars : List Char} (h : Quoted text chars) :
      Literal.Written (.str (String.ofList chars)) ('"' :: (text ++ ['"']))
  | num {n : Numeral} (h : n.Valid) (hfinite : n.value.isInf = false) :
      Literal.Written (.num n.value) n.text

theorem literal?_append {l : Literal} {text : List Char} (h : l.Written text) {ws : List Char}
    (hws : Blank ws) {rest : List Char} (hrest : EndsNumber rest) :
    literal? (ws ++ (text ++ rest)) = .ok (l, rest) := by
  have hskip : ∀ {c : Char} (more : List Char), Text.isBlank c = false →
      ∀ {t : Char}, t ≠ c → ∀ token, eat? (t :: token) (ws ++ (c :: more ++ rest)) = none := by
    intro c more hc t ht token
    refine (next_cons hws hc (List.mem_singleton.mpr rfl) _).eat?_eq_none ?_ token
    simpa using ht
  unfold literal?
  cases h with
  | yes => rw [eat?_append hws (by decide)]
  | no => rw [hskip _ (by decide) (by decide), eat?_append hws (by decide)]
  | null =>
      rw [hskip _ (by decide) (by decide), hskip _ (by decide) (by decide),
        eat?_append hws (by decide)]
  | @str text chars hq =>
      have hquote : ws ++ ('"' :: (text ++ ['"']) ++ rest) =
          ws ++ ('"' :: [] ++ (text ++ '"' :: rest)) := by simp
      rw [hskip _ (by decide) (by decide), hskip _ (by decide) (by decide),
        hskip _ (by decide) (by decide), hquote, eat?_append hws (by decide)]
      simp only [string?_append hq]
      rfl
  | @num n hn hfinite =>
      obtain ⟨c, more, htext, hc⟩ := hn.first
      have hblank := numberSigns_not_blank c hc
      have hne : ∀ t ∉ numberSigns, t ≠ c := by
        rintro t ht rfl
        exact ht hc
      have hread := number?_append hn hws hrest
      rw [htext] at hread ⊢
      rw [hskip _ hblank (hne _ (by decide)), hskip _ hblank (hne _ (by decide)),
        hskip _ hblank (hne _ (by decide)), hskip _ hblank (hne _ (by decide)), hread]
      exact if_neg (by simp [hfinite])

theorem literal?_eq_ok {cs rest : List Char} {l : Literal} (h : literal? cs = .ok (l, rest)) :
    ∃ ws text, Blank ws ∧ l.Written text ∧ cs = ws ++ (text ++ rest) := by
  -- true, false and null are tokens of their own
  have hfixed : ∀ {l' : Literal} {token more : List Char}, l'.Written token →
      eat? token cs = some more → (Except.ok (l', more) : Except Fault _) = .ok (l, rest) →
      ∃ ws text, Blank ws ∧ l.Written text ∧ cs = ws ++ (text ++ rest) := by
    intro l' token more htoken heat heq
    cases heq
    obtain ⟨ws, hws, hcs⟩ := eat?_eq_some heat
    exact ⟨ws, token, hws, htoken, hcs⟩
  unfold literal? at h
  split at h
  · rename_i heat
    exact hfixed .yes heat h
  split at h
  · rename_i heat
    exact hfixed .no heat h
  split at h
  · rename_i heat
    exact hfixed .null heat h
  split at h
  · rename_i heat
    obtain ⟨⟨s, rest'⟩, hread, heq⟩ := Except.bind_eq_ok.mp h
    cases heq
    obtain ⟨ws, hws, rfl⟩ := eat?_eq_some heat
    obtain ⟨text, chars, hq, rfl, rfl⟩ := string?_eq_ok hread
    exact ⟨ws, _, hws, .str hq, by simp⟩
  · obtain ⟨⟨x, rest'⟩, hread, heq⟩ := Except.bind_eq_ok.mp h
    obtain ⟨ws, n, hws, hn, rfl, rfl⟩ := number?_eq_ok hread
    dsimp only at heq
    by_cases hinf : n.value.isInf = true
    · rw [if_pos hinf] at heq
      cases heq
    · rw [if_neg hinf] at heq
      cases heq
      exact ⟨ws, _, hws, .num hn (by simpa using hinf), rfl⟩

/-! ## Ordering signs -/

def Order.sign : Order → List Char
  | .lt => ['<']
  | .le => ['<', '=']
  | .gt => ['>']
  | .ge => ['>', '=']

theorem order?_append (o : Order) {ws : List Char} (hws : Blank ws) {rest : List Char}
    (hrest : rest.head? ≠ some '=') : order? (ws ++ (o.sign ++ rest)) = some (o, rest) := by
  have hother : ∀ {c : Char} (more : List Char), Text.isBlank c = false →
      ∀ {t : Char}, t ≠ c → ∀ token, eat? (t :: token) (ws ++ (c :: more)) = none := by
    intro c more hc t ht token
    refine (next_cons hws hc (List.mem_singleton.mpr rfl) _).eat?_eq_none ?_ token
    simpa using ht
  unfold order?
  cases o with
  | le => rw [Order.sign, eat?_append hws (by decide)]
  | ge =>
      rw [Order.sign, List.cons_append, hother _ (by decide) (by decide), ← List.cons_append,
        eat?_append hws (by decide)]
  | lt =>
      rw [Order.sign, eat?_append hws (by decide), List.singleton_append,
        eat?_eq_none_of_second hws (by decide) hrest, hother _ (by decide) (by decide)]
  | gt =>
      rw [Order.sign, eat?_append hws (by decide), List.singleton_append,
        hother _ (by decide) (by decide), eat?_eq_none_of_second hws (by decide) hrest,
        hother _ (by decide) (by decide)]
      rfl

/-- There is no ordering sign if the text goes on with something else. -/
theorem order?_eq_none {signs rest : List Char} (h : Next signs rest) (hlt : '<' ∉ signs)
    (hgt : '>' ∉ signs) : order? rest = none := by
  rw [order?, h.eat?_eq_none hlt, h.eat?_eq_none hgt, h.eat?_eq_none hlt, h.eat?_eq_none hgt]
  rfl

theorem Order.sign_first (o : Order) : ∃ c more, o.sign = c :: more ∧ c ∈ ['<', '>'] := by
  cases o
  · exact ⟨'<', [], rfl, by decide⟩
  · exact ⟨'<', ['='], rfl, by decide⟩
  · exact ⟨'>', [], rfl, by decide⟩
  · exact ⟨'>', ['='], rfl, by decide⟩

theorem order?_eq_some {cs rest : List Char} {o : Order} (h : order? cs = some (o, rest)) :
    ∃ ws, Blank ws ∧ cs = ws ++ (o.sign ++ rest) := by
  have hsign : ∀ (o' : Order) {more : List Char}, eat? o'.sign cs = some more →
      some (o', more) = some (o, rest) → ∃ ws, Blank ws ∧ cs = ws ++ (o.sign ++ rest) := by
    intro o' more heat heq
    cases heq
    exact eat?_eq_some heat
  unfold order? at h
  split at h
  · rename_i heat
    exact hsign .le heat h
  split at h
  · rename_i heat
    exact hsign .ge heat h
  split at h
  · rename_i heat
    exact hsign .lt heat h
  · obtain ⟨more, heat, heq⟩ := Option.map_eq_some_iff.mp h
    exact hsign .gt heat (congrArg some heq)

end Statechart.Guard
