import Mathlib.Data.Bool.AllAny
import Mathlib.Data.List.Basic
import Mathlib.Data.List.TakeWhile
import Statechart.Json.Outline
import Statechart.Json.Printer
import Statechart.Proofs.Fields

/-!
# JSON text

A JSON value is read back from its own text (`parse?_text`), if it is not nested too deeply and
every number in it is read back. Integers of 64 bits are (`exact_int`), and so are the doubles whose
shortest decimals lead back to them; not all do, since digits and exponent are rounded one after the
other when they are read.

The text is read in the same way through an outline that passes nothing over
(`parseOutlined?_text`).
-/

namespace Statechart

namespace Json

/-! ## Strings -/

theorem hexDigit?_hexChar : ∀ n < 16, hexDigit? (hexChar n) = some n := by decide

/-- The escape of a control character is read as that character. -/
theorem unicodeEscape?_control {c : Char} (hc : c.toNat < 32) (rest : List Char) :
    unicodeEscape? ('0' :: '0' :: hexChar (c.toNat / 16) :: hexChar (c.toNat % 16) :: rest) =
      some (c, rest) := by
  have hhigh := hexDigit?_hexChar (c.toNat / 16) (by omega)
  have hlow := hexDigit?_hexChar (c.toNat % 16) (by omega)
  have hzero : hexDigit? '0' = some 0 := rfl
  have hunit : hexUnit? ('0' :: '0' :: hexChar (c.toNat / 16) :: hexChar (c.toNat % 16) :: rest) =
      some (c.toNat, rest) := by
    simp only [hexUnit?, hzero, hhigh, hlow, Option.bind_eq_bind, Option.bind_some]
    rw [show ((0 * 16 + 0) * 16 + c.toNat / 16) * 16 + c.toNat % 16 = c.toNat by omega]
  simp only [unicodeEscape?, hunit, Option.bind_eq_bind, Option.bind_some]
  rw [if_neg (by omega), if_neg (by omega), Char.ofNat_toNat]

/-- A character stands for itself, or behind a backslash as a letter or by its number. -/
theorem escape_cases (c : Char) :
    (∃ e, escape c = ['\\', e] ∧ e ≠ 'u' ∧ shortEscape? e = some c) ∨
    (c.toNat < 32 ∧ escape c =
      ['\\', 'u', '0', '0', hexChar (c.toNat / 16), hexChar (c.toNat % 16)]) ∨
    (escape c = [c] ∧ c ≠ '"' ∧ c ≠ '\\' ∧ ¬ c.toNat < 32) := by
  unfold escape
  iterate 7
    split
    · subst_vars
      exact .inl ⟨_, rfl, by decide, rfl⟩
  split
  · rename_i hcontrol
    exact .inr (.inl ⟨hcontrol, rfl⟩)
  · rename_i hquote hslash _ _ _ _ _ hplain
    exact .inr (.inr ⟨rfl, hquote, hslash, hplain⟩)

/-- A character in a string is read back. -/
theorem stringBody?_escape (c : Char) (fuel : Nat) (done rest : List Char) :
    stringBody? (fuel + 1) done (escape c ++ rest) = stringBody? fuel (c :: done) rest := by
  obtain ⟨e, hescape, he, hshort⟩ | ⟨hcontrol, hescape⟩ | ⟨hescape, hquote, hslash, hplain⟩ :=
    escape_cases c
  · rw [hescape]
    simp [stringBody?, hshort]
  · rw [hescape]
    simp only [List.cons_append, List.nil_append, stringBody?]
    rw [unicodeEscape?_control hcontrol]
    rfl
  · rw [hescape, List.singleton_append]
    conv_lhs => unfold stringBody?
    rw [if_neg hquote, if_neg hslash, if_neg hplain]

theorem stringBody?_escaped : ∀ {cs : List Char} {fuel : Nat} (done rest : List Char),
    cs.length < fuel →
      stringBody? fuel done (cs.flatMap escape ++ '"' :: rest) =
        some (String.ofList (done.reverse ++ cs), rest)
  | [], fuel + 1, done, rest, _ => by simp [stringBody?]
  | c :: cs, fuel + 1, done, rest, hfuel => by
      rw [List.flatMap_cons, List.append_assoc, stringBody?_escape,
        stringBody?_escaped (c :: done) rest (Nat.lt_of_succ_lt_succ hfuel)]
      simp

theorem length_le_escaped (cs : List Char) : cs.length ≤ (cs.flatMap escape).length := by
  induction cs with
  | nil => simp
  | cons c cs ih =>
      have hone : 1 ≤ (escape c).length := by
        obtain ⟨e, hescape, -⟩ | ⟨-, hescape⟩ | ⟨hescape, -⟩ := escape_cases c <;> simp [hescape]
      simp only [List.flatMap_cons, List.length_append, List.length_cons]
      omega

/-- A string is read back from its text, of which the opening quote has been read. -/
theorem stringBody?_quote (s : String) (rest : List Char) :
    stringBody? ((s.toList.flatMap escape ++ '"' :: rest).length + 1) []
      (s.toList.flatMap escape ++ '"' :: rest) = some (s, rest) := by
  have hlength := length_le_escaped s.toList
  rw [stringBody?_escaped [] rest (by simp only [List.length_append]; omega)]
  simp

theorem toList_quote (s : String) :
    (quote s).toList = '"' :: (s.toList.flatMap escape ++ ['"']) := by
  simp [quote]

/-! ## Numbers -/

/-- Nothing stands behind a number that would go on with it. -/
def EndsNumber (rest : List Char) : Prop :=
  ∀ c ∈ rest.head?, c.isDigit = false ∧ c ≠ '.' ∧ c ≠ 'e' ∧ c ≠ 'E'

theorem endsNumber_nil : EndsNumber [] := fun _ h => by cases h

theorem spanDigits_append {rest : List Char} (hrest : EndsNumber rest) (cs : List Char) :
    spanDigits (cs ++ rest) = ((spanDigits cs).1, (spanDigits cs).2 ++ rest) := by
  have htake : rest.takeWhile Char.isDigit = [] ∧ rest.dropWhile Char.isDigit = rest := by
    cases rest with
    | nil => exact ⟨rfl, rfl⟩
    | cons c rest =>
        have hc := (hrest c rfl).1
        simp [hc]
  induction cs with
  | nil => simp [spanDigits, htake.1, htake.2]
  | cons c cs ih =>
      simp only [spanDigits, Prod.mk.injEq] at ih
      cases hc : c.isDigit <;> simp [spanDigits, hc, ih.1, ih.2]

theorem fraction?_none {cs : List Char} (h : cs.head? ≠ some '.') :
    fraction? cs = some (none, cs) := by
  unfold fraction?
  split
  · exact absurd rfl h
  · rfl

theorem fraction?_append {rest : List Char} (hrest : EndsNumber rest) {cs more : List Char}
    {fraction : Option (List Char)} (h : fraction? cs = some (fraction, more)) :
    fraction? (cs ++ rest) = some (fraction, more ++ rest) := by
  by_cases hpoint : cs.head? = some '.'
  · obtain ⟨cs, rfl⟩ := List.head?_eq_some_iff.mp hpoint
    rw [fraction?] at h
    rw [List.cons_append, fraction?, spanDigits_append hrest]
    cases hspan : spanDigits cs with
    | mk digits after =>
        rw [hspan] at h
        cases digits with
        | nil => cases h
        | cons d ds =>
            cases h
            rfl
  · rw [fraction?_none hpoint] at h
    cases h
    refine fraction?_none fun hhead => ?_
    cases cs with
    | nil => exact (hrest '.' hhead).2.1 rfl
    | cons c cs => exact hpoint hhead

theorem exponent?_none {cs : List Char} (h : ∀ c ∈ cs.head?, c ≠ 'e' ∧ c ≠ 'E') :
    exponent? cs = some (none, cs) := by
  cases cs with
  | nil => rfl
  | cons c cs =>
      obtain ⟨he, hE⟩ := h c rfl
      simp [exponent?, he, hE]

/-- The sign of an exponent, true if it is negative, and what follows it. -/
def exponentSign : List Char → Bool × List Char
  | '+' :: rest => (false, rest)
  | '-' :: rest => (true, rest)
  | rest => (false, rest)

theorem exponentSign_append {cs : List Char} (h : cs ≠ []) (rest : List Char) :
    exponentSign (cs ++ rest) = ((exponentSign cs).1, (exponentSign cs).2 ++ rest) := by
  cases cs with
  | nil => exact absurd rfl h
  | cons c cs =>
      unfold exponentSign
      split
      · rename_i heq
        cases heq
        rfl
      · rename_i heq
        cases heq
        rfl
      · rename_i hplus hminus
        split
        · rename_i heq
          cases heq
          exact (hplus _ rfl).elim
        · rename_i heq
          cases heq
          exact (hminus _ rfl).elim
        · rfl

theorem exponent?_mark {c : Char} (h : c = 'e' ∨ c = 'E') (cs : List Char) :
    exponent? (c :: cs) = match spanDigits (exponentSign cs).2 with
      | ([], _) => none
      | (digits, rest) => some (some ((exponentSign cs).1, digits), rest) := by
  unfold exponent?
  simp only [if_pos h]
  rfl

theorem exponent?_append {rest : List Char} (hrest : EndsNumber rest) {cs more : List Char}
    {exponent : Option (Bool × List Char)} (h : exponent? cs = some (exponent, more)) :
    exponent? (cs ++ rest) = some (exponent, more ++ rest) := by
  by_cases hmark : ∃ c ∈ cs.head?, c = 'e' ∨ c = 'E'
  · obtain ⟨c, hc, hmark⟩ := hmark
    obtain ⟨cs, rfl⟩ := List.head?_eq_some_iff.mp hc
    have hne : cs ≠ [] := by
      rintro rfl
      rw [exponent?_mark hmark] at h
      cases h
    rw [exponent?_mark hmark] at h
    rw [List.cons_append, exponent?_mark hmark, exponentSign_append hne, spanDigits_append hrest]
    cases hspan : spanDigits (exponentSign cs).2 with
    | mk digits after =>
        rw [hspan] at h
        cases digits with
        | nil => cases h
        | cons d ds =>
            cases h
            rfl
  · have hnone : ∀ c ∈ cs.head?, c ≠ 'e' ∧ c ≠ 'E' := by
      intro c hc
      exact not_or.mp fun hor => hmark ⟨c, hc, hor⟩
    rw [exponent?_none hnone] at h
    cases h
    refine exponent?_none fun c hc => ?_
    cases cs with
    | nil => exact (hrest c hc).2.2
    | cons d cs => exact hnone c hc

/-- The sign of a number, true if it is negative, and what follows it. -/
def numberSign : List Char → Bool × List Char
  | '-' :: rest => (true, rest)
  | rest => (false, rest)

theorem numberSign_append {cs : List Char} (h : cs ≠ []) (rest : List Char) :
    numberSign (cs ++ rest) = ((numberSign cs).1, (numberSign cs).2 ++ rest) := by
  cases cs with
  | nil => exact absurd rfl h
  | cons c cs =>
      unfold numberSign
      split
      · rename_i heq
        cases heq
        rfl
      · rename_i hminus
        split
        · rename_i heq
          cases heq
          exact (hminus _ rfl).elim
        · rfl

/-- The digits of a number before its point, of which a zero is the only one. -/
def IsWhole (whole : List Char) : Prop :=
  whole ≠ [] ∧ (whole.head? = some '0' → whole.length = 1)

theorem numberText?_eq_some {cs more : List Char} {t : NumberText} :
    numberText? cs = some (t, more) ↔
      t.negative = (numberSign cs).1 ∧ t.whole = (spanDigits (numberSign cs).2).1 ∧
        IsWhole t.whole ∧ ∃ after, fraction? (spanDigits (numberSign cs).2).2 =
          some (t.fraction, after) ∧ exponent? after = some (t.exponent, more) := by
  have hparts : numberText? cs =
      if (spanDigits (numberSign cs).2).1.isEmpty ∨
          ((spanDigits (numberSign cs).2).1.head? = some '0' ∧
            (spanDigits (numberSign cs).2).1.length ≠ 1) then none
      else (fraction? (spanDigits (numberSign cs).2).2).bind fun f =>
        (exponent? f.2).bind fun x =>
          some (⟨(numberSign cs).1, (spanDigits (numberSign cs).2).1, f.1, x.1⟩, x.2) := rfl
  have hwhole : ∀ whole : List Char, IsWhole whole ↔
      ¬ (whole.isEmpty ∨ (whole.head? = some '0' ∧ whole.length ≠ 1)) := by
    intro whole
    simp [IsWhole]
  obtain ⟨negative, whole, fraction, exponent⟩ := t
  rw [hparts]
  dsimp only
  constructor
  · intro h
    split at h
    · cases h
    · rename_i hok
      obtain ⟨⟨f, after⟩, hfraction, hrest⟩ := Option.bind_eq_some_iff.mp h
      obtain ⟨⟨x, after'⟩, hexponent, heq⟩ := Option.bind_eq_some_iff.mp hrest
      cases heq
      exact ⟨rfl, rfl, (hwhole _).mpr hok, after, hfraction, hexponent⟩
  · rintro ⟨rfl, rfl, hok, after, hfraction, hexponent⟩
    rw [if_neg ((hwhole _).mp hok)]
    exact Option.bind_eq_some_iff.mpr ⟨_, hfraction, Option.bind_eq_some_iff.mpr ⟨_, hexponent, rfl⟩⟩

theorem numberText?_append {rest : List Char} (hrest : EndsNumber rest) {cs more : List Char}
    {t : NumberText} (h : numberText? cs = some (t, more)) :
    numberText? (cs ++ rest) = some (t, more ++ rest) := by
  obtain ⟨hnegative, hwhole, hok, after, hfraction, hexponent⟩ := numberText?_eq_some.mp h
  have hne : cs ≠ [] := by
    rintro rfl
    exact hok.1 (hwhole.trans rfl)
  refine numberText?_eq_some.mpr ?_
  rw [numberSign_append hne, spanDigits_append hrest]
  exact ⟨hnegative, hwhole, hok, after ++ rest, fraction?_append hrest hfraction,
    exponent?_append hrest hexponent⟩

/-- A number is read off a text that does not go on with it. -/
theorem number?_append {rest : List Char} (hrest : EndsNumber rest) {cs more : List Char}
    {n : Number} (h : number? cs = some (n, more)) : number? (cs ++ rest) = some (n, more ++ rest) := by
  obtain ⟨⟨t, after⟩, htext, hread⟩ := Option.bind_eq_some_iff.mp h
  obtain ⟨n', hn, heq⟩ := Option.bind_eq_some_iff.mp hread
  cases heq
  exact Option.bind_eq_some_iff.mpr ⟨_, numberText?_append hrest htext,
    Option.bind_eq_some_iff.mpr ⟨_, hn, rfl⟩⟩

/-- What a number begins with: a digit or its sign. -/
def BeginsNumber (c : Char) : Prop := c = '-' ∨ c.isDigit = true

theorem BeginsNumber.ne {c x : Char} (h : BeginsNumber c) (hminus : x ≠ '-')
    (hdigit : x.isDigit = false) : c ≠ x := by
  rintro rfl
  rcases h with rfl | h
  · exact hminus rfl
  · rw [h] at hdigit
    cases hdigit

theorem BeginsNumber.not_blank {c : Char} (h : BeginsNumber c) : isBlank c = false := by
  simp [isBlank, h.ne (x := ' ') (by decide) rfl, h.ne (x := '\n') (by decide) rfl,
    h.ne (x := '\t') (by decide) rfl, h.ne (x := '\r') (by decide) rfl]

theorem number?_first {cs more : List Char} {n : Number} (h : number? cs = some (n, more)) :
    ∃ c ∈ cs.head?, BeginsNumber c := by
  obtain ⟨⟨t, after⟩, htext, -⟩ := Option.bind_eq_some_iff.mp h
  obtain ⟨-, hwhole, hok, -⟩ := numberText?_eq_some.mp htext
  cases cs with
  | nil => exact absurd (hwhole.trans rfl) hok.1
  | cons c cs =>
      refine ⟨c, rfl, ?_⟩
      by_cases hminus : c = '-'
      · exact .inl hminus
      · right
        have hsign : numberSign (c :: cs) = (false, c :: cs) := by
          unfold numberSign
          split
          · rename_i heq
            cases heq
            exact absurd rfl hminus
          · rfl
        rw [hsign] at hwhole
        by_contra hdigit
        refine hok.1 (hwhole.trans ?_)
        simp [spanDigits, hdigit]

/-! ## Integers -/

theorem le_ofDigitChars : ∀ (digits : List Char) (kept : Nat),
    kept ≤ Nat.ofDigitChars 10 digits kept
  | [], kept => Nat.le_refl kept
  | c :: digits, kept => by
      have hrest := le_ofDigitChars digits (10 * kept + (c.toNat - '0'.toNat))
      rw [Nat.ofDigitChars_cons]
      omega

/-- Digits are kept while their value fits. -/
theorem absorb_eq : ∀ {digits : List Char} (kept count : Nat),
    Nat.ofDigitChars 10 digits kept ≤ Number.maxDigits →
      Number.absorb kept count digits = (Nat.ofDigitChars 10 digits kept, count + digits.length)
  | [], kept, count, _ => rfl
  | c :: digits, kept, count, h => by
      have hvalue : kept * 10 + Number.digitValue c = 10 * kept + (c.toNat - '0'.toNat) := by
        rw [Number.digitValue, Nat.mul_comm]
      rw [Nat.ofDigitChars_cons] at h ⊢
      have hfits := Nat.le_trans (le_ofDigitChars digits _) h
      simp only [Number.absorb, hvalue, if_pos hfits]
      rw [absorb_eq _ _ h, List.length_cons, Nat.add_right_comm, Nat.add_assoc]

/-- The digits of a number are taken in whole. -/
theorem absorb_toDigits {n : Nat} (h : n ≤ Number.maxDigits) :
    Number.absorb 0 0 (Nat.toDigits 10 n) = (n, (Nat.toDigits 10 n).length) := by
  have hvalue : Nat.ofDigitChars 10 (Nat.toDigits 10 n) 0 = n :=
    Nat.ofDigitChars_toDigits (by omega) (by omega)
  rw [absorb_eq 0 0 (by rw [hvalue]; exact h), hvalue, Nat.zero_add]

/-- The digits of a number do not begin with a zero, but for zero itself. -/
theorem head_toDigits {n : Nat} (h : 0 < n) : (Nat.toDigits 10 n).head? ≠ some '0' := by
  induction n using Nat.strongRecOn with
  | _ n ih =>
      rw [Nat.toDigits_eq_if (by omega)]
      split
      · rename_i hlt
        have hdigit : ∀ n < 10, 0 < n → [n.digitChar].head? ≠ some '0' := by decide
        exact hdigit n hlt h
      · rw [List.head?_append_of_ne_nil _ Nat.toDigits_ne_nil]
        exact ih (n / 10) (by omega) (by omega)

theorem isWhole_toDigits (n : Nat) : IsWhole (Nat.toDigits 10 n) := by
  refine ⟨Nat.toDigits_ne_nil, fun hzero => ?_⟩
  rcases Nat.eq_zero_or_pos n with rfl | hpos
  · rfl
  · exact absurd hzero (head_toDigits hpos)

/-- The digits of a number, with or without a sign, are the text of one without a point. -/
theorem numberText?_toDigits (n : Nat) :
    numberText? (Nat.toDigits 10 n) = some (⟨false, Nat.toDigits 10 n, none, none⟩, []) ∧
      numberText? ('-' :: Nat.toDigits 10 n) = some (⟨true, Nat.toDigits 10 n, none, none⟩, []) := by
  have hall : ∀ c ∈ Nat.toDigits 10 n, c.isDigit = true :=
    fun c hc => Nat.isDigit_of_mem_toDigits (by omega) (by omega) hc
  have hspan : spanDigits (Nat.toDigits 10 n) = (Nat.toDigits 10 n, []) := by
    rw [spanDigits, List.takeWhile_eq_self_iff.mpr hall, List.dropWhile_eq_nil_iff.mpr hall]
  have hsign : numberSign (Nat.toDigits 10 n) = (false, Nat.toDigits 10 n) := by
    unfold numberSign
    split
    · rename_i rest heq
      exact absurd (hall '-' (by rw [heq]; exact List.mem_cons_self)) (by decide)
    · rfl
  refine ⟨numberText?_eq_some.mpr ?_, numberText?_eq_some.mpr ?_⟩
  · rw [hsign, hspan]
    exact ⟨rfl, rfl, isWhole_toDigits n, [], rfl, rfl⟩
  · rw [show numberSign ('-' :: Nat.toDigits 10 n) = (true, Nat.toDigits 10 n) from rfl, hspan]
    exact ⟨rfl, rfl, isWhole_toDigits n, [], rfl, rfl⟩

end Json

/-- A number that is read back from its own text. -/
def Number.Exact (n : Number) : Prop := Json.number? n.text.toList = some (n, [])

instance (n : Number) : Decidable n.Exact :=
  inferInstanceAs (Decidable (Json.number? n.text.toList = some (n, [])))

namespace Json

/-- Integers of 64 bits are read back, with a sign or without. -/
theorem exact_int {n : Int} (hlow : -9223372036854775808 ≤ n) (hhigh : n < 18446744073709551616) :
    (Number.int n).Exact := by
  have hmax : Number.maxDigits = 18446744073709551615 := rfl
  have hhalf : UInt64.size / 2 = 9223372036854775808 := rfl
  cases n with
  | ofNat m =>
      have hm : m ≤ Number.maxDigits := by
        rw [hmax]
        have : (Int.ofNat m) = (m : Int) := rfl
        omega
      have htext : (Number.int (.ofNat m)).text.toList = Nat.toDigits 10 m := by
        rw [Number.text, Int.toString_eq_repr, Int.repr, Nat.toList_repr]
      rw [Number.Exact, htext]
      refine Option.bind_eq_some_iff.mpr ⟨_, (numberText?_toDigits m).1, ?_⟩
      refine Option.bind_eq_some_iff.mpr ⟨.int m, ?_, rfl⟩
      simp only [Number.read?, absorb_toDigits hm]
      simp
  | negSucc m =>
      have hm : m + 1 ≤ Number.maxDigits := by
        rw [hmax]
        omega
      have htext : (Number.int (.negSucc m)).text.toList = '-' :: Nat.toDigits 10 (m + 1) := by
        rw [Number.text, Int.toString_eq_repr, Int.repr, String.toList_append, Nat.toList_repr]
        rfl
      rw [Number.Exact, htext]
      refine Option.bind_eq_some_iff.mpr ⟨_, (numberText?_toDigits (m + 1)).2, ?_⟩
      refine Option.bind_eq_some_iff.mpr ⟨.int (.negSucc m), ?_, rfl⟩
      -- not zero, and small enough for a sign, so it is not read as a double
      have hfits : ¬ (m + 1 = 0 ∨ UInt64.size / 2 < m + 1) := by
        rw [hhalf]
        omega
      simp only [Number.read?, absorb_toDigits hm]
      rw [if_neg (by simp), if_neg (by simp), if_neg hfits]
      rfl

/-! ## Values -/

/-- All numbers of a value are read back. -/
inductive Legible : Json → Prop where
  | null : Legible .null
  | bool (b : Bool) : Legible (.bool b)
  | num {n : Number} (h : n.Exact) : Legible (.num n)
  | str (s : String) : Legible (.str s)
  | arr {items : List Json} (h : ∀ j ∈ items, Legible j) : Legible (.arr items)
  | obj {fields : List (String × Json)} (h : ∀ f ∈ fields, Legible f.2) : Legible (.obj fields)

theorem toList_join (separator s : String) (rest : List String) :
    (join separator (s :: rest)).toList =
      s.toList ++ rest.flatMap fun s => separator.toList ++ s.toList := by
  induction rest generalizing s with
  | nil => simp [join]
  | cons s' rest ih => simp [join, ih, List.append_assoc]

theorem itemTexts_eq_map (items : List Json) : itemTexts items = items.map text := by
  induction items with
  | nil => rfl
  | cons j js ih => rw [itemTexts, ih, List.map_cons]

theorem fieldTexts_eq_map (fields : List (String × Json)) :
    fieldTexts fields = fields.map fun f => quote f.1 ++ ":" ++ text f.2 := by
  induction fields with
  | nil => rfl
  | cons f fields ih => rw [fieldTexts, ih, List.map_cons]

/-- The text of items, with a comma before each but the first. -/
def itemsText (j : Json) (js : List Json) : List Char :=
  j.text.toList ++ js.flatMap fun j => ',' :: j.text.toList

/-- The text of a field. -/
def fieldText (f : String × Json) : List Char := (quote f.1).toList ++ ':' :: f.2.text.toList

/-- The text of fields, with a comma before each but the first. -/
def fieldsText (f : String × Json) (fs : List (String × Json)) : List Char :=
  fieldText f ++ fs.flatMap fun f => ',' :: fieldText f

theorem toList_text_arr (j : Json) (js : List Json) :
    (text (.arr (j :: js))).toList = '[' :: (itemsText j js ++ [']']) := by
  simp [text, itemTexts_eq_map, toList_join, itemsText, List.flatMap_map]

theorem toList_text_obj (f : String × Json) (fs : List (String × Json)) :
    (text (.obj (f :: fs))).toList = '\x7b' :: (fieldsText f fs ++ ['\x7d']) := by
  simp [text, fieldTexts_eq_map, toList_join, fieldsText, fieldText, List.flatMap_map]

theorem skipBlanks_cons {c : Char} (h : isBlank c = false) (cs : List Char) :
    skipBlanks (c :: cs) = c :: cs := by
  rw [skipBlanks, List.dropWhile_cons, if_neg (by simp [h])]

/-- No number is gone on with by a comma or a bracket. -/
theorem endsNumber_cons {c : Char} (h : c ∈ [',', ']', '\x7d']) (rest : List Char) :
    EndsNumber (c :: rest) := by
  have hall : ∀ c ∈ [',', ']', '\x7d'], c.isDigit = false ∧ c ≠ '.' ∧ c ≠ 'e' ∧ c ≠ 'E' :=
    List.all_iff_forall_prop.mp (by decide)
  rintro _ ⟨⟩
  exact hall c h

/-- What a value begins with: no white space and no closing bracket. -/
theorem Legible.first {j : Json} (h : j.Legible) : ∃ c more, j.text.toList = c :: more ∧
    isBlank c = false ∧ c ≠ ']' ∧ c ≠ '\x7d' := by
  cases h with
  | null => exact ⟨'n', _, rfl, by decide⟩
  | bool b =>
      cases b
      · exact ⟨'f', _, rfl, by decide⟩
      · exact ⟨'t', _, rfl, by decide⟩
  | @num n h =>
      obtain ⟨c, hc, hfirst⟩ := number?_first h
      obtain ⟨more, hmore⟩ := List.head?_eq_some_iff.mp hc
      exact ⟨c, more, hmore, hfirst.not_blank, hfirst.ne (by decide) rfl,
        hfirst.ne (by decide) rfl⟩
  | str s => exact ⟨'"', _, toList_quote s, by decide⟩
  | @arr items _ =>
      cases items with
      | nil => exact ⟨'[', _, rfl, by decide⟩
      | cons j js => exact ⟨'[', _, toList_text_arr j js, by decide⟩
  | @obj fields _ =>
      cases fields with
      | nil => exact ⟨'\x7b', _, rfl, by decide⟩
      | cons f fs => exact ⟨'\x7b', _, toList_text_obj f fs, by decide⟩

/-- What it means that a value is read off its text. Two calls are nested for each character. -/
def Transcribed (j : Json) : Prop :=
  ∀ fuel depth rest, j.depth ≤ depth → 2 * j.text.toList.length ≤ fuel → EndsNumber rest →
    value? fuel depth (j.text.toList ++ rest) = some (j, rest)

/-- A value that begins like a number is read as one. -/
theorem value?_number {c : Char} (h : BeginsNumber c) (fuel depth : Nat) (more : List Char) :
    value? (fuel + 1) depth (c :: more) = (number? (c :: more)).map fun (n, r) => (.num n, r) := by
  have hother : ∀ {x : Char} {rest : List Char}, x ≠ '-' → x.isDigit = false →
      c :: more ≠ x :: rest := fun hx hx' heq => h.ne hx hx' (List.cons.inj heq).1
  rw [value?, skipBlanks_cons h.not_blank]
  -- none of the words, quotes and brackets that are looked for begins a number
  split
  iterate 6
    · rename_i heq
      exact absurd heq (hother (by decide) rfl)
  · rfl

theorem transcribed_num {n : Number} (h : n.Exact) : Transcribed (.num n) := by
  intro fuel depth rest _ hfuel hrest
  have hread := number?_append hrest h
  obtain ⟨c, hc, hfirst⟩ := number?_first h
  obtain ⟨more, hmore⟩ := List.head?_eq_some_iff.mp hc
  rw [text] at hfuel ⊢
  rw [hmore] at hfuel hread ⊢
  cases fuel with
  | zero => simp at hfuel
  | succ fuel =>
      rw [List.cons_append, value?_number hfirst, ← List.cons_append, hread]
      rfl

/-- Items that are read off their texts are read as a list. -/
theorem items?_text {js : List Json} : ∀ {j : Json}, Transcribed j → (∀ j ∈ js, Transcribed j) →
    ∀ {fuel depth : Nat} (done : List Json) (rest : List Char), depthItems (j :: js) ≤ depth →
      2 * (itemsText j js).length + 1 ≤ fuel →
        items? fuel depth done (itemsText j js ++ ']' :: rest) =
          some (done.reverse ++ j :: js, rest) := by
  induction js with
  | nil =>
      intro j hj _ fuel depth done rest hdepth hfuel
      obtain ⟨fuel, rfl⟩ : ∃ fuel', fuel = fuel' + 1 := ⟨fuel - 1, by omega⟩
      simp only [itemsText, List.flatMap_nil, List.append_nil] at hfuel ⊢
      have hread := hj fuel depth (']' :: rest) (Nat.le_trans (Nat.le_max_left _ _) hdepth) (by omega)
        (endsNumber_cons (by decide) rest)
      rw [items?, hread]
      simp [skipBlanks_cons (show isBlank ']' = false from rfl)]
  | cons j' js ih =>
      intro j hj hjs fuel depth done rest hdepth hfuel
      obtain ⟨fuel, rfl⟩ : ∃ fuel', fuel = fuel' + 1 := ⟨fuel - 1, by omega⟩
      have htext : itemsText j (j' :: js) = j.text.toList ++ ',' :: itemsText j' js := by
        simp [itemsText]
      simp only [htext, List.length_append, List.length_cons] at hfuel
      have hread := hj fuel depth (',' :: (itemsText j' js ++ ']' :: rest))
        (Nat.le_trans (Nat.le_max_left _ _) hdepth) (by omega) (endsNumber_cons (by decide) _)
      have hmore : items? fuel depth (j :: done) (itemsText j' js ++ ']' :: rest) =
          some ((j :: done).reverse ++ j' :: js, rest) :=
        ih (hjs j' List.mem_cons_self) (fun j hj => hjs j (List.mem_cons_of_mem _ hj))
          (j :: done) rest (Nat.le_trans (Nat.le_max_right _ _) hdepth) (by omega)
      rw [htext, List.append_assoc, List.cons_append, items?, hread]
      simp [skipBlanks_cons (show isBlank ',' = false from rfl), hmore]

/-- A text is read with some fuel. -/
theorem Legible.fuel {j : Json} (h : j.Legible) {k fuel : Nat}
    (hfuel : (k + 1) * j.text.toList.length ≤ fuel) : ∃ fuel', fuel = fuel' + 1 := by
  obtain ⟨c, more, hfirst, -⟩ := h.first
  rw [hfirst, List.length_cons, Nat.mul_add] at hfuel
  exact ⟨fuel - 1, by omega⟩

theorem transcribed_arr {items : List Json} (h : (Json.arr items).Legible)
    (hitems : ∀ j ∈ items, Transcribed j) : Transcribed (.arr items) := by
  intro fuel depth rest hdepth hfuel _
  obtain ⟨fuel, rfl⟩ := h.fuel hfuel
  cases depth with
  | zero => simp [Json.depth] at hdepth
  | succ depth =>
      cases items with
      | nil =>
          have htext : (text (.arr [])).toList = ['[', ']'] := rfl
          rw [htext]
          simp [value?, skipBlanks_cons (show isBlank '[' = false from rfl),
            skipBlanks_cons (show isBlank ']' = false from rfl)]
      | cons j js =>
          have hj : j.Legible := by
            cases h with
            | arr h => exact h j List.mem_cons_self
          -- no item begins with a blank or a closing bracket, so the array is not read as empty
          obtain ⟨c, more, hfirst, hblank, hclosed, -⟩ := hj.first
          have hread : items? fuel depth [] (itemsText j js ++ ']' :: rest) =
              some ([].reverse ++ j :: js, rest) := by
            refine items?_text (hitems j List.mem_cons_self)
              (fun j hj => hitems j (List.mem_cons_of_mem _ hj)) [] rest ?_ ?_
            · rw [Json.depth] at hdepth
              omega
            · rw [toList_text_arr] at hfuel
              simp only [List.length_cons, List.length_append] at hfuel
              omega
          have hbody : itemsText j js ++ ']' :: rest = c :: (more ++
              ((js.flatMap fun j => ',' :: j.text.toList) ++ ']' :: rest)) := by
            rw [itemsText, hfirst]
            simp
          rw [toList_text_arr, List.cons_append, List.append_assoc, List.singleton_append]
          rw [hbody] at hread ⊢
          rw [value?, skipBlanks_cons (show isBlank '[' = false from rfl)]
          simp only [skipBlanks_cons hblank]
          split
          · rename_i heq
            exact absurd (List.cons.inj heq).1 hclosed
          · rw [hread]
            rfl

/-- What fields go on with after one of them, given how the next ones are read. -/
def afterField (loop : List (String × Json) → List Char → Option (List (String × Json) × List Char))
    (done : List (String × Json)) (rest : List Char) : Option (List (String × Json) × List Char) :=
  match skipBlanks rest with
  | ',' :: rest => loop done rest
  | '\x7d' :: rest => some (done.reverse, rest)
  | _ => none

theorem afterField_comma
    (loop : List (String × Json) → List Char → Option (List (String × Json) × List Char))
    (done : List (String × Json)) (rest : List Char) :
    afterField loop done (',' :: rest) = loop done rest := rfl

theorem afterField_closed
    (loop : List (String × Json) → List Char → Option (List (String × Json) × List Char))
    (done : List (String × Json)) (rest : List Char) :
    afterField loop done ('\x7d' :: rest) = some (done.reverse, rest) := rfl

/-- A field is read as its key and then its value. -/
theorem fields?_field {fuel depth : Nat} {done : List (String × Json)} {key : String}
    {cs : List Char} {j : Json} {rest : List Char} (h : value? fuel depth cs = some (j, rest)) :
    fields? (fuel + 1) depth done ((quote key).toList ++ ':' :: cs) =
      afterField (fields? fuel depth) ((key, j) :: done) rest := by
  have hkey := stringBody?_quote key (':' :: cs)
  have htext : (quote key).toList ++ ':' :: cs =
      '"' :: (key.toList.flatMap escape ++ '"' :: ':' :: cs) := by simp [toList_quote]
  rw [htext, fields?, skipBlanks_cons (show isBlank '"' = false from rfl)]
  simp only [hkey, Option.bind_eq_bind, Option.bind_some,
    skipBlanks_cons (show isBlank ':' = false from rfl), expect?, if_true, h]
  rfl

/-- A loop over fields, which may read each value in its own way, reads them off their texts. Of `k`
calls for each character it uses one for itself. -/
theorem loop_fieldsText {k : Nat} (hk : 0 < k)
    (loop : Nat → List (String × Json) → List Char → Option (List (String × Json) × List Char))
    (Reads : Nat → String → List Char → Json → List Char → Prop)
    (hloop : ∀ {fuel : Nat} {done : List (String × Json)} {key : String} {cs : List Char} {j : Json}
      {rest : List Char}, Reads fuel key cs j rest →
        loop (fuel + 1) done ((quote key).toList ++ ':' :: cs) =
          afterField (loop fuel) ((key, j) :: done) rest) {fs : List (String × Json)} :
    ∀ {f : String × Json}, (∀ f' ∈ f :: fs, ∀ fuel rest, k * f'.2.text.toList.length ≤ fuel →
        EndsNumber rest → Reads fuel f'.1 (f'.2.text.toList ++ rest) f'.2 rest) →
      ∀ {fuel : Nat} (done : List (String × Json)) (rest : List Char),
        k * (fieldsText f fs).length + 1 ≤ fuel →
          loop fuel done (fieldsText f fs ++ '\x7d' :: rest) = some (done.reverse ++ f :: fs, rest) := by
  induction fs with
  | nil =>
      rintro ⟨key, j⟩ hread fuel done rest hfuel
      obtain ⟨fuel, rfl⟩ : ∃ fuel', fuel = fuel' + 1 := ⟨fuel - 1, by omega⟩
      simp only [fieldsText, List.flatMap_nil, List.append_nil, fieldText, List.length_append,
        List.length_cons, Nat.mul_add] at hfuel ⊢
      have hj := hread (key, j) List.mem_cons_self fuel ('\x7d' :: rest) (by simp only; omega)
        (endsNumber_cons (by decide) rest)
      rw [List.append_assoc, List.cons_append, hloop hj, afterField_closed]
      simp
  | cons f' fs ih =>
      rintro ⟨key, j⟩ hread fuel done rest hfuel
      obtain ⟨fuel, rfl⟩ : ∃ fuel', fuel = fuel' + 1 := ⟨fuel - 1, by omega⟩
      have htext : fieldsText (key, j) (f' :: fs) =
          (quote key).toList ++ ':' :: (j.text.toList ++ ',' :: fieldsText f' fs) := by
        simp [fieldsText, fieldText]
      simp only [htext, List.length_append, List.length_cons, Nat.mul_add] at hfuel
      have hj := hread (key, j) List.mem_cons_self fuel
        (',' :: (fieldsText f' fs ++ '\x7d' :: rest)) (by simp only; omega)
        (endsNumber_cons (by decide) _)
      -- the field is read, and the loop goes on behind the comma
      have hmore : loop fuel ((key, j) :: done) (fieldsText f' fs ++ '\x7d' :: rest) =
          some (((key, j) :: done).reverse ++ f' :: fs, rest) :=
        ih (fun f hf => hread f (List.mem_cons_of_mem _ hf)) ((key, j) :: done) rest (by omega)
      rw [htext, List.append_assoc, List.cons_append, List.append_assoc, List.cons_append, hloop hj,
        afterField_comma, hmore]
      simp

theorem transcribed_obj {fields : List (String × Json)} (h : (Json.obj fields).Legible)
    (hfields : ∀ f ∈ fields, Transcribed f.2) : Transcribed (.obj fields) := by
  intro fuel depth rest hdepth hfuel _
  obtain ⟨fuel, rfl⟩ := h.fuel hfuel
  cases depth with
  | zero => simp [Json.depth] at hdepth
  | succ depth =>
      cases fields with
      | nil =>
          have htext : (text (.obj [])).toList = ['\x7b', '\x7d'] := rfl
          rw [htext]
          simp [value?, skipBlanks_cons (show isBlank '\x7b' = false from rfl),
            skipBlanks_cons (show isBlank '\x7d' = false from rfl)]
      | cons f fs =>
          have hread : fields? fuel depth [] (fieldsText f fs ++ '\x7d' :: rest) =
              some ([].reverse ++ f :: fs, rest) := by
            refine loop_fieldsText Nat.two_pos (fun fuel => fields? fuel depth)
              (fun fuel _ cs j rest => value? fuel depth cs = some (j, rest)) fields?_field
              (fun f' hf fuel rest hfuel hrest => ?_) [] rest ?_
            · rw [Json.depth] at hdepth
              exact hfields f' hf fuel depth rest
                (Nat.le_trans (depth_le_of_mem_fields hf) (by omega)) hfuel hrest
            · rw [toList_text_obj] at hfuel
              simp only [List.length_cons, List.length_append] at hfuel
              omega
          obtain ⟨more, hbody⟩ : ∃ more, fieldsText f fs ++ '\x7d' :: rest = '"' :: more := by
            rw [fieldsText, fieldText, toList_quote]
            exact ⟨_, rfl⟩
          rw [toList_text_obj, List.cons_append, List.append_assoc, List.singleton_append]
          rw [hbody] at hread ⊢
          rw [value?, skipBlanks_cons (show isBlank '\x7b' = false from rfl)]
          simp only [skipBlanks_cons (show isBlank '"' = false from rfl)]
          split
          · rename_i heq
            exact absurd (List.cons.inj heq).1 (by decide)
          · rw [hread]
            rfl

theorem transcribed_word {word : List Char} {j : Json} (hword : j.text.toList = word)
    (hread : ∀ fuel depth rest, value? (fuel + 1) depth (word ++ rest) = some (j, rest))
    (hne : word ≠ []) : Transcribed j := by
  intro fuel depth rest _ hfuel _
  rw [hword] at hfuel ⊢
  have := List.length_pos_of_ne_nil hne
  obtain ⟨fuel, rfl⟩ : ∃ fuel', fuel = fuel' + 1 := ⟨fuel - 1, by omega⟩
  exact hread fuel depth rest

/-- A value is read off its text, by induction on it. -/
theorem Legible.transcribed {j : Json} (h : j.Legible) : Transcribed j := by
  induction h with
  | null => exact transcribed_word rfl (fun _ _ _ => rfl) (by decide)
  | bool b =>
      cases b
      · exact transcribed_word rfl (fun _ _ _ => rfl) (by decide)
      · exact transcribed_word rfl (fun _ _ _ => rfl) (by decide)
  | num h => exact transcribed_num h
  | str s =>
      refine transcribed_word (toList_quote s) (fun fuel depth rest => ?_) (List.cons_ne_nil _ _)
      have hread := stringBody?_quote s rest
      rw [List.cons_append, List.append_assoc, List.singleton_append, value?,
        skipBlanks_cons (show isBlank '"' = false from rfl)]
      simp only [hread]
      rfl
  | arr h ih => exact transcribed_arr (.arr h) ih
  | obj h ih => exact transcribed_obj (.obj h) ih

/-- A value is read back from its text, if it is not nested too deeply. -/
theorem parse?_text {j : Json} (h : j.Legible) (hdepth : j.depth ≤ maxDepth) :
    parse? j.text = some j := by
  have hread := h.transcribed (2 * j.text.toList.length + 2) maxDepth [] hdepth (by omega)
    endsNumber_nil
  rw [List.append_nil] at hread
  rw [parse?]
  simp only [hread]
  rfl

/-! ## Outlines -/

section Outline

variable {P : Type} {o : Outline P}

/-- Nothing of a value is passed over: it is read as a whole, or it is an object of which every field
is read so. -/
inductive Whole (o : Outline P) : Extent P → Json → Prop where
  | all (j : Json) : Whole o .all j
  | obj {place : P} {fields : List (String × Json)}
      (h : ∀ f ∈ fields, Whole o (o.field place f.1) f.2) : Whole o (.part place) (.obj fields)

/-- What it means that a value is read off its text through an outline. Three calls are nested for
each character. -/
def Outlined (o : Outline P) (extent : Extent P) (j : Json) : Prop :=
  ∀ fuel depth rest, j.depth ≤ depth → 3 * j.text.toList.length ≤ fuel → EndsNumber rest →
    outlined? o fuel depth extent (j.text.toList ++ rest) = some (some j, rest)

/-- A field of which nothing is passed over is read as its key and then its value. -/
theorem outlinedFields?_field {fuel depth : Nat} {place : P} {done : List (String × Json)}
    {key : String} {cs : List Char} {j : Json} {rest : List Char}
    (h : outlined? o fuel depth (o.field place key) cs = some (some j, rest)) :
    outlinedFields? o (fuel + 1) depth place done ((quote key).toList ++ ':' :: cs) =
      afterField (outlinedFields? o fuel depth place) ((key, j) :: done) rest := by
  have hkey := stringBody?_quote key (':' :: cs)
  have htext : (quote key).toList ++ ':' :: cs =
      '"' :: (key.toList.flatMap escape ++ '"' :: ':' :: cs) := by simp [toList_quote]
  rw [htext, outlinedFields?, skipBlanks_cons (show isBlank '"' = false from rfl)]
  simp only [hkey, Option.bind_eq_bind, Option.bind_some,
    skipBlanks_cons (show isBlank ':' = false from rfl), expect?, if_true, h]
  rfl

theorem outlined_obj {place : P} {fields : List (String × Json)} (h : (Json.obj fields).Legible)
    (hfields : ∀ f ∈ fields, Outlined o (o.field place f.1) f.2) :
    Outlined o (.part place) (.obj fields) := by
  intro fuel depth rest hdepth hfuel _
  obtain ⟨fuel, rfl⟩ := h.fuel hfuel
  cases depth with
  | zero => simp [Json.depth] at hdepth
  | succ depth =>
      cases fields with
      | nil =>
          have htext : (text (.obj [])).toList = ['\x7b', '\x7d'] := rfl
          rw [htext]
          simp [outlined?, skipBlanks_cons (show isBlank '\x7b' = false from rfl),
            skipBlanks_cons (show isBlank '\x7d' = false from rfl)]
      | cons f fs =>
          have hread : outlinedFields? o fuel depth place [] (fieldsText f fs ++ '\x7d' :: rest) =
              some ([].reverse ++ f :: fs, rest) := by
            refine loop_fieldsText (Nat.succ_pos 2) (fun fuel => outlinedFields? o fuel depth place)
              (fun fuel key cs j rest => outlined? o fuel depth (o.field place key) cs =
                some (some j, rest)) outlinedFields?_field
              (fun f' hf fuel rest hfuel hrest => ?_) [] rest ?_
            · rw [Json.depth] at hdepth
              exact hfields f' hf fuel depth rest
                (Nat.le_trans (depth_le_of_mem_fields hf) (by omega)) hfuel hrest
            · rw [toList_text_obj] at hfuel
              simp only [List.length_cons, List.length_append] at hfuel
              omega
          obtain ⟨more, hbody⟩ : ∃ more, fieldsText f fs ++ '\x7d' :: rest = '"' :: more := by
            rw [fieldsText, fieldText, toList_quote]
            exact ⟨_, rfl⟩
          rw [toList_text_obj, List.cons_append, List.append_assoc, List.singleton_append]
          rw [hbody] at hread ⊢
          unfold outlined?
          simp only [skipBlanks_cons (show isBlank '\x7b' = false from rfl),
            skipBlanks_cons (show isBlank '"' = false from rfl)]
          split
          · rename_i heq
            exact absurd (List.cons.inj heq).1 (by decide)
          · rw [hread]
            rfl

/-- What is not passed over is read off its text, by induction on it. -/
theorem Whole.outlined {extent : Extent P} {j : Json} (h : Whole o extent j) :
    j.Legible → Outlined o extent j := by
  induction h with
  | all j =>
      intro hj fuel depth rest hdepth hfuel hrest
      obtain ⟨c, more, hfirst, -⟩ := hj.first
      have hpos : 0 < j.text.toList.length := by rw [hfirst, List.length_cons]; omega
      obtain ⟨fuel, rfl⟩ := hj.fuel hfuel
      rw [outlined?, hj.transcribed fuel depth rest hdepth (by omega) hrest]
      rfl
  | @obj place fields h ih =>
      intro hj
      refine outlined_obj hj fun f hf => ih f hf ?_
      cases hj with
      | obj hfields => exact hfields f hf

/-- A value of which nothing is passed over is read back from its text. -/
theorem parseOutlined?_text {place : P} {j : Json} (hwhole : Whole o (.part place) j)
    (h : j.Legible) (hdepth : j.depth ≤ maxDepth) : parseOutlined? o place j.text = some j := by
  have hread := hwhole.outlined h (3 * j.text.toList.length + 3) maxDepth [] hdepth (by omega)
    endsNumber_nil
  rw [List.append_nil] at hread
  rw [parseOutlined?]
  simp only [hread]
  rfl

end Outline

end Json

end Statechart
