import DecimalLift.Token.Number

/-!
# The spelling of numbers

The scanner of numbers is an automaton with several branches; this file gives the grammar that it
reads and shows that both agree.

* `Stops p rest` — a rest that does not go on with a character of the class `p`.
* `Number.IsNumeral` — `0x` with hexadecimal digits, or a mantissa with an optional exponent.
* `Number.isNumeral_of_scan` — what a successful scan has taken is a numeral, and its value is its
  spelling.
* `Number.scan_numeral` — a numeral is scanned as a whole, whatever follows, unless the first
  character behind it could be part of a number or runs into it.
-/

set_option autoImplicit false

namespace DecimalLift

open DecimalLift.Text

/-- The text does not start with a character of the class `p`. -/
def Stops (p : Char → Bool) (cs : List Char) : Prop := ∀ c ∈ cs.head?, p c = false

theorem stops_nil (p : Char → Bool) : Stops p [] := by
  intro c hc
  cases hc

theorem stops_cons {p : Char → Bool} {c : Char} {cs : List Char} :
    Stops p (c :: cs) ↔ p c = false := by
  constructor
  · intro h
    exact h c rfl
  · intro h c' hc'
    cases hc'
    exact h

theorem Stops.mono {p q : Char → Bool} {cs : List Char} (h : Stops p cs)
    (hpq : ∀ c, q c = true → p c = true) : Stops q cs := by
  intro c hc
  cases hq : q c with
  | false => rfl
  | true =>
    have hp := h c hc
    rw [hpq c hq] at hp
    cases hp

theorem takeWhile_append_of_stops {p : Char → Bool} {xs ys : List Char}
    (hx : ∀ c ∈ xs, p c = true) (hy : Stops p ys) : (xs ++ ys).takeWhile p = xs := by
  rw [List.takeWhile_append_of_pos hx]
  cases ys with
  | nil => simp
  | cons c cs => rw [List.takeWhile_cons, stops_cons.1 hy]; simp

theorem dropWhile_append_of_stops {p : Char → Bool} {xs ys : List Char}
    (hx : ∀ c ∈ xs, p c = true) (hy : Stops p ys) : (xs ++ ys).dropWhile p = ys := by
  rw [List.dropWhile_append_of_pos hx]
  cases ys with
  | nil => rfl
  | cons c cs => rw [List.dropWhile_cons, stops_cons.1 hy]; simp

/-- What holds of every ASCII character can be checked one by one. -/
theorem ascii_forall {p : Char → Bool} (h : ∀ n < 0x80, p (Char.ofNat n) = true) {c : Char}
    (hc : c.toNat < 0x80) : p c = true := by
  rw [← Char.ofNat_toNat c]
  exact h _ hc

namespace Number

/-- A class of characters that a numeral cannot be followed by: those that would lengthen it and
those that it must not run into. -/
def runsOn (c : Char) : Bool := isAlphabetic c || c.isDigit || c == '.' || c == '_'

/-- Digits, perhaps with one point among them. -/
structure IsMantissa (cs : List Char) : Prop where
  parts : ∃ whole fraction : List Char,
    (∀ c ∈ whole, c.isDigit = true) ∧ (∀ c ∈ fraction, c.isDigit = true) ∧
      (cs = whole ∧ whole ≠ [] ∨ cs = whole ++ '.' :: fraction ∧ (whole ≠ [] ∨ fraction ≠ []))

/-- Nothing, or an exponent mark, perhaps a sign, and digits. -/
inductive IsExponent : List Char → Prop
  | none : IsExponent []
  | some {e : Char} {sign digits : List Char} (he : e = 'e' ∨ e = 'E')
      (hs : sign = [] ∨ sign = ['+'] ∨ sign = ['-']) (hd : ∀ c ∈ digits, c.isDigit = true)
      (hne : digits ≠ []) : IsExponent (e :: (sign ++ digits))

/-- The spellings of numbers. -/
inductive IsNumeral : List Char → Prop
  | hex {x : Char} {digits : List Char} (hx : x = 'x' ∨ x = 'X')
      (hd : ∀ c ∈ digits, isHexDigit c = true) (hne : digits ≠ []) :
      IsNumeral ('0' :: x :: digits)
  | decimal {m e : List Char} (hm : IsMantissa m) (he : IsExponent e) : IsNumeral (m ++ e)

/-- Whether a text starts like a number: with a digit, or with a point and a digit. -/
def starts : List Char → Bool
  | c :: cs => c.isDigit || (c == '.' && cs.head?.any Char.isDigit)
  | [] => false

/-! ## What a scan has taken -/

theorem isMantissa_mantissa {cs : List Char} (h : starts cs = true) : IsMantissa (mantissa cs) := by
  have hw : ∀ c ∈ cs.takeWhile Char.isDigit, c.isDigit = true :=
    List.all_eq_true.1 List.all_takeWhile
  have hne : cs.dropWhile Char.isDigit = cs → cs.takeWhile Char.isDigit = [] := by
    intro hd
    have := List.takeWhile_append_dropWhile (p := Char.isDigit) (l := cs)
    rw [hd] at this
    simpa using this
  match cs, h with
  | c :: cs, h =>
    simp only [starts, Bool.or_eq_true, Bool.and_eq_true, beq_iff_eq] at h
    unfold mantissa
    split
    · rename_i rest hrest
      refine ⟨_, rest.takeWhile Char.isDigit, hw, List.all_eq_true.1 List.all_takeWhile,
        Or.inr ⟨rfl, ?_⟩⟩
      rcases h with hd | ⟨rfl, hd⟩
      · left
        simp [hd]
      · right
        -- the point stands first, so the digit behind it starts the fraction
        have hrest' : cs = rest := by simpa using hrest
        subst hrest'
        cases cs with
        | nil => simp at hd
        | cons d ds =>
          have hd' : d.isDigit = true := by simpa using hd
          simp [hd']
    · rename_i hno
      refine ⟨_, [], hw, by simp, Or.inl ⟨rfl, ?_⟩⟩
      rcases h with hd | ⟨rfl, hd⟩
      · simp [hd]
      · exact absurd (by simp) (hno cs)

theorem isExponent_of_exponent? {cs mark digits : List Char}
    (h : exponent? cs = some (mark, digits)) (hne : digits ≠ []) : IsExponent (mark ++ digits) := by
  unfold exponent? at h
  split at h
  · rename_i e rest
    split at h
    · rename_i he
      split at h
      · rename_i sign tail
        split at h
        · rename_i hs
          cases h
          exact @IsExponent.some e [sign] _ he (by simpa using hs)
            (List.all_eq_true.1 List.all_takeWhile) hne
        · cases h
          exact @IsExponent.some e [] _ he (Or.inl rfl) (List.all_eq_true.1 List.all_takeWhile) hne
      · cases h
        exact absurd rfl hne
    · cases h
  · cases h

theorem eq_of_finish {raw rest taken : List Char} {v : String}
    (h : finish raw rest = ⟨taken, .ok v⟩) : taken = raw ∧ v = String.ofList raw := by
  unfold finish at h
  split at h
  · split at h
    · cases h
    · cases h
      exact ⟨rfl, rfl⟩
  · cases h
    exact ⟨rfl, rfl⟩

theorem isNumeral_of_scanDecimal {cs taken : List Char} {v : String} (hs : starts cs = true)
    (h : scanDecimal cs = ⟨taken, .ok v⟩) : IsNumeral taken ∧ v = String.ofList taken := by
  unfold scanDecimal at h
  have hm := isMantissa_mantissa hs
  simp only at h
  split at h
  · obtain ⟨rfl, rfl⟩ := eq_of_finish h
    refine ⟨?_, rfl⟩
    rw [← List.append_nil (mantissa cs)]
    exact .decimal hm .none
  · rename_i mark digits he
    split at h
    · cases h
    · rename_i hne
      obtain ⟨rfl, rfl⟩ := eq_of_finish h
      refine ⟨?_, rfl⟩
      rw [List.append_assoc]
      exact .decimal hm (isExponent_of_exponent? he (by simpa using hne))

/-- **What a successful scan has taken is a numeral, and the value is its spelling.** -/
theorem isNumeral_of_scan {cs taken : List Char} {v : String} (hs : starts cs = true)
    (h : scan cs = ⟨taken, .ok v⟩) : IsNumeral taken ∧ v = String.ofList taken := by
  unfold scan at h
  split at h
  · rename_i x rest
    split at h
    · rename_i hx
      unfold scanHex at h
      simp only at h
      split at h
      · cases h
      · rename_i hne
        cases h
        exact ⟨.hex hx (List.all_eq_true.1 List.all_takeWhile) (by simpa using hne), rfl⟩
    · exact isNumeral_of_scanDecimal hs h
  · exact isNumeral_of_scanDecimal hs h

/-! ## Scanning a numeral in front of a text -/

theorem isHexDigit_ascii {c : Char} (h : isHexDigit c = true) : c.toNat < 0x80 := by
  have hle : c ≤ '9' ∨ c ≤ 'f' ∨ c ≤ 'F' := by
    unfold isHexDigit hexValue? at h
    split at h
    · rename_i hd
      exact Or.inl hd.2
    · split at h
      · rename_i hl
        exact Or.inr (Or.inl hl.2)
      · split at h
        · rename_i hu
          exact Or.inr (Or.inr hu.2)
        · cases h
  have h9 : '9'.val.toNat = 57 := rfl
  have hf : 'f'.val.toNat = 102 := rfl
  have hF : 'F'.val.toNat = 70 := rfl
  simp only [Char.le_def, UInt32.le_iff_toNat_le] at hle
  show c.val.toNat < 0x80
  omega

theorem runsOn_of_isHexDigit {c : Char} (h : isHexDigit c = true) : runsOn c = true := by
  have := ascii_forall (p := fun c => !isHexDigit c || runsOn c) (by decide) (isHexDigit_ascii h)
  simpa [h] using this

theorem isDigit_ne {c d : Char} (h : c.isDigit = true) (hd : d.isDigit = false) : c ≠ d := by
  rintro rfl
  rw [h] at hd
  cases hd

theorem mantissa_append {m rest : List Char} (hm : IsMantissa m)
    (hr : Stops (fun c => c.isDigit || c == '.') rest) : mantissa (m ++ rest) = m := by
  obtain ⟨whole, fraction, hw, hf, hm⟩ := hm
  have hdig : Stops Char.isDigit rest := hr.mono (fun c h => by simp [h])
  unfold mantissa
  rcases hm with ⟨rfl, hne⟩ | ⟨rfl, hne⟩
  · rw [takeWhile_append_of_stops hw hdig, dropWhile_append_of_stops hw hdig]
    split
    · exact absurd (stops_cons.1 hr) (by simp)
    · rfl
  · have hpoint : Stops Char.isDigit ('.' :: (fraction ++ rest)) := stops_cons.2 (by decide)
    rw [List.append_assoc, List.cons_append, takeWhile_append_of_stops hw hpoint,
      dropWhile_append_of_stops hw hpoint]
    simp only
    rw [takeWhile_append_of_stops hf hdig]

/-- The scanner takes an exponent, and the digits that go on behind it. -/
theorem exponent?_cons_append {e : Char} {sign digits : List Char} (he : e = 'e' ∨ e = 'E')
    (hs : sign = [] ∨ sign = ['+'] ∨ sign = ['-']) (hd : ∀ c ∈ digits, c.isDigit = true)
    (hne : digits ≠ []) (rest : List Char) :
    exponent? (e :: (sign ++ digits) ++ rest) =
      some (e :: sign, (digits ++ rest).takeWhile Char.isDigit) := by
  rcases hs with rfl | rfl | rfl
  · cases digits with
    | nil => exact absurd rfl hne
    | cons d ds =>
      have hd0 : d.isDigit = true := hd d (List.mem_cons_self ..)
      have h1 : d ≠ '+' := isDigit_ne hd0 (by decide)
      have h2 : d ≠ '-' := isDigit_ne hd0 (by decide)
      simp [exponent?, he, h1, h2]
  · simp [exponent?, he]
  · simp [exponent?, he]

theorem finish_of_stops {raw rest : List Char} (hr : Stops runsOn rest) :
    finish raw rest = .done raw (String.ofList raw) := by
  unfold finish
  split
  · rename_i c cs
    have h := stops_cons.1 hr
    simp only [runsOn, Bool.or_eq_false_iff] at h
    rw [if_neg (by simp [h.1.1.1, h.2])]
  · rfl

theorem exponent?_of_stops {rest : List Char} (hr : Stops runsOn rest) : exponent? rest = none := by
  unfold exponent?
  split
  · rename_i e tail
    have h := stops_cons.1 hr
    rw [if_neg]
    rintro (rfl | rfl)
    · exact absurd h (by decide)
    · exact absurd h (by decide)
  · rfl

theorem IsExponent.stops {e rest : List Char} (he : IsExponent e) (hr : Stops runsOn rest) :
    Stops (fun c => c.isDigit || c == '.') (e ++ rest) := by
  cases he with
  | none => exact hr.mono (fun c h => by
      simp only [Bool.or_eq_true, beq_iff_eq] at h
      rcases h with h | rfl
      · simp [runsOn, h]
      · decide)
  | some he _ _ _ =>
    refine stops_cons.2 ?_
    rcases he with rfl | rfl <;> decide

theorem scanDecimal_append {m e rest : List Char} (hm : IsMantissa m) (he : IsExponent e)
    (hr : Stops runsOn rest) :
    scanDecimal (m ++ e ++ rest) = .done (m ++ e) (String.ofList (m ++ e)) := by
  have hdig : Stops Char.isDigit rest := hr.mono (fun c h => by simp [runsOn, h])
  unfold scanDecimal
  simp only
  rw [List.append_assoc, mantissa_append hm (he.stops hr), List.drop_left]
  cases he with
  | none =>
    rw [List.nil_append, List.append_nil, exponent?_of_stops hr]
    exact finish_of_stops hr
  | @some x sign digits hx hs hd hne =>
    rw [exponent?_cons_append hx hs hd hne rest, takeWhile_append_of_stops hd hdig]
    have hempty : digits.isEmpty = false := by simpa using hne
    simp only [hempty, Bool.false_eq_true, if_false]
    rw [List.append_assoc m (x :: sign) digits, List.cons_append, ← List.append_assoc m _ rest,
      List.drop_left]
    exact finish_of_stops hr

theorem IsMantissa.mem {m : List Char} (hm : IsMantissa m) :
    m ≠ [] ∧ ∀ c ∈ m, (c.isDigit || c == '.') = true := by
  obtain ⟨whole, fraction, hw, hf, ⟨rfl, hne⟩ | ⟨rfl, hne⟩⟩ := hm
  · exact ⟨hne, fun c hc => by simp [hw c hc]⟩
  · refine ⟨by simp, fun c hc => ?_⟩
    rcases List.mem_append.1 hc with hc | hc
    · simp [hw c hc]
    · rcases List.mem_cons.1 hc with rfl | hc
      · rfl
      · simp [hf c hc]

/-- A decimal numeral does not start like a hexadecimal one. -/
theorem scan_append_decimal {m e rest : List Char} (hm : IsMantissa m) (he : IsExponent e)
    (hr : Stops runsOn rest) : scan (m ++ e ++ rest) = scanDecimal (m ++ e ++ rest) := by
  have hlater : Stops (fun c => c == 'x' || c == 'X') (e ++ rest) := by
    cases he with
    | none => exact hr.mono (fun c h => by
        simp only [Bool.or_eq_true, beq_iff_eq] at h
        rcases h with rfl | rfl <;> decide)
    | some he _ _ _ =>
      refine stops_cons.2 ?_
      rcases he with rfl | rfl <;> decide
  have hnot : ∀ x tail, m ++ e ++ rest = '0' :: x :: tail → ¬ (x = 'x' ∨ x = 'X') := by
    intro x tail heq hx
    obtain ⟨hne, hmem⟩ := hm.mem
    match m, hne with
    | [a], _ =>
      have hhead : e ++ rest = x :: tail := by simpa using (List.cons.inj heq).2
      rw [hhead] at hlater
      have := stops_cons.1 hlater
      rcases hx with rfl | rfl <;> simp at this
    | a :: b :: m, _ =>
      have hb : b = x := by simpa using (List.cons.inj (List.cons.inj heq).2).1
      have := hmem b (by simp)
      rw [hb] at this
      rcases hx with rfl | rfl <;> revert this <;> decide
  unfold scan
  split
  · rename_i x tail heq
    rw [if_neg (hnot x tail heq)]
  · rfl

/-- **A numeral is scanned as a whole**, whatever stands behind it, unless the first character
there could lengthen it or runs into it. -/
theorem scan_numeral {raw rest : List Char} (h : IsNumeral raw) (hr : Stops runsOn rest) :
    scan (raw ++ rest) = .done raw (String.ofList raw) := by
  cases h with
  | @hex x digits hx hd hne =>
    have hstop : Stops isHexDigit rest := hr.mono (fun c => runsOn_of_isHexDigit)
    simp only [scan, List.cons_append]
    rw [if_pos hx]
    unfold scanHex
    simp only [takeWhile_append_of_stops hd hstop]
    rw [if_neg (by simpa using hne)]
  | @decimal m e hm he =>
    rw [scan_append_decimal hm he hr, scanDecimal_append hm he hr]

/-- A numeral starts like a number. -/
theorem IsNumeral.starts {raw : List Char} (h : IsNumeral raw) (rest : List Char) :
    starts (raw ++ rest) = true := by
  cases h with
  | hex _ _ _ => rfl
  | @decimal m e hm he =>
    obtain ⟨whole, fraction, hw, hf, ⟨rfl, hne⟩ | ⟨rfl, hne⟩⟩ := hm
    · cases m with
      | nil => exact absurd rfl hne
      | cons d ds => simp [Number.starts, hw d (by simp)]
    · cases whole with
      | cons d ds => simp [Number.starts, hw d (by simp)]
      | nil =>
        cases fraction with
        | nil => simp at hne
        | cons d ds => simp [Number.starts, hf d (by simp)]

end Number

end DecimalLift
