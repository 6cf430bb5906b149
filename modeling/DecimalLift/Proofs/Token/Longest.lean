import DecimalLift.Proofs.Token.Tiling

/-!
# Numbers are the longest numerals

A number is scanned by its parts: digits, a point, digits, an exponent. What comes of it is the
longest numeral at the front of the text, or a fault where that one does not end as a number must.

* `Number.IsLongest` — a numeral at the front of a text, and no other one there is longer.
* `Number.Spoilt` — what must not stand behind a numeral: an exponent without digits, and behind a
  decimal one a letter or an underscore.
* `Number.isLongest_mantissa`, `Number.isLongest_exponent`, `Number.isLongest_hex` — the longest
  numeral, by what the scanner finds.
* `Number.exists_longest` — a text that starts like a number has a longest numeral, and scanning
  returns it or finds it spoilt.
* `number_tokens` — number tokens are exactly the longest numerals that are not spoilt.
-/

set_option autoImplicit false

namespace DecimalLift

open DecimalLift.Text

namespace Number

/-- The numeral `w` stands at the front of `cs`, and no other one there is longer. -/
structure IsLongest (cs w : List Char) : Prop where
  numeral : IsNumeral w
  front : w <+: cs
  longest : ∀ v, IsNumeral v → v <+: cs → v.length ≤ w.length

/-- Whether a numeral is hexadecimal. -/
def isHex : List Char → Bool
  | '0' :: x :: _ => x == 'x' || x == 'X'
  | _ => false

/-- The text starts with the mark of an exponent, and with no exponent. -/
structure BreaksOff (cs : List Char) : Prop where
  mark : cs.head? = some 'e' ∨ cs.head? = some 'E'
  empty : ∀ x, IsExponent x → x <+: cs → x = []

/-- The text starts with a letter or an underscore. -/
def RunsOn (cs : List Char) : Prop := ∃ c ∈ cs.head?, isAlphabetic c = true ∨ c = '_'

/-- What must not stand behind the numeral `w`. -/
def Spoilt (w rest : List Char) : Prop := BreaksOff rest ∨ isHex w = false ∧ RunsOn rest

/-- What comes of scanning a text whose longest numeral is `w`, with `rest` behind it. -/
inductive ScannedAs (w rest : List Char) : Scan String → Prop
  | number (h : ¬ Spoilt w rest) : ScannedAs w rest (.done w (String.ofList w))
  | spoilt {taken : List Char} {fault : LexFault} (h : Spoilt w rest) :
      ScannedAs w rest (.stop taken fault)

variable {cs w m x rest : List Char}

/-! ## The parts of a numeral are taken as far as they go -/

theorem length_le_takeWhile {p : Char → Bool} {xs ys : List Char} (h : ∀ c ∈ xs, p c = true) :
    xs.length ≤ ((xs ++ ys).takeWhile p).length := by
  rw [List.takeWhile_append_of_pos h, List.length_append]
  exact Nat.le_add_right _ _

/-- No mantissa at the front of a text is longer than the one that is taken. -/
theorem IsMantissa.length_le (hm : IsMantissa m) (hfront : m <+: cs) :
    m.length ≤ (mantissa cs).length := by
  obtain ⟨rest, rfl⟩ := hfront
  obtain ⟨whole, fraction, hw, hf, ⟨rfl, -⟩ | ⟨rfl, -⟩⟩ := hm
  · have hwhole := @length_le_takeWhile Char.isDigit m rest hw
    unfold mantissa
    split
    · rw [List.length_append]
      exact Nat.le_trans hwhole (Nat.le_add_right _ _)
    · exact hwhole
  · have hpoint : Stops Char.isDigit ('.' :: (fraction ++ rest)) := stops_cons.2 (by decide)
    have hfraction := @length_le_takeWhile Char.isDigit fraction rest hf
    unfold mantissa
    rw [List.append_assoc, List.cons_append, takeWhile_append_of_stops hw hpoint,
      dropWhile_append_of_stops hw hpoint]
    simp only [List.length_append, List.length_cons]
    omega

/-- In front of an exponent there is all of the mantissa. -/
theorem mantissa_of_exponent (hm : IsMantissa m) (hx : IsExponent x) (hne : x ≠ []) :
    mantissa (m ++ (x ++ rest)) = m := by
  refine mantissa_append hm ?_
  cases hx with
  | none => exact absurd rfl hne
  | some he _ _ _ =>
    refine stops_cons.2 ?_
    rcases he with rfl | rfl <;> decide

/-- Where there is an exponent, the scanner takes one that is as long. -/
theorem IsExponent.length_le (hx : IsExponent x) (hfront : x <+: cs) (hne : x ≠ []) :
    ∃ mark digits : List Char, exponent? cs = Option.some (mark, digits) ∧ digits ≠ [] ∧
      x.length ≤ (mark ++ digits).length := by
  obtain ⟨rest, rfl⟩ := hfront
  cases hx with
  | none => exact absurd rfl hne
  | @some e sign digits he hs hd hdigits =>
    have hlength := @length_le_takeWhile Char.isDigit digits rest hd
    have hpos : 0 < digits.length := List.length_pos_iff.2 hdigits
    refine ⟨_, _, exponent?_cons_append he hs hd hdigits rest, ?_, ?_⟩
    · exact List.length_pos_iff.1 (Nat.lt_of_lt_of_le hpos hlength)
    · simp only [List.length_append, List.length_cons]
      omega

theorem head?_of_exponent? {mark digits : List Char} (h : exponent? cs = some (mark, digits)) :
    cs.head? = some 'e' ∨ cs.head? = some 'E' := by
  unfold exponent? at h
  split at h
  · split at h
    · rename_i he
      exact he.imp (congrArg some) (congrArg some)
    · cases h
  · cases h

/-- Of an exponent without digits the scanner finds the mark. -/
theorem breaksOff_of_exponent? {mark : List Char} (h : exponent? cs = some (mark, [])) :
    BreaksOff cs := by
  refine ⟨head?_of_exponent? h, fun x hx hfront => ?_⟩
  by_cases hne : x = []
  · exact hne
  · obtain ⟨mark', digits, hexp, hdigits, -⟩ := hx.length_le hfront hne
    rw [h] at hexp
    cases hexp
    exact absurd rfl hdigits

theorem RunsOn.of_breaksOff (h : BreaksOff cs) : RunsOn cs := by
  rcases h.mark with he | he
  · exact ⟨'e', he, Or.inl (by decide)⟩
  · exact ⟨'E', he, Or.inl (by decide)⟩

/-! ## The longest numeral of a text -/

theorem isHex_of_front (hfront : w <+: cs) (h : isHex w = true) : isHex cs = true := by
  obtain ⟨rest, rfl⟩ := hfront
  unfold isHex at h
  split at h
  · exact h
  · cases h

/-- A decimal numeral at the front of a text goes no further than the mantissa that is taken, or it is
that one with an exponent. -/
theorem decimal_front (hm : IsMantissa m) (hx : IsExponent x) (hfront : m ++ x <+: cs) :
    (m ++ x).length ≤ (mantissa cs).length ∨
      x ≠ [] ∧ m = mantissa cs ∧ x <+: cs.drop (mantissa cs).length := by
  by_cases hne : x = []
  · subst hne
    rw [List.append_nil] at hfront ⊢
    exact Or.inl (hm.length_le hfront)
  · obtain ⟨rest, rfl⟩ := hfront
    rw [List.append_assoc, mantissa_of_exponent hm hx hne, List.drop_left]
    exact Or.inr ⟨hne, rfl, List.prefix_append x rest⟩

/-- Where a text does not start with `0x`, only decimal numerals stand at its front. -/
theorem exists_decimal (hhex : isHex cs = false) (hw : IsNumeral w) (hfront : w <+: cs) :
    ∃ m x, IsMantissa m ∧ IsExponent x ∧ w = m ++ x := by
  cases hw with
  | hex hx _ _ =>
    have hcs := isHex_of_front hfront (by rcases hx with rfl | rfl <;> rfl)
    rw [hhex] at hcs
    cases hcs
  | @decimal m x hm hx => exact ⟨m, x, hm, hx, rfl⟩

/-- Without an exponent behind it, the mantissa is the longest numeral. -/
theorem isLongest_mantissa (hs : starts cs = true) (hhex : isHex cs = false)
    (hnone : ∀ x, IsExponent x → x <+: cs.drop (mantissa cs).length → x = []) :
    IsLongest cs (mantissa cs) := by
  refine ⟨?_, prefix_mantissa cs, fun v hv hfront => ?_⟩
  · rw [← List.append_nil (mantissa cs)]
    exact .decimal (isMantissa_mantissa hs) .none
  · obtain ⟨m, x, hm, hx, rfl⟩ := exists_decimal hhex hv hfront
    rcases decimal_front hm hx hfront with hle | ⟨hne, -, hbehind⟩
    · exact hle
    · exact absurd (hnone x hx hbehind) hne

/-- With an exponent behind it, the longest numeral is the mantissa with that. -/
theorem isLongest_exponent {mark digits : List Char} (hs : starts cs = true)
    (hhex : isHex cs = false)
    (hexp : exponent? (cs.drop (mantissa cs).length) = some (mark, digits)) (hne : digits ≠ []) :
    IsLongest cs (mantissa cs ++ mark ++ digits) := by
  refine ⟨?_, prefix_mantissa_exponent hexp, fun v hv hfront => ?_⟩
  · rw [List.append_assoc]
    exact .decimal (isMantissa_mantissa hs) (isExponent_of_exponent? hexp hne)
  · obtain ⟨m, x, hm, hx, rfl⟩ := exists_decimal hhex hv hfront
    have hsum : (mantissa cs ++ mark ++ digits).length =
        (mantissa cs).length + (mark ++ digits).length := by
      rw [List.append_assoc, List.length_append]
    rw [hsum]
    rcases decimal_front hm hx hfront with hle | ⟨hx0, rfl, hbehind⟩
    · exact Nat.le_trans hle (Nat.le_add_right _ _)
    · obtain ⟨mark', digits', hexp', -, hle⟩ := hx.length_le hbehind hx0
      rw [hexp] at hexp'
      cases hexp'
      rw [List.length_append]
      exact Nat.add_le_add_left hle _

/-- A numeral at the front of a text that starts with `0x` is the zero, or it has that and digits. -/
theorem hex_front {y : Char} (hy : y = 'x' ∨ y = 'X') (hw : IsNumeral w)
    (hfront : w <+: '0' :: y :: rest) : w.length ≤ 1 ∨
      rest.takeWhile isHexDigit ≠ [] ∧ w.length ≤ (rest.takeWhile isHexDigit).length + 2 := by
  cases hw with
  | @hex z digits hz hd hne =>
    obtain ⟨-, hfront⟩ := List.cons_prefix_cons.1 hfront
    obtain ⟨-, tail, rfl⟩ := List.cons_prefix_cons.1 hfront
    have hle := @length_le_takeWhile isHexDigit digits tail hd
    have hpos : 0 < digits.length := List.length_pos_iff.2 hne
    exact Or.inr ⟨List.length_pos_iff.1 (Nat.lt_of_lt_of_le hpos hle), Nat.add_le_add_right hle 2⟩
  | decimal hm hx =>
    have hzero : mantissa ('0' :: y :: rest) = ['0'] := by
      rcases hy with rfl | rfl <;> simp [mantissa]
    rcases decimal_front hm hx hfront with hle | ⟨hne, -, tail, htail⟩
    · rw [hzero] at hle
      exact Or.inl hle
    · -- behind the zero stands no mark of an exponent
      rw [hzero] at htail
      cases hx with
      | none => exact absurd rfl hne
      | some he _ _ _ =>
        have hhead := (List.cons.inj htail).1
        subst hhead
        rcases he with rfl | rfl <;> rcases hy with hy | hy <;> cases hy

/-- Behind `0x` the digits go as far as they can. -/
theorem isLongest_hex {y : Char} (hy : y = 'x' ∨ y = 'X') (hne : rest.takeWhile isHexDigit ≠ []) :
    IsLongest ('0' :: y :: rest) ('0' :: y :: rest.takeWhile isHexDigit) := by
  refine ⟨.hex hy (List.all_eq_true.1 List.all_takeWhile) hne, ?_, fun v hv hfront => ?_⟩
  · exact List.cons_prefix_cons.2 ⟨rfl, List.cons_prefix_cons.2 ⟨rfl, List.takeWhile_prefix _⟩⟩
  · rcases hex_front hy hv hfront with hle | ⟨-, hle⟩
    · exact Nat.le_trans hle (Nat.succ_le_succ (Nat.zero_le _))
    · exact hle

/-- Without a digit behind `0x`, the zero is the longest numeral. -/
theorem isLongest_zero {y : Char} (hy : y = 'x' ∨ y = 'X') (hnone : rest.takeWhile isHexDigit = []) :
    IsLongest ('0' :: y :: rest) ['0'] := by
  have hzero : IsMantissa ['0'] := ⟨['0'], [], by simp, by simp, Or.inl ⟨rfl, by simp⟩⟩
  refine ⟨.decimal hzero .none, List.cons_prefix_cons.2 ⟨rfl, List.nil_prefix⟩, ?_⟩
  intro v hv hfront
  rcases hex_front hy hv hfront with hle | ⟨hne, -⟩
  · exact hle
  · exact absurd hnone hne

/-! ## What comes of a scan -/

/-- A decimal numeral is spoilt by a letter or an underscore; the mark of an exponent is a letter. -/
theorem spoilt_iff (hhex : isHex w = false) : Spoilt w rest ↔ RunsOn rest := by
  constructor
  · rintro (h | ⟨-, h⟩)
    · exact .of_breaksOff h
    · exact h
  · intro h
    exact Or.inr ⟨hhex, h⟩

theorem runsOn_cons {c : Char} : RunsOn (c :: rest) ↔ (isAlphabetic c || c == '_') = true := by
  simp [RunsOn]

theorem scannedAs_finish (hhex : isHex w = false) : ScannedAs w rest (finish w rest) := by
  unfold finish
  split
  · split
    · rename_i h
      exact .spoilt ((spoilt_iff hhex).2 (runsOn_cons.2 h))
    · rename_i h
      exact .number fun hspoilt => h (runsOn_cons.1 ((spoilt_iff hhex).1 hspoilt))
  · refine .number fun hspoilt => ?_
    obtain ⟨c, hc, -⟩ := (spoilt_iff hhex).1 hspoilt
    cases hc

theorem isHex_eq_false_of_front (hfront : w <+: cs) (h : isHex cs = false) : isHex w = false := by
  cases hw : isHex w with
  | false => rfl
  | true =>
    rw [isHex_of_front hfront hw] at h
    cases h

/-- A text that starts like a decimal numeral. -/
theorem scannedAs_scanDecimal (hs : starts cs = true) (hhex : isHex cs = false) :
    ∃ w, IsLongest cs w ∧ ScannedAs w (cs.drop w.length) (scanDecimal cs) := by
  unfold scanDecimal
  simp only
  split
  · rename_i hnone
    have hlongest : IsLongest cs (mantissa cs) := by
      refine isLongest_mantissa hs hhex fun x hx hfront => ?_
      by_cases hne : x = []
      · exact hne
      · obtain ⟨mark, digits, hexp, -⟩ := hx.length_le hfront hne
        rw [hnone] at hexp
        cases hexp
    exact ⟨_, hlongest, scannedAs_finish (isHex_eq_false_of_front hlongest.front hhex)⟩
  · rename_i mark digits hexp
    split
    · rename_i hempty
      obtain rfl := List.isEmpty_iff.1 hempty
      have hbreaks := breaksOff_of_exponent? hexp
      exact ⟨_, isLongest_mantissa hs hhex hbreaks.empty, .spoilt (Or.inl hbreaks)⟩
    · rename_i hdigits
      have hlongest := isLongest_exponent hs hhex hexp (by simpa using hdigits)
      exact ⟨_, hlongest, scannedAs_finish (isHex_eq_false_of_front hlongest.front hhex)⟩

/-- A text that starts with `0x`. -/
theorem scannedAs_scanHex {y : Char} (hy : y = 'x' ∨ y = 'X') (rest : List Char) :
    ∃ w, IsLongest ('0' :: y :: rest) w ∧
      ScannedAs w (('0' :: y :: rest).drop w.length) (scanHex y rest) := by
  unfold scanHex
  simp only
  split
  · rename_i hempty
    have hletter : (isAlphabetic y || y == '_') = true := by rcases hy with rfl | rfl <;> decide
    exact ⟨_, isLongest_zero hy (List.isEmpty_iff.1 hempty),
      .spoilt (Or.inr ⟨rfl, runsOn_cons.2 hletter⟩)⟩
  · rename_i hdigits
    refine ⟨_, isLongest_hex hy (by simpa using hdigits), .number ?_⟩
    have hbehind : ('0' :: y :: rest).drop ('0' :: y :: rest.takeWhile isHexDigit).length =
        rest.dropWhile isHexDigit :=
      drop_of_append_eq (congrArg _ (congrArg _ List.takeWhile_append_dropWhile))
    rw [hbehind]
    rintro (⟨hmark, -⟩ | ⟨hhex, -⟩)
    · -- both marks of an exponent are digits here
      have hstops := List.head?_dropWhile_not isHexDigit rest
      rcases hmark with hmark | hmark <;> rw [hmark] at hstops <;> cases hstops
    · rcases hy with rfl | rfl <;> cases hhex

/-- **A text that starts like a number has a longest numeral**, and scanning returns it or finds it
spoilt. -/
theorem exists_longest (hs : starts cs = true) :
    ∃ w, IsLongest cs w ∧ ScannedAs w (cs.drop w.length) (scan cs) := by
  unfold scan
  split
  · rename_i y rest
    split
    · rename_i hy
      exact scannedAs_scanHex hy rest
    · rename_i hy
      exact scannedAs_scanDecimal hs (by simpa [isHex] using hy)
  · rename_i hno
    refine scannedAs_scanDecimal hs ?_
    unfold isHex
    split
    · exact absurd rfl (hno _ _)
    · rfl

theorem starts_of_front (hw : IsNumeral w) (hfront : w <+: cs) : starts cs = true := by
  obtain ⟨rest, rfl⟩ := hfront
  exact hw.starts rest

end Number

open Number (IsNumeral IsLongest Spoilt)

/-- A number that is scanned is the longest numeral, and nothing spoils it. -/
theorem isLongest_of_scanToken {cs taken : List Char} {raw : String}
    (h : scanToken cs = ⟨taken, .ok (.number raw)⟩) :
    IsLongest cs raw.toList ∧ ¬ Spoilt raw.toList (cs.drop raw.toList.length) := by
  obtain ⟨hnumeral, rfl⟩ := spelt_of_scanToken h rfl nofun
  have hfront := prefix_scanToken cs
  rw [h] at hfront
  have hs := Number.starts_of_front hnumeral hfront
  rw [scanToken_of_starts hs] at h
  obtain ⟨w, hlongest, hscanned⟩ := Number.exists_longest hs
  generalize Number.scan cs = s at h hscanned
  cases hscanned with
  | number hclean =>
    obtain rfl : w = raw.toList := congrArg Scan.taken h
    exact ⟨hlongest, hclean⟩
  | spoilt => cases congrArg Scan.outcome h

/-- What a step does in front of a numeral. -/
theorem Cursor.next_of_numeral {c : Cursor} {v : List Char} (hv : IsNumeral v)
    (hfront : v <+: c.skipBlanks.rest) : ∃ w, IsLongest c.skipBlanks.rest w ∧
    (Spoilt w (c.skipBlanks.rest.drop w.length) →
      ∃ e, c.next.1 = .error e ∧ e.location = c.skipBlanks.location) ∧
    (¬ Spoilt w (c.skipBlanks.rest.drop w.length) →
      ∃ t, c.next = (.ok t, c.skipBlanks.past w) ∧ t.kind = .number (String.ofList w) ∧
        t.span.start = c.skipBlanks.location) := by
  have hstarts := Number.starts_of_front hv hfront
  obtain ⟨w, hlongest, hscanned⟩ := Number.exists_longest hstarts
  have htoken := scanToken_of_starts hstarts
  refine ⟨w, hlongest, ?_⟩
  generalize Number.scan c.skipBlanks.rest = s at htoken hscanned
  cases hscanned with
  | number hclean =>
    refine ⟨fun hspoilt => absurd hspoilt hclean, fun _ => ?_⟩
    exact ⟨_, Cursor.next_of_done htoken, rfl, rfl⟩
  | spoilt hspoilt =>
    refine ⟨fun _ => ?_, fun hclean => absurd hspoilt hclean⟩
    exact ⟨_, congrArg Prod.fst (Cursor.next_of_stop htoken), rfl⟩

/-- **Number tokens are exactly the longest numerals.** At every place of every text, a number that
is read is the longest numeral behind the blanks there, and nothing spoils it. Wherever a numeral
stands there, the longest one is read as a number, unless it is spoilt, and then reading fails at
its start. A numeral alone is one number and the end of file. -/
theorem number_tokens :
    (∀ (c : Cursor) (t : Token) (raw : String), c.next.1 = .ok t → t.kind = .number raw →
      IsLongest c.skipBlanks.rest raw.toList ∧
        ¬ Spoilt raw.toList (c.skipBlanks.rest.drop raw.toList.length)) ∧
    (∀ (c : Cursor) (v : List Char), IsNumeral v → v <+: c.skipBlanks.rest →
      ∃ w, IsLongest c.skipBlanks.rest w ∧
        (Spoilt w (c.skipBlanks.rest.drop w.length) →
          ∃ e, c.next.1 = .error e ∧ e.location = c.skipBlanks.location) ∧
        (¬ Spoilt w (c.skipBlanks.rest.drop w.length) →
          ∃ t, c.next = (.ok t, c.skipBlanks.past w) ∧ t.kind = .number (String.ofList w) ∧
            t.span.start = c.skipBlanks.location)) ∧
    ∀ (w : List Char) (file : String), IsNumeral w →
      (tokenize (String.ofList w) file).map (List.map Token.kind) =
        .ok [.number (String.ofList w), .endOfFile] := by
  refine ⟨fun c t raw ht hraw => ?_, fun c v => Cursor.next_of_numeral, fun w file hw => ?_⟩
  · have hnext : c.next = (.ok t, c.next.2) := Prod.ext ht rfl
    obtain ⟨taken, hscan⟩ := Cursor.scanToken_of_next hnext
    rw [hraw] at hscan
    exact isLongest_of_scanToken hscan
  · have hspelt : (TokenKind.number (String.ofList w)).Spelt := by
      show IsNumeral (String.ofList w).toList
      rwa [String.toList_ofList]
    have htokens : tokenize (String.ofList w) file = .ok [_, _] := tokenize_spelt hspelt file
    rw [htokens]
    rfl

end DecimalLift
