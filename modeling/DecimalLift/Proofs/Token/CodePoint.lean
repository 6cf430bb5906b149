import Mathlib.Data.Nat.Digits.Defs
import DecimalLift.Proofs.Token.Lexeme

/-!
# Code points in braces

Any number of digits may stand between the braces of an escape. The word that keeps their code
saturates, and nothing is lost by that: a word that has saturated is above every code point, and no
later digit brings it back. The word that counts them wraps around, and is used only to tell whether
any digit came: a count that is zero again passes for no digit at all, so that an escape may be
refused for it but is never taken for another one.

* `Quoted.hexNumber` — the number that digits write, whatever its size.
* `Quoted.Keeps` — what the reader keeps of the digits: how many they are, as a word, and the number
  they write, cut at the largest word. One digit more keeps that (`Quoted.Keeps.push`), and so do
  all digits (`Quoted.Keeps.run`).
* `Quoted.WritesCodePoint` — what must stand between the braces.
* `Quoted.Counted` — the count of the digits is not zero, as it is for fewer than `2 ^ 32` of them.
* `Quoted.Reading.append` — behind a piece of a literal, reading goes on as at the start.
* `bracedEscape_decoded` — an escape in braces is accepted exactly if it writes a code point and its
  digits are counted, and stands for that code point.
-/

set_option autoImplicit false

namespace DecimalLift

open DecimalLift.Text

namespace Quoted

variable {q : Char} {ds tail : List Char} {digits : Int32} {code : UInt32}

/-! ## Words that saturate -/

theorem toNat_ofNatClamp (n : Nat) :
    (UInt32.ofNatClamp n).toNat = min n (UInt32.size - 1) := by
  by_cases hn : n < UInt32.size
  · rw [UInt32.toNat_ofNatClamp_of_lt hn]
    omega
  · rw [UInt32.toNat_ofNatClamp_of_le (Nat.le_of_not_lt hn)]
    omega

/-- It makes no difference whether a number is cut at the largest word before one more digit comes
or behind it. -/
theorem toNat_pushDigit {n d : Nat} (hcode : code.toNat = min n (UInt32.size - 1)) (hd : d < 16) :
    (pushDigit code d).toNat = min (n * 16 + d) (UInt32.size - 1) := by
  have hsize : UInt32.size = 2 ^ 32 := rfl
  have hsixteen : (16 : UInt32).toNat = 16 := rfl
  have hdigit : (UInt32.ofNat d).toNat = d := UInt32.toNat_ofNat_of_lt (by omega)
  unfold pushDigit saturatingAdd saturatingMul
  rw [toNat_ofNatClamp, toNat_ofNatClamp, hcode, hdigit, hsixteen]
  omega

/-! ## The number that digits write -/

theorem lt_of_hexValue? {c : Char} {d : Nat} (h : hexValue? c = some d) : d < 16 := by
  have hascii : c.toNat < 0x80 := Number.isHexDigit_ascii (by rw [isHexDigit, h]; rfl)
  have hall : (hexValue? c).all (· < 16) = true :=
    ascii_forall (p := fun c => (hexValue? c).all (· < 16)) (by decide) hascii
  rw [h] at hall
  exact of_decide_eq_true hall

/-- The number that hexadecimal digits write, the highest one first. -/
def hexNumber (ds : List Char) : Nat := Nat.ofDigits 16 (ds.reverse.filterMap hexValue?)

theorem hexNumber_concat {c : Char} {d : Nat} (h : hexValue? c = some d) (ds : List Char) :
    hexNumber (ds ++ [c]) = hexNumber ds * 16 + d := by
  unfold hexNumber
  rw [List.reverse_concat, List.filterMap_cons_some h, Nat.ofDigits_cons]
  omega

/-! ## What the reader keeps of the digits -/

/-- What the reader of an escape in braces has kept behind the digits `ds`. -/
structure Keeps (ds : List Char) (digits : Int32) (code : UInt32) : Prop where
  digits : digits = .ofNat ds.length
  code : code.toNat = min (hexNumber ds) (UInt32.size - 1)

theorem keeps_nil : Keeps [] 0 0 := ⟨rfl, rfl⟩

theorem Keeps.push {c : Char} {d : Nat} (h : Keeps ds digits code) (hc : hexValue? c = some d) :
    Keeps (ds ++ [c]) (digits + 1) (pushDigit code d) := by
  constructor
  · rw [h.digits, List.length_append, Int32.ofNat_add]
    rfl
  · rw [hexNumber_concat hc]
    exact toNat_pushDigit h.code (lt_of_hexValue? hc)

theorem Keeps.run {more : List Char} (h : Keeps ds digits code)
    (hmore : ∀ c ∈ more, isHexDigit c = true) :
    ∃ digits' code', Keeps (ds ++ more) digits' code' ∧
      ∀ tail, body q (.braced digits code) (more ++ tail) =
        (body q (.braced digits' code') tail).after more := by
  induction more generalizing ds digits code with
  | nil => exact ⟨digits, code, by rwa [List.append_nil], fun tail => rfl⟩
  | cons c more ih =>
    obtain ⟨hc, hmore⟩ := List.forall_mem_cons.1 hmore
    obtain ⟨d, hd⟩ := Option.isSome_iff_exists.1 hc
    obtain ⟨digits', code', hkeeps, hrun⟩ := ih (h.push hd) hmore
    refine ⟨digits', code', by rwa [List.append_cons], fun tail => ?_⟩
    rw [List.cons_append, body]
    simp only [hd]
    rw [hrun]
    rfl

/-- Code points are below the largest word, so that a number which was cut is none of them. -/
theorem Keeps.le_iff (h : Keeps ds digits code) :
    code.toNat ≤ lastCodePoint ↔ hexNumber ds ≤ lastCodePoint := by
  have hcode := h.code
  have hlast : lastCodePoint < UInt32.size - 1 := by decide
  omega

theorem Keeps.eq_of_le (h : Keeps ds digits code) (hle : code.toNat ≤ lastCodePoint) :
    code.toNat = hexNumber ds := by
  have hcode := h.code
  have hlast : lastCodePoint < UInt32.size - 1 := by decide
  omega

/-- The count of the digits as a word is not zero. -/
def Counted (ds : List Char) : Prop := ds.length % UInt32.size ≠ 0

/-- Up to `2 ^ 32` digits, the count tells whether there is any. -/
theorem counted_iff_of_lt (h : ds.length < UInt32.size) : Counted ds ↔ ds ≠ [] := by
  rw [Counted, Nat.mod_eq_of_lt h, ne_eq, List.length_eq_zero_iff]

theorem Keeps.digits_ne_zero (h : Keeps ds digits code) : digits ≠ 0 ↔ Counted ds := by
  rw [Counted, not_iff_not, h.digits, ← Int32.toBitVec_inj, Int32.toBitVec_ofNat',
    ← BitVec.toNat_inj, BitVec.toNat_ofNat]
  rfl

/-! ## The escape -/

/-- The digits `ds` write a code point, and `tail` behind them starts with the closing brace. -/
structure WritesCodePoint (ds tail : List Char) : Prop where
  digits : ds ≠ []
  closed : tail.head? = some '}'
  bound : hexNumber ds ≤ 0x10FFFF

theorem Counted.ne_nil (h : Counted ds) : ds ≠ [] := by
  rintro rfl
  exact h rfl

/-- Behind the last digit, the reader closes the escape or gives up. -/
theorem Keeps.body_braced (h : Keeps ds digits code) (htail : Stops isHexDigit tail) :
    ((WritesCodePoint ds tail ∧ Counted ds) ∧ body q (.braced digits code) tail =
        (body q .plain tail.tail).emit ['}'] [ofCodePoint (hexNumber ds)]) ∨
      (¬ (WritesCodePoint ds tail ∧ Counted ds) ∧
        body q (.braced digits code) tail = .stop [] .invalidUnicodeEscape) := by
  cases tail with
  | nil =>
    refine .inr ⟨fun hwrites => ?_, rfl⟩
    cases hwrites.1.closed
  | cons c tail =>
    have hc : hexValue? c = none := by
      have hstops := stops_cons.1 htail
      rwa [isHexDigit, Option.isSome_eq_false_iff, Option.isNone_iff_eq_none] at hstops
    rw [body]
    simp only [hc]
    by_cases hclose : c = '}' ∧ digits ≠ 0 ∧ code.toNat ≤ lastCodePoint
    · obtain ⟨rfl, hdigits, hle⟩ := hclose
      have hcounted : Counted ds := h.digits_ne_zero.1 hdigits
      rw [if_pos ⟨rfl, hdigits, hle⟩]
      refine .inl ⟨⟨⟨hcounted.ne_nil, rfl, h.le_iff.1 hle⟩, hcounted⟩, ?_⟩
      rw [h.eq_of_le hle]
      rfl
    · rw [if_neg hclose]
      refine .inr ⟨fun hescape => hclose ?_, rfl⟩
      obtain ⟨hwrites, hcounted⟩ := hescape
      exact ⟨Option.some.inj hwrites.closed, h.digits_ne_zero.2 hcounted, h.le_iff.2 hwrites.bound⟩

/-- The escape is one piece of a literal, or the fault of it. -/
theorem body_bracedEscape (hq : '\\' ≠ q) (hds : ∀ c ∈ ds, isHexDigit c = true)
    (htail : Stops isHexDigit tail) :
    ((WritesCodePoint ds tail ∧ Counted ds) ∧ body q .plain ('\\' :: 'u' :: '{' :: (ds ++ tail)) =
        (body q .plain tail.tail).emit ('\\' :: 'u' :: '{' :: (ds ++ ['}']))
          [ofCodePoint (hexNumber ds)]) ∨
      (¬ (WritesCodePoint ds tail ∧ Counted ds) ∧
        body q .plain ('\\' :: 'u' :: '{' :: (ds ++ tail)) =
          .stop ('\\' :: 'u' :: '{' :: ds) .invalidUnicodeEscape) := by
  obtain ⟨digits, code, hkeeps, hrun⟩ := @Keeps.run q _ _ _ _ keeps_nil hds
  have hopen : body q .plain ('\\' :: 'u' :: '{' :: (ds ++ tail)) =
      (body q (.braced digits code) tail).after ('\\' :: 'u' :: '{' :: ds) := by
    rw [body, if_neg hq, if_pos rfl, body, if_neg (by decide), if_pos rfl, body, if_pos rfl, hrun]
    · rfl
    · exact fun _ h => absurd h (by decide)
  rw [hopen]
  rcases @Keeps.body_braced q _ _ _ _ hkeeps htail with ⟨hwrites, hbody⟩ | ⟨hwrites, hbody⟩
  · refine .inl ⟨hwrites, ?_⟩
    rw [hbody, Scan.after_emit]
    rfl
  · refine .inr ⟨hwrites, ?_⟩
    rw [hbody]
    simp [Scan.after, Scan.stop]

/-- What a code point stands for: itself, and a surrogate for the replacement character. -/
theorem toNat_ofCodePoint {n : Nat} (h : n ≤ 0x10FFFF) :
    (ofCodePoint n).toNat = if 0xD800 ≤ n ∧ n ≤ 0xDFFF then 0xFFFD else n := by
  unfold ofCodePoint
  by_cases hvalid : n.isValidChar
  · have hsurrogate : ¬ (0xD800 ≤ n ∧ n ≤ 0xDFFF) := by
      unfold Nat.isValidChar at hvalid
      omega
    rw [if_pos hvalid, if_neg hsurrogate, Char.ofNat, dif_pos hvalid]
    rfl
  · have hsurrogate : 0xD800 ≤ n ∧ n ≤ 0xDFFF := by
      unfold Nat.isValidChar at hvalid
      omega
    rw [if_neg hvalid, if_pos hsurrogate]
    rfl

/-! ## A piece of a literal -/

/-- What an escape looks at behind it: digits behind `\0`, and a line feed behind the other half of
a line end. -/
def looksAt (c : Char) : Bool := c.isDigit || c == '\n'

theorem alike_of_stops {cs cs' : List Char} (h : Stops looksAt cs) (h' : Stops looksAt cs') :
    Alike cs cs' := by
  have hhead : ∀ {cs : List Char}, Stops looksAt cs →
      cs.head?.any Char.isDigit = false ∧ cs.head? ≠ some '\n' := by
    intro cs hstops
    cases cs with
    | nil => simp
    | cons c cs =>
      have hc := stops_cons.1 hstops
      simp only [looksAt, Bool.or_eq_false_iff, beq_eq_false_iff_ne] at hc
      simpa using hc
  obtain ⟨hdigit, hline⟩ := hhead h
  obtain ⟨hdigit', hline'⟩ := hhead h'
  exact ⟨hdigit.trans hdigit'.symm, iff_of_false hline hline'⟩

/-- **Behind a piece of a literal, reading goes on as at the start**, if the piece alone makes a
literal and no escape looks at what comes next. -/
theorem Reading.append {m : Mode} {cs taken v : List Char} (hq : looksAt q = false)
    (h : Reading q m cs taken v) :
    ∀ {raw rest : List Char}, taken = raw ++ [q] → Stops looksAt rest →
      body q m (raw ++ rest) = (body q .plain rest).emit raw v := by
  induction h with
  | close _ =>
    intro raw rest hraw _
    rw [List.self_eq_append_left.1 hraw, List.nil_append, Scan.emit_nil]
  | @step m m' full cs t u chunk w hreading _ hstep ih =>
    intro raw rest hraw hrest
    obtain ⟨piece, rfl⟩ := hreading.taken.closed
    obtain ⟨after, hafter⟩ := hreading.taken.front
    rw [← List.append_assoc] at hraw
    obtain rfl := List.append_cancel_right hraw
    -- only the last step of the piece has `rest` in place of the closing quote behind it
    have halike : Alike cs (piece ++ rest) := by
      rw [hafter, List.append_assoc]
      cases piece with
      | nil => exact alike_of_stops (stops_cons.2 hq) hrest
      | cons c piece => exact .of_head? rfl
    rw [List.append_assoc, hstep _ halike, ih rfl hrest, Scan.emit_emit]

end Quoted

/-! ## Literals -/

/-- What comes of a literal with `text` behind its opening quote. -/
def literalAt (quote : Quote) (text : List Char) (l : Location) : Except LexError TokenKind :=
  (Cursor.next ⟨quote.mark :: text, l⟩).1.map Token.kind

/-- A string with more in front of it. -/
def TokenKind.prepend (value raw : String) : TokenKind → TokenKind
  | .string v quote r => .string (value ++ v) quote (raw ++ r)
  | k => k

section

variable {quote : Quote} {text rest taken spelt raw v : List Char}

theorem skipBlanks_quote (quote : Quote) (text : List Char) (l : Location) :
    Cursor.skipBlanks ⟨quote.mark :: text, l⟩ = ⟨quote.mark :: text, l⟩ :=
  Cursor.skipBlanks_of_stops (stops_cons.2 (by cases quote <;> decide)) l

theorem literalAt_of_ok
    (h : Quoted.body quote.mark .plain text = ⟨raw ++ [quote.mark], .ok v⟩) (l : Location) :
    literalAt quote text l = .ok (.string (String.ofList v) quote (String.ofList raw)) := by
  have hscan : scanToken (Cursor.skipBlanks ⟨quote.mark :: text, l⟩).rest =
      .done (quote.mark :: (raw ++ [quote.mark]))
        (.string (String.ofList v) quote (String.ofList raw)) := by
    rw [skipBlanks_quote, scanToken_quote, Quoted.scan_of_body h]
  rw [literalAt, Cursor.next_of_done hscan]
  rfl

theorem literalAt_of_error {fault : LexFault}
    (h : Quoted.body quote.mark .plain text = ⟨taken, .error fault⟩) (l : Location) :
    literalAt quote text l = .error ⟨fault, l⟩ := by
  have hscan : scanToken (Cursor.skipBlanks ⟨quote.mark :: text, l⟩).rest =
      .stop (quote.mark :: taken) fault := by
    rw [skipBlanks_quote, scanToken_quote, Quoted.scan, h]
    rfl
  rw [literalAt, Cursor.next_of_stop hscan, skipBlanks_quote]
  rfl

/-- A piece in front of a literal is put before its value and before its text. -/
theorem literalAt_of_emit
    (h : Quoted.body quote.mark .plain text = (Quoted.body quote.mark .plain rest).emit spelt v)
    (l : Location) :
    literalAt quote text l =
      (literalAt quote rest l).map (.prepend (String.ofList v) (String.ofList spelt)) := by
  cases hrest : Quoted.body quote.mark .plain rest with
  | mk taken outcome =>
    rw [hrest] at h
    cases outcome with
    | error fault =>
      rw [literalAt_of_error hrest, literalAt_of_error h]
      rfl
    | ok w =>
      obtain ⟨raw, rfl⟩ := (Quoted.taken_of_body hrest).closed
      have htext : Quoted.body quote.mark .plain text =
          ⟨(spelt ++ raw) ++ [quote.mark], .ok (v ++ w)⟩ := by
        rw [h, List.append_assoc]
        rfl
      rw [literalAt_of_ok hrest, literalAt_of_ok htext, String.ofList_append, String.ofList_append]
      rfl

end

/-- Inside a literal, behind text that alone makes one, an escape in braces puts its character into
the value and its spelling into the text, or it is the fault of the literal. -/
theorem literalAt_bracedEscape {value raw : String} {quote : Quote} {ds tail : List Char}
    (hraw : (TokenKind.string value quote raw).Spelt) (hds : ∀ c ∈ ds, isHexDigit c = true)
    (htail : Stops isHexDigit tail) (l : Location) :
    let opened := raw.toList ++ '\\' :: 'u' :: '{' :: ds
    let literal := literalAt quote (opened ++ tail) l
    ((Quoted.WritesCodePoint ds tail ∧ Quoted.Counted ds) ∧
        literal = (literalAt quote tail.tail l).map
          (.prepend (value.push (Quoted.ofCodePoint (Quoted.hexNumber ds)))
            (String.ofList (opened ++ ['}'])))) ∨
      (¬ (Quoted.WritesCodePoint ds tail ∧ Quoted.Counted ds) ∧
        literal = .error ⟨.invalidUnicodeEscape, l⟩) := by
  intro opened literal
  have hquote : Quoted.looksAt quote.mark = false := by cases quote <;> decide
  have hslash : '\\' ≠ quote.mark := by cases quote <;> decide
  have hstops : Stops Quoted.looksAt ('\\' :: 'u' :: '{' :: (ds ++ tail)) :=
    stops_cons.2 (by decide)
  have hpiece := (Quoted.reading_of_body hraw).append hquote rfl hstops
  have htext : raw.toList ++ '\\' :: 'u' :: '{' :: (ds ++ tail) = opened ++ tail := by
    simp [opened]
  rw [htext] at hpiece
  rcases Quoted.body_bracedEscape hslash hds htail with ⟨hwrites, hbody⟩ | ⟨hwrites, hbody⟩
  · refine .inl ⟨hwrites, ?_⟩
    rw [hbody, Scan.emit_emit] at hpiece
    have hemit := literalAt_of_emit hpiece l
    have hvalue : String.ofList (value.toList ++ [Quoted.ofCodePoint (Quoted.hexNumber ds)]) =
        value.push (Quoted.ofCodePoint (Quoted.hexNumber ds)) := String.toList_inj.1 (by simp)
    have hspelt : raw.toList ++ '\\' :: 'u' :: '{' :: (ds ++ ['}']) = opened ++ ['}'] := by
      simp [opened]
    rw [hvalue, hspelt] at hemit
    exact hemit
  · refine .inr ⟨hwrites, ?_⟩
    rw [hbody] at hpiece
    exact literalAt_of_error hpiece l

/-- Fourteen digits, of which the zeros in front say nothing. -/
def Quoted.padded : List Char := "0000000001F600".toList

-- A word that wraps around would take these digits for the letter A.
example : (literalAt .single "\\u\x7b100000041\x7d'".toList (.start "m.ts")).isOk = false := by
  decide +kernel

end DecimalLift
