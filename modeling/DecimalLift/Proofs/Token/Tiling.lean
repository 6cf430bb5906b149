import DecimalLift.Proofs.Token.Stream

/-!
# The tokens tile the text

* `Location.lineBehind`, `Location.columnBehind` — line and column behind a text, counted from its
  start: the line feeds in it, and the characters since the last one.
* `Location.behind` — the place behind a text, with the words that these numbers are cut to.
* `Location.locates_iff` — the words are these numbers exactly where both are below `2 ^ 32`.
* `prefix_scanToken` — a scan takes characters from the front of a text, whatever comes of it.
* `TokenKind.source` — the characters that a token stands for, comments and line ends included.
* `Cursor.reads_next` — what one step takes, and where it leads.
* `Tiles` — tokens with offsets into a text: blanks between them, each on its own characters and
  with its own place.
* `tokenize_tiles` — the tokens of a text tile it, and which of their places are exact.
-/

set_option autoImplicit false

namespace DecimalLift

open DecimalLift.Text

/-! ## Places -/

namespace Location

/-- The line behind the text `cs`: the line feeds in it, from one on. -/
def lineBehind (cs : List Char) : Nat := cs.count '\n' + 1

/-- The column behind the text `cs`: the characters since the last line feed, from one on. -/
def columnBehind (cs : List Char) : Nat := (cs.reverse.takeWhile (· ≠ '\n')).length + 1

/-- The place behind the text `cs`, which starts a file. -/
def behind (file : String) (cs : List Char) : Location :=
  ⟨file, .ofNat (lineBehind cs), .ofNat (columnBehind cs)⟩

/-- What a character does to the line and the column. -/
theorem behind_concat (cs : List Char) (c : Char) :
    (c = '\n' ∧ lineBehind (cs ++ [c]) = lineBehind cs + 1 ∧ columnBehind (cs ++ [c]) = 1) ∨
      (c ≠ '\n' ∧ lineBehind (cs ++ [c]) = lineBehind cs ∧
        columnBehind (cs ++ [c]) = columnBehind cs + 1) := by
  by_cases hc : c = '\n'
  · subst hc
    simp [lineBehind, columnBehind]
  · simp [lineBehind, columnBehind, hc]

theorem advance_behind (file : String) (cs : List Char) (c : Char) :
    (behind file cs).advance c = behind file (cs ++ [c]) := by
  unfold behind advance
  rcases behind_concat cs c with ⟨hc, hline, hcolumn⟩ | ⟨hc, hline, hcolumn⟩
  · rw [if_pos hc, hline, hcolumn, UInt32.ofNat_add]
    rfl
  · rw [if_neg hc, hline, hcolumn, UInt32.ofNat_add]
    rfl

/-- **Moving on character by character counts the lines and columns of a text.** -/
theorem advanceOver_behind (file : String) (before cs : List Char) :
    (behind file before).advanceOver cs = behind file (before ++ cs) := by
  induction cs generalizing before with
  | nil => rw [List.append_nil]; rfl
  | cons c cs ih =>
    have hstep : (behind file before).advanceOver (c :: cs) =
        ((behind file before).advance c).advanceOver cs := rfl
    rw [hstep, advance_behind, ih, List.append_assoc, List.singleton_append]

/-! ### Words that suffice -/

/-- The line and the column at offset `n` of the text fit a word. -/
def Fits (text : List Char) (n : Nat) : Prop :=
  lineBehind (text.take n) < UInt32.size ∧ columnBehind (text.take n) < UInt32.size

/-- Every line and every column of the text fits a word. -/
def FitWords (text : List Char) : Prop := ∀ n, Fits text n

/-- The line and the column are those at offset `n` of the text. -/
def Locates (text : List Char) (n : Nat) (l : Location) : Prop :=
  l.line.toNat = lineBehind (text.take n) ∧ l.column.toNat = columnBehind (text.take n)

/-- A text that is shorter than the largest word fits. -/
theorem fitWords_of_length {text : List Char} (h : text.length + 1 < UInt32.size) :
    FitWords text := by
  intro n
  have htake : (text.take n).length ≤ text.length := by
    rw [List.length_take]
    exact Nat.min_le_right _ _
  have hline : (text.take n).count '\n' ≤ (text.take n).length := List.count_le_length
  have hcolumn : ((text.take n).reverse.takeWhile (· ≠ '\n')).length ≤ (text.take n).length :=
    Nat.le_trans (List.takeWhile_prefix _).length_le (Nat.le_of_eq List.length_reverse)
  unfold Fits lineBehind columnBehind
  omega

theorem toNat_ofNat_eq_iff {n : Nat} : (UInt32.ofNat n).toNat = n ↔ n < UInt32.size := by
  rw [UInt32.toNat_ofNat']
  exact ⟨fun h => h ▸ Nat.mod_lt n (by decide), Nat.mod_eq_of_lt⟩

/-- **The line and the column of a place are exact where they fit a word, and nowhere else.** -/
theorem locates_iff (file : String) (text : List Char) (n : Nat) :
    (behind file (text.take n)).Locates text n ↔ Fits text n :=
  and_congr toNat_ofNat_eq_iff toNat_ofNat_eq_iff

end Location

/-! ## A scan takes the front of a text -/

theorem drop_of_append_eq {xs ys cs : List Char} (h : xs ++ ys = cs) : cs.drop xs.length = ys := by
  subst h
  exact List.drop_left

theorem extract_append (xs ys zs : List Char) :
    (xs ++ ys ++ zs).extract xs.length (xs ++ ys).length = ys := by
  simp [List.extract_eq_take_drop]

namespace Number

theorem prefix_mantissa (cs : List Char) : mantissa cs <+: cs := by
  have hsplit := List.takeWhile_append_dropWhile (p := Char.isDigit) (l := cs)
  unfold mantissa
  simp only
  split
  · rename_i rest hrest
    obtain ⟨tail, htail⟩ := List.takeWhile_prefix Char.isDigit (l := rest)
    exact ⟨tail, by rw [List.append_assoc, List.cons_append, htail, ← hrest, hsplit]⟩
  · exact List.takeWhile_prefix _

theorem prefix_exponent {cs mark digits : List Char} (h : exponent? cs = some (mark, digits)) :
    mark ++ digits <+: cs := by
  unfold exponent? at h
  split at h
  · split at h
    · split at h
      · split at h
        · cases h
          exact List.cons_prefix_cons.2
            ⟨rfl, List.cons_prefix_cons.2 ⟨rfl, List.takeWhile_prefix _⟩⟩
        · cases h
          exact List.cons_prefix_cons.2 ⟨rfl, List.takeWhile_prefix _⟩
      · cases h
        exact List.prefix_rfl
    · cases h
  · cases h

theorem taken_finish (raw rest : List Char) : (finish raw rest).taken = raw := by
  unfold finish
  split
  · split <;> rfl
  · rfl

/-- The exponent behind a mantissa is taken with it. -/
theorem prefix_mantissa_exponent {cs mark digits : List Char}
    (h : exponent? (cs.drop (mantissa cs).length) = some (mark, digits)) :
    mantissa cs ++ mark ++ digits <+: cs := by
  obtain ⟨rest, hrest⟩ := prefix_mantissa cs
  rw [drop_of_append_eq hrest] at h
  obtain ⟨tail, htail⟩ := prefix_exponent h
  refine ⟨tail, ?_⟩
  rw [List.append_assoc, List.append_assoc, ← List.append_assoc mark, htail, hrest]

theorem prefix_scanDecimal (cs : List Char) : (scanDecimal cs).taken <+: cs := by
  unfold scanDecimal
  simp only
  split
  · rw [taken_finish]
    exact prefix_mantissa cs
  · rename_i mark digits hexp
    split
    · exact prefix_mantissa_exponent hexp
    · rw [taken_finish]
      exact prefix_mantissa_exponent hexp

theorem prefix_scan (cs : List Char) : (scan cs).taken <+: cs := by
  unfold scan
  split
  · split
    · unfold scanHex
      simp only
      have hfront : ∀ x : Char, ∀ rest : List Char,
          '0' :: x :: rest.takeWhile isHexDigit <+: '0' :: x :: rest := fun x rest =>
        List.cons_prefix_cons.2 ⟨rfl, List.cons_prefix_cons.2 ⟨rfl, List.takeWhile_prefix _⟩⟩
      split
      · exact hfront _ _
      · exact hfront _ _
    · exact prefix_scanDecimal _
  · exact prefix_scanDecimal _

end Number

theorem Quoted.prefix_body (q : Char) (m : Mode) (cs : List Char) : (body q m cs).taken <+: cs := by
  have hcons : ∀ {c : Char} {t cs : List Char}, t <+: cs → [c] ++ t <+: c :: cs :=
    fun h => List.cons_prefix_cons.2 ⟨rfl, h⟩
  fun_induction body q m cs with
  | case1 | case11 | case15 | case19 => exact List.nil_prefix
  | case2 | case4 => exact List.cons_prefix_cons.2 ⟨rfl, List.nil_prefix⟩
  | case6 cs ih => exact hcons (hcons ih)
  | _ => exact hcons ‹_›

theorem prefix_commentBody (cs : List Char) : (commentBody cs).taken <+: cs := by
  fun_induction commentBody cs with
  | case1 cs => exact ⟨cs, rfl⟩
  | case2 c cs _ ih => exact List.cons_prefix_cons.2 ⟨rfl, ih⟩
  | case3 => exact List.prefix_rfl

/-- **A scan takes characters from the front of a text**, whatever comes of it. -/
theorem prefix_scanToken (cs : List Char) : (scanToken cs).taken <+: cs := by
  have hscans := scansAs_scanToken cs
  generalize scanToken cs = s at hscans ⊢
  cases hscans with
  | endOfFile => exact List.prefix_rfl
  | newline => exact List.cons_prefix_cons.2 ⟨rfl, List.nil_prefix⟩
  | word => exact List.takeWhile_prefix _
  | number => exact Number.prefix_scan cs
  | string => exact List.cons_prefix_cons.2 ⟨rfl, Quoted.prefix_body _ _ _⟩
  | lineComment =>
    exact List.cons_prefix_cons.2 ⟨rfl, List.cons_prefix_cons.2 ⟨rfl, List.takeWhile_prefix _⟩⟩
  | blockComment =>
    exact List.cons_prefix_cons.2 ⟨rfl, List.cons_prefix_cons.2 ⟨rfl, prefix_commentBody _⟩⟩
  | @symbol c cs =>
    unfold scanSymbol
    split
    · rename_i symbol hmunch
      unfold Symbol.munch? at hmunch
      have hfront := List.find?_some hmunch
      exact List.isPrefixOf_iff_prefix.1 hfront
    · exact List.cons_prefix_cons.2 ⟨rfl, List.nil_prefix⟩

/-! ## One step -/

namespace Cursor

/-- What one step of reading takes: blanks, and then the characters of a token or of what spoils
it. -/
structure Reads (c : Cursor) (o : Except LexError Token) (gap taken : List Char) (c' : Cursor) :
    Prop where
  text : c.rest = gap ++ (taken ++ c'.rest)
  blank : ∀ x ∈ gap, isGap x = true
  place : c'.location = (c.location.advanceOver gap).advanceOver taken
  token : ∀ t, o = .ok t → t.span = ⟨c.location.advanceOver gap, c'.location⟩ ∧
    scanToken (taken ++ c'.rest) = ⟨taken, .ok t.kind⟩

theorem rest_skipBlanks (c : Cursor) : c.skipBlanks.rest = c.rest.dropWhile isGap :=
  drop_of_append_eq List.takeWhile_append_dropWhile

/-- Where a step leads, whatever comes of it. -/
theorem next_snd (c : Cursor) :
    c.next.2 = c.skipBlanks.past (scanToken c.skipBlanks.rest).taken := by
  unfold next
  simp only
  split <;> rfl

/-- **A step takes characters and leads behind them**, also where it fails. -/
theorem reads_next {c c' : Cursor} {o : Except LexError Token} (h : c.next = (o, c')) :
    ∃ gap taken, c.Reads o gap taken c' := by
  have hfront := prefix_scanToken c.skipBlanks.rest
  cases hs : scanToken c.skipBlanks.rest with
  | mk taken outcome =>
    rw [hs] at hfront
    obtain ⟨rest, hrest⟩ := hfront
    have hsplit : c.skipBlanks.rest = taken ++ rest := hrest.symm
    have hbehind : c.skipBlanks.past taken =
        ⟨rest, (c.location.advanceOver (c.rest.takeWhile isGap)).advanceOver taken⟩ := by
      unfold past
      rw [hsplit, List.drop_left]
      rfl
    have hc' : c' = c.skipBlanks.past taken := by
      have hsnd := next_snd c
      rwa [h, hs] at hsnd
    rw [hbehind] at hc'
    subst hc'
    refine ⟨c.rest.takeWhile isGap, taken, ?_, List.all_eq_true.1 List.all_takeWhile, rfl, ?_⟩
    · rw [← hsplit, rest_skipBlanks, List.takeWhile_append_dropWhile]
    · rintro t rfl
      unfold next at h
      simp only [hs, hbehind] at h
      cases outcome with
      | error fault => cases h
      | ok k =>
        cases h
        exact ⟨rfl, by rw [← hsplit, hs]⟩

end Cursor

/-! ## All steps -/

/-- A token with the offsets between which it stands in a text. -/
structure Tile where
  token : Token
  start : Nat
  stop : Nat

/-- A token in a text, where all before offset `done` belongs to earlier ones. -/
structure Tile.Fits (file : String) (text : List Char) (done : Nat) (x : Tile) : Prop where
  after : done ≤ x.start
  ordered : x.start ≤ x.stop
  /-- Only the end of file takes no character. -/
  empty : x.start = x.stop ↔ x.token.kind = .endOfFile
  gap : ∀ c ∈ text.extract done x.start, isBlank c = true ∧ c ≠ '\n'
  spelling : text.extract x.start x.stop = x.token.kind.source
  place : x.token.span = ⟨.behind file (text.take x.start), .behind file (text.take x.stop)⟩

/-- Tokens that stand one after the other from offset `done` up to the end of a text. -/
def Tiles (file : String) (text : List Char) (done : Nat) : List Tile → Prop
  | [] => done = text.length
  | x :: xs => x.Fits file text done ∧ Tiles file text x.stop xs

/-- The offsets of a token that a step has read. -/
theorem Cursor.Reads.fits {file : String} {before gap taken : List Char} {c c' : Cursor} {t : Token}
    (h : c.Reads (.ok t) gap taken c') (hplace : c.location = .behind file before) :
    Tile.Fits file (before ++ c.rest) before.length
      ⟨t, (before ++ gap).length, (before ++ gap ++ taken).length⟩ := by
  obtain ⟨hspan, hscan⟩ := h.token t rfl
  have htext : before ++ c.rest = before ++ gap ++ taken ++ c'.rest := by
    rw [h.text]
    simp only [List.append_assoc]
  rw [htext]
  have hstart : Location.behind file (before ++ gap) = c.location.advanceOver gap := by
    rw [hplace, Location.advanceOver_behind]
  have hstop : Location.behind file (before ++ gap ++ taken) = c'.location := by
    rw [h.place, ← hstart, Location.advanceOver_behind]
  obtain ⟨htaken, -⟩ := source_of_scanToken hscan
  refine ⟨by simp, by simp, ?_, ?_, ?_, ?_⟩
  · have hnil : taken = [] ↔ t.kind = .endOfFile := by
      by_cases hend : t.kind = .endOfFile
      · simp [htaken, hend, TokenKind.source]
      · simp [taken_ne_nil hscan hend, hend]
    simpa using hnil
  · intro x hx
    have hgap : (before ++ gap ++ (taken ++ c'.rest)).extract before.length (before ++ gap).length =
        gap := extract_append ..
    rw [List.append_assoc (before ++ gap), hgap] at hx
    simpa [Cursor.isGap] using h.blank x hx
  · rw [extract_append, htaken]
  · rw [hspan, ← hstart, ← hstop, List.take_left, List.append_assoc (before ++ gap), List.take_left]

/-- **A run of steps tiles what is left of a text.** -/
theorem tiles_of_tokens {file : String} : ∀ {steps : Nat} {c : Cursor} {ts : List Token}
    {before : List Char}, c.tokens steps = .ok ts → c.rest.length < steps →
      c.location = .behind file before →
        ∃ tiles : List Tile, tiles.map Tile.token = ts ∧
          Tiles file (before ++ c.rest) before.length tiles
  | 0, _, _, _, _, hsteps, _ => absurd hsteps (Nat.not_lt_zero _)
  | steps + 1, c, ts, before, h, hsteps, hplace => by
    rw [Cursor.tokens] at h
    split at h
    · cases h
    · rename_i t c' hnext
      obtain ⟨gap, taken, hreads⟩ := Cursor.reads_next hnext
      have hfits := hreads.fits hplace
      have htext : before ++ c.rest = before ++ gap ++ taken ++ c'.rest := by
        rw [hreads.text]
        simp only [List.append_assoc]
      split at h
      · rename_i hend
        cases h
        refine ⟨[_], rfl, hfits, ?_⟩
        obtain ⟨-, hscan⟩ := hreads.token t rfl
        rw [hend] at hscan
        have hnil : c'.rest = [] := (List.append_eq_nil_iff.1 (nil_of_scanToken hscan)).2
        show (before ++ gap ++ taken).length = (before ++ c.rest).length
        rw [htext, hnil, List.append_nil]
      · rename_i hend
        cases hrest : c'.tokens steps with
        | error e =>
          rw [hrest] at h
          cases h
        | ok ts' =>
          rw [hrest] at h
          cases h
          have hlength := Cursor.length_of_next hnext hend
          have hplace' : c'.location = .behind file (before ++ gap ++ taken) := by
            rw [hreads.place, hplace, Location.advanceOver_behind, Location.advanceOver_behind]
          obtain ⟨tiles, hmap, htiles⟩ := tiles_of_tokens hrest (by omega) hplace'
          refine ⟨_ :: tiles, by rw [List.map_cons, hmap], hfits, ?_⟩
          rw [htext]
          exact htiles

/-- There are tiles for the tokens of a text. -/
theorem exists_tiles {source file : String} {ts : List Token} (h : tokenize source file = .ok ts) :
    ∃ tiles : List Tile, Tiles file source.toList 0 tiles ∧ tiles.map Tile.token = ts := by
  obtain ⟨tiles, hmap, htiles⟩ :=
    @tiles_of_tokens file _ (.start source file) ts [] h (Nat.lt_succ_self _) rfl
  exact ⟨tiles, htiles, hmap⟩

/-- The places of a token are exact where they fit a word. -/
theorem Tile.Fits.locates_iff {file : String} {text : List Char} {done : Nat} {x : Tile}
    (h : x.Fits file text done) :
    (x.token.span.start.Locates text x.start ↔ Location.Fits text x.start) ∧
      (x.token.span.stop.Locates text x.stop ↔ Location.Fits text x.stop) := by
  rw [h.place]
  exact ⟨Location.locates_iff file text _, Location.locates_iff file text _⟩

theorem Tiles.exists_fits {file : String} {text : List Char} {x : Tile} :
    ∀ {done : Nat} {tiles : List Tile}, Tiles file text done tiles → x ∈ tiles →
      ∃ before, x.Fits file text before
  | _, [], _, hx => absurd hx List.not_mem_nil
  | done, _ :: _, ⟨hfits, hrest⟩, hx => by
    rcases List.mem_cons.1 hx with rfl | hx
    · exact ⟨done, hfits⟩
    · exact hrest.exists_fits hx

/-- A string over two lines with an escape, two comments, a number with an exponent and more. -/
def Token.medley : String := "a='\\\r\n\\u\x7b41\x7d'>>/* b\n */ 0x1F // c\n\t.5e+3"

end DecimalLift
