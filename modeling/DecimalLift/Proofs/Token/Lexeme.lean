import DecimalLift.Parse.State
import DecimalLift.Proofs.Token.Numeral
import DecimalLift.Proofs.Token.Quoted
import DecimalLift.Token.Stream

/-!
# Tokens and their spelling

A token that stands for its spelling can be moved: written in front of another text it is scanned
as the same token, as long as the next character does not run into it.

* `TokenKind.Spelt` — the spellings of numbers, strings, names, keywords and symbols.
* `TokenKind.source` — the characters that a token stands for, line ends and comments included.
* `TokenKind.runsInto` — the characters that a token cannot stand directly before.
* `scanToken_spelt` — a spelling is scanned as its token in front of every other text.
* `ScansAs` — the scanner that reads the front of a text, and `scansAs_scanToken`, that there is
  always one.
* `source_of_scanToken`, `spelt_of_scanToken` — what the scanner returns is spelt, so both
  directions meet.
* `Lexes` — the kinds of the tokens of a text, with one rule for each way in which a text can go on
  (`lexes_nil`, `lexes_gap`, `lexes_newline`, `lexes_token`).
* `tokenize_spelt` — the text of a token, on its own, is split into that token.
* `spelt_of_tokens` — every token of a text is spelt.
-/

set_option autoImplicit false

namespace DecimalLift

open DecimalLift.Text

/-! ## Symbols -/

namespace Symbol

/-- Whether a longer symbol starts with `s` and the character `c`. -/
def joins (s : Symbol) (c : Char) : Bool :=
  longestFirst.any fun t => (s.chars ++ [c]).isPrefixOf t.chars

/-- The characters that make a longer symbol of `s`. -/
def followers (s : Symbol) : List Char :=
  longestFirst.filterMap fun t =>
    if s.chars.isPrefixOf t.chars then t.chars[s.chars.length]? else none

theorem mem_followers_of_joins {s : Symbol} {c : Char} (h : s.joins c = true) :
    c ∈ s.followers := by
  obtain ⟨t, ht, hp⟩ := List.any_eq_true.1 h
  obtain ⟨r, hr⟩ := List.isPrefixOf_iff_prefix.1 hp
  refine List.mem_filterMap.2 ⟨t, ht, ?_⟩
  rw [← hr, if_pos (List.isPrefixOf_iff_prefix.2 ⟨c :: r, by simp⟩)]
  simp

/-- In the list of all symbols, none is the start of a later one. -/
theorem longestFirst_pairwise :
    longestFirst.Pairwise fun a b => a.chars.isPrefixOf b.chars = false := by
  decide

/-- **The longest symbol**: a symbol is found unless the next character makes a longer one. -/
theorem munch?_append {s : Symbol} {rest : List Char} (hr : Stops s.joins rest) :
    munch? (s.chars ++ rest) = some s := by
  unfold munch?
  obtain ⟨as, bs, hsplit⟩ := List.append_of_mem (mem_longestFirst s)
  refine List.find?_eq_some_iff_append.2 ⟨by simp, as, bs, hsplit, fun a ha => ?_⟩
  have hord := longestFirst_pairwise
  rw [hsplit, List.pairwise_append] at hord
  have hno : a.chars.isPrefixOf s.chars = false := hord.2.2 a ha s (by simp)
  cases hp : a.chars.isPrefixOf (s.chars ++ rest) with
  | false => rfl
  | true =>
    obtain ⟨z, hz⟩ := List.isPrefixOf_iff_prefix.1 hp
    rcases List.append_eq_append_iff.1 hz with ⟨c', hc, -⟩ | ⟨c', hc, hrest⟩
    · rw [List.isPrefixOf_iff_prefix.2 ⟨c', hc.symm⟩] at hno
      cases hno
    · cases c' with
      | nil =>
        rw [List.append_nil] at hc
        rw [hc, List.isPrefixOf_iff_prefix.2 List.prefix_rfl] at hno
        cases hno
      | cons c c'' =>
        -- `a` is longer than `s` and goes on with the next character
        have hj : s.joins c = true := by
          refine List.any_eq_true.2 ⟨a, mem_longestFirst a, ?_⟩
          exact List.isPrefixOf_iff_prefix.2 ⟨c'', by rw [hc]; simp⟩
        rw [hrest] at hr
        rw [List.cons_append] at hr
        have := stops_cons.1 hr
        rw [hj] at this
        cases this

/-- The first character of a symbol decides how the scanner goes on. -/
theorem exists_chars (s : Symbol) : ∃ c cs, s.chars = c :: cs ∧ c ≠ '\n' ∧ isNameStart c = false ∧
    c.isDigit = false ∧ c ≠ '\'' ∧ c ≠ '"' ∧ (c = '.' → s = .dot ∧ cs = []) ∧
    (c = '/' → s = .slash ∧ cs = [] ∨ s = .slashEqual ∧ cs = ['=']) := by
  cases s <;> exact ⟨_, _, rfl, by decide⟩

end Symbol

/-! ## Spellings -/

namespace TokenKind

/-- The kinds of token that stand for their spelling, with the spellings that the scanner reads. -/
def Spelt : TokenKind → Prop
  | .number raw => Number.IsNumeral raw.toList
  | .string value quote raw =>
    Quoted.body quote.mark .plain (raw.toList ++ [quote.mark]) =
      ⟨raw.toList ++ [quote.mark], .ok value.toList⟩
  | .identifier name => isName name = true ∧ Keyword.ofText? name = none
  | .keyword _ | .symbol _ => True
  | .newline | .lineComment _ | .blockComment _ | .endOfFile => False

/-- Whether a character that stands right behind a token would be read together with it. -/
def runsInto : TokenKind → Char → Bool
  | .number _, c => Number.runsOn c
  | .identifier _, c | .keyword _, c => isNamePart c
  | .symbol s, c =>
    s.joins c || (s == .dot && c.isDigit) || (s == .slash && (c == '/' || c == '*'))
  | _, _ => false

/-- The characters that a token stands for, with those of line ends and comments. -/
def source : TokenKind → List Char
  | .newline => ['\n']
  | .lineComment text => '/' :: '/' :: text.toList
  | .blockComment text => '/' :: '*' :: (text.toList ++ ['*', '/'])
  | .endOfFile => []
  | k => k.text.toList

theorem source_of_spelt {k : TokenKind} (h : k.Spelt) : k.source = k.text.toList := by
  cases k with
  | newline | lineComment | blockComment | endOfFile => cases h
  | _ => rfl

/-- Every value can be spelt between quotes. -/
theorem spelt_escape (value : String) (quote : Quote) :
    (TokenKind.string value quote (Quoted.escape quote value)).Spelt := by
  simp only [TokenKind.Spelt, Quoted.escape, String.toList_ofList]
  exact Quoted.body_escape quote value.toList []

end TokenKind

theorem isNamePart_of_isNameStart {c : Char} (h : isNameStart c = true) : isNamePart c = true := by
  unfold isNameStart at h
  unfold isNamePart isAlphanumeric
  simp only [Bool.or_eq_true] at h ⊢
  rcases h with (h | h) | h
  · exact Or.inl (Or.inl (Or.inl h))
  · exact Or.inl (Or.inr h)
  · exact Or.inr h

/-- A digit or a point does not start a name. -/
theorem not_isNameStart {c : Char} (h : c.isDigit = true ∨ c = '.') :
    c ≠ '\n' ∧ isNameStart c = false := by
  have hlt : c.toNat < 0x80 := by
    rcases h with h | rfl
    · simp only [Char.isDigit, Bool.and_eq_true, decide_eq_true_eq, UInt32.le_iff_toNat_le] at h
      have h9 : '9'.val.toNat = 57 := rfl
      show c.val.toNat < 0x80
      omega
    · decide
  have hall := ascii_forall
    (p := fun c => !(c.isDigit || c == '.') || (c != '\n' && !isNameStart c)) (by decide) hlt
  have hc : (c.isDigit || c == '.') = true := by
    rcases h with h | rfl
    · simp [h]
    · rfl
  simpa [hc] using hall

/-! ## Scanning a spelling in front of a text -/

/-- A word is scanned as a whole if no character of a name follows. -/
theorem scanToken_word {cs rest : List Char} (h : isName (String.ofList cs) = true)
    (hr : Stops isNamePart rest) :
    scanToken (cs ++ rest) = .done cs (.ofWord (String.ofList cs)) := by
  unfold isName at h
  rw [String.toList_ofList] at h
  match cs, h with
  | c :: cs, h =>
    simp only [Bool.and_eq_true, List.all_eq_true] at h
    have hn : c ≠ '\n' := by
      rintro rfl
      exact absurd h.1 (by decide)
    have hall : ∀ d ∈ c :: cs, isNamePart d = true := by
      intro d hd
      rcases List.mem_cons.1 hd with rfl | hd
      · exact isNamePart_of_isNameStart h.1
      · exact h.2 d hd
    rw [List.cons_append, scanToken, if_neg hn, if_pos h.1]
    unfold scanWord
    rw [← List.cons_append, takeWhile_append_of_stops hall hr]

/-- What starts like a number is scanned as one. -/
theorem scanToken_of_starts {cs : List Char} (h : Number.starts cs = true) :
    scanToken cs = (Number.scan cs).map .number := by
  cases cs with
  | nil => cases h
  | cons c cs =>
    have hc : c.isDigit = true ∨ c = '.' := by
      simp only [Number.starts, Bool.or_eq_true, Bool.and_eq_true, beq_iff_eq] at h
      rcases h with h | h
      · exact Or.inl h
      · exact Or.inr h.1
    obtain ⟨hn, hname⟩ := not_isNameStart hc
    unfold Number.starts at h
    rw [scanToken, if_neg hn, if_neg (by simp [hname]), if_pos h]

theorem scanToken_number {raw rest : List Char} (h : Number.IsNumeral raw)
    (hr : Stops Number.runsOn rest) :
    scanToken (raw ++ rest) = .done raw (.number (String.ofList raw)) := by
  rw [scanToken_of_starts (h.starts rest), Number.scan_numeral h hr]
  rfl

theorem scanToken_quote (quote : Quote) (cs : List Char) :
    scanToken (quote.mark :: cs) = Quoted.scan quote cs := by
  cases quote <;> simp [scanToken, Quote.mark, isNameStart, isAlphabetic]

theorem Quoted.scan_of_body {quote : Quote} {cs raw value : List Char}
    (h : body quote.mark .plain cs = ⟨raw ++ [quote.mark], .ok value⟩) :
    scan quote cs = .done (quote.mark :: (raw ++ [quote.mark]))
      (.string (String.ofList value) quote (String.ofList raw)) := by
  unfold scan
  rw [h]
  simp [Scan.map, Scan.after, Scan.done, Except.map]

theorem scanToken_string {quote : Quote} {raw value rest : List Char}
    (h : Quoted.body quote.mark .plain (raw ++ [quote.mark]) = ⟨raw ++ [quote.mark], .ok value⟩) :
    scanToken (quote.mark :: (raw ++ [quote.mark]) ++ rest) =
      .done (quote.mark :: (raw ++ [quote.mark]))
        (.string (String.ofList value) quote (String.ofList raw)) := by
  rw [List.cons_append, scanToken_quote]
  exact Quoted.scan_of_body ((Quoted.taken_of_body h).stable rest)

theorem scanToken_symbol {s : Symbol} {rest : List Char}
    (hr : Stops (TokenKind.symbol s).runsInto rest) :
    scanToken (s.chars ++ rest) = .done s.chars (.symbol s) := by
  have hj : Stops s.joins rest := hr.mono (fun c h => by simp [TokenKind.runsInto, h])
  have hm := Symbol.munch?_append hj
  obtain ⟨c, cs, hcs, hn, hname, hdigit, hq1, hq2, hdot, hslash⟩ := s.exists_chars
  have hnum : ¬ (c.isDigit || (c == '.' && (cs ++ rest).head?.any Char.isDigit)) = true := by
    rw [hdigit]
    simp only [Bool.false_or, Bool.and_eq_true, beq_iff_eq, Option.any_eq_true]
    rintro ⟨hc, d, hd, hdd⟩
    obtain ⟨rfl, rfl⟩ := hdot hc
    have := hr d hd
    simp [TokenKind.runsInto, hdd] at this
  have hcomment : ∀ d, d = '/' ∨ d = '*' → ¬ (c = '/' ∧ (cs ++ rest).head? = some d) := by
    rintro d hd ⟨hc, hhead⟩
    rcases hslash hc with ⟨rfl, rfl⟩ | ⟨rfl, rfl⟩
    · have := hr d hhead
      rcases hd with rfl | rfl <;> simp [TokenKind.runsInto] at this
    · rcases hd with rfl | rfl <;> simp at hhead
  rw [hcs, List.cons_append, scanToken, if_neg hn, if_neg (by simp [hname]), if_neg hnum,
    if_neg hq1, if_neg hq2, if_neg (hcomment _ (Or.inl rfl)), if_neg (hcomment _ (Or.inr rfl))]
  unfold scanSymbol
  rw [← List.cons_append, ← hcs, hm]

theorem isName_keyword (k : Keyword) : isName k.text = true := by
  cases k <;> decide

/-- **A spelling is scanned as its token**, whatever stands behind it, unless the next character
runs into it. -/
theorem scanToken_spelt {k : TokenKind} {rest : List Char} (hk : k.Spelt)
    (hr : Stops k.runsInto rest) : scanToken (k.text.toList ++ rest) = .done k.text.toList k := by
  cases k with
  | number raw =>
    have := scanToken_number hk hr
    rwa [String.ofList_toList] at this
  | string value quote raw =>
    have := @scanToken_string quote raw.toList value.toList rest hk
    rw [String.ofList_toList, String.ofList_toList] at this
    have htext : (TokenKind.string value quote raw).text.toList =
        quote.mark :: (raw.toList ++ [quote.mark]) := by
      simp [TokenKind.text, TokenKind.quoted]
    rw [htext, this]
  | identifier name =>
    have := @scanToken_word name.toList rest (by rw [String.ofList_toList]; exact hk.1) hr
    rw [String.ofList_toList, TokenKind.ofWord, hk.2] at this
    exact this
  | keyword w =>
    have := @scanToken_word w.text.toList rest
      (by rw [String.ofList_toList]; exact isName_keyword w) hr
    rw [String.ofList_toList, TokenKind.ofWord, Keyword.ofText?_text] at this
    exact this
  | symbol s =>
    have htext : (TokenKind.symbol s).text.toList = s.chars := by
      simp [TokenKind.text, Symbol.text]
    rw [htext]
    exact scanToken_symbol hr
  | newline => cases hk
  | lineComment text => cases hk
  | blockComment text => cases hk
  | endOfFile => cases hk

/-! ## Which scanner reads a text -/

/-- The scanner that reads the front of a text, by the first characters. -/
inductive ScansAs : List Char → Scan TokenKind → Prop
  | endOfFile : ScansAs [] (.done [] .endOfFile)
  | newline {cs : List Char} : ScansAs ('\n' :: cs) (.done ['\n'] .newline)
  | word {c : Char} {cs : List Char} (h : isNameStart c = true) :
      ScansAs (c :: cs) (scanWord (c :: cs))
  | number {cs : List Char} (h : Number.starts cs = true) :
      ScansAs cs ((Number.scan cs).map .number)
  | string {quote : Quote} {cs : List Char} : ScansAs (quote.mark :: cs) (Quoted.scan quote cs)
  | lineComment {cs : List Char} : ScansAs ('/' :: '/' :: cs) (scanLineComment cs)
  | blockComment {cs : List Char} : ScansAs ('/' :: '*' :: cs) (scanBlockComment cs)
  | symbol {c : Char} {cs : List Char} : ScansAs (c :: cs) (scanSymbol c cs)

theorem scansAs_scanToken (cs : List Char) : ScansAs cs (scanToken cs) := by
  have hhead : ∀ {d : Char} {ds : List Char}, ds.head? = some d → ds = d :: ds.tail := by
    intro d ds h
    cases ds with
    | nil => cases h
    | cons => cases h; rfl
  unfold scanToken
  split
  · exact .endOfFile
  rename_i c cs
  split
  · rename_i hc
    subst hc
    exact .newline
  split
  · rename_i hname
    exact .word hname
  split
  · rename_i hstarts
    exact .number hstarts
  split
  · rename_i hc
    subst hc
    exact @ScansAs.string .single cs
  split
  · rename_i hc
    subst hc
    exact @ScansAs.string .double cs
  split
  · rename_i hc
    obtain ⟨rfl, hslash⟩ := hc
    rw [hhead hslash]
    exact .lineComment
  split
  · rename_i hc
    obtain ⟨rfl, hstar⟩ := hc
    rw [hhead hstar]
    exact .blockComment
  · exact .symbol

theorem scanSymbol_eq_ok {c : Char} {cs taken : List Char} {k : TokenKind} :
    scanSymbol c cs = ⟨taken, .ok k⟩ ↔
      ∃ s, Symbol.munch? (c :: cs) = some s ∧ taken = s.chars ∧ k = .symbol s := by
  unfold scanSymbol
  cases Symbol.munch? (c :: cs) with
  | none =>
    constructor
    · intro h
      cases h
    · rintro ⟨s, h, -⟩
      cases h
  | some s =>
    constructor
    · intro h
      cases h
      exact ⟨s, rfl, rfl, rfl⟩
    · rintro ⟨s', h, rfl, rfl⟩
      cases h
      rfl

/-! ## What the scanner returns is spelt -/

theorem Keyword.text_of_ofText? {name : String} {k : Keyword} (h : ofText? name = some k) :
    k.text = name := by
  simpa using List.find?_some h

theorem spelt_ofWord {name : String} (h : isName name = true) :
    (TokenKind.ofWord name).Spelt ∧ (TokenKind.ofWord name).text = name := by
  unfold TokenKind.ofWord
  split
  · rename_i k hk
    exact ⟨trivial, Keyword.text_of_ofText? hk⟩
  · rename_i hk
    exact ⟨⟨h, hk⟩, rfl⟩

theorem isName_takeWhile {c : Char} {cs : List Char} (h : isNameStart c = true) :
    isName (String.ofList ((c :: cs).takeWhile isNamePart)) = true := by
  rw [List.takeWhile_cons, isNamePart_of_isNameStart h]
  unfold isName
  rw [String.toList_ofList]
  simp [h]

theorem spelt_of_scanString {quote : Quote} {cs taken : List Char} {k : TokenKind}
    (h : Quoted.scan quote cs = ⟨taken, .ok k⟩) : k.Spelt ∧ taken = k.text.toList := by
  unfold Quoted.scan at h
  simp only at h
  obtain ⟨t, ht, rfl⟩ := Scan.after_eq_ok.1 h
  cases hb : Quoted.body quote.mark .plain cs with
  | mk tk o =>
    rw [hb] at ht
    cases o with
    | error e => cases ht
    | ok value =>
      cases ht
      obtain ⟨raw, rfl⟩ := (Quoted.taken_of_body hb).closed
      have hstable := (Quoted.taken_of_body hb).stable []
      rw [List.append_nil] at hstable
      refine ⟨?_, ?_⟩
      · simpa [TokenKind.Spelt] using hstable
      · simp [TokenKind.text, TokenKind.quoted]

theorem taken_of_commentBody {cs taken text : List Char} (h : commentBody cs = ⟨taken, .ok text⟩) :
    taken = text ++ ['*', '/'] := by
  fun_induction commentBody cs generalizing taken text with
  | case1 cs =>
    cases h
    rfl
  | case2 c cs _ ih =>
    obtain ⟨t, u, hbody, rfl, rfl⟩ := Scan.emit_eq_ok.1 h
    rw [ih hbody]
    rfl
  | case3 => cases h

/-- **A token stands for the characters that were taken for it**, and it is spelt, apart from line
ends, comments and the end of file. -/
theorem source_of_scanToken {cs taken : List Char} {k : TokenKind}
    (h : scanToken cs = ⟨taken, .ok k⟩) :
    taken = k.source ∧ (k.trivia? = none → k ≠ .endOfFile → k.Spelt) := by
  have hscans := scansAs_scanToken cs
  rw [h] at hscans
  generalize hs : (⟨taken, .ok k⟩ : Scan TokenKind) = s at hscans
  cases hscans with
  | endOfFile =>
    cases hs
    exact ⟨rfl, fun _ he => absurd rfl he⟩
  | newline =>
    cases hs
    exact ⟨rfl, fun ht => nomatch ht⟩
  | lineComment =>
    cases hs
    exact ⟨by simp [TokenKind.source], fun ht => nomatch ht⟩
  | blockComment =>
    obtain ⟨t, hmap, rfl⟩ := Scan.after_eq_ok.1 hs.symm
    obtain ⟨text, hbody, rfl⟩ := Scan.map_eq_ok.1 hmap
    exact ⟨by simp [TokenKind.source, taken_of_commentBody hbody], fun ht => nomatch ht⟩
  | word hname =>
    cases hs
    obtain ⟨hspelt, htext⟩ := spelt_ofWord (isName_takeWhile hname)
    exact ⟨by rw [TokenKind.source_of_spelt hspelt, htext, String.toList_ofList], fun _ _ => hspelt⟩
  | number hstarts =>
    obtain ⟨raw, hscan, rfl⟩ := Scan.map_eq_ok.1 hs.symm
    obtain ⟨hnumeral, rfl⟩ := Number.isNumeral_of_scan hstarts hscan
    exact ⟨by simp [TokenKind.source, TokenKind.text],
      fun _ _ => by simpa [TokenKind.Spelt] using hnumeral⟩
  | string =>
    obtain ⟨hspelt, htext⟩ := spelt_of_scanString hs.symm
    exact ⟨by rw [TokenKind.source_of_spelt hspelt, htext], fun _ _ => hspelt⟩
  | symbol =>
    obtain ⟨symbol, -, rfl, rfl⟩ := scanSymbol_eq_ok.1 hs.symm
    exact ⟨by simp [TokenKind.source, TokenKind.text, Symbol.text], fun _ _ => trivial⟩

/-- **What the scanner returns is spelt**: a token stands for its spelling, and the characters taken
are that spelling. Line ends, comments and the end of file are left out. -/
theorem spelt_of_scanToken {cs taken : List Char} {k : TokenKind}
    (h : scanToken cs = ⟨taken, .ok k⟩) (ht : k.trivia? = none) (he : k ≠ .endOfFile) :
    k.Spelt ∧ taken = k.text.toList := by
  obtain ⟨htaken, hspelt⟩ := source_of_scanToken h
  exact ⟨hspelt ht he, htaken.trans (TokenKind.source_of_spelt (hspelt ht he))⟩

/-! ## Streams of tokens -/

/-- The code points of blanks. -/
def blankCodes : List Nat :=
  [0x9, 0xa, 0xb, 0xc, 0xd, 0x20, 0x85, 0xa0, 0x1680, 0x2000, 0x2001, 0x2002, 0x2003, 0x2004,
    0x2005, 0x2006, 0x2007, 0x2008, 0x2009, 0x200a, 0x2028, 0x2029, 0x202f, 0x205f, 0x3000]

theorem mem_blankCodes {c : Char} (h : isBlank c = true) : c.toNat ∈ blankCodes := by
  simp only [isBlank, inRanges, blankRanges, List.any_cons, List.any_nil, Bool.or_false,
    Bool.or_eq_true, Bool.and_eq_true, decide_eq_true_eq] at h
  simp only [blankCodes, List.mem_cons, List.not_mem_nil, or_false]
  omega

/-- A blank starts no token. -/
theorem not_starts_of_isBlank {c : Char} (h : isBlank c = true) :
    (isNameStart c || c.isDigit || c == '.' || c == '\'' || c == '"') = false := by
  have hall : ∀ n ∈ blankCodes, (fun c : Char =>
      isNameStart c || c.isDigit || c == '.' || c == '\'' || c == '"') (Char.ofNat n) = false := by
    decide +kernel
  have := hall _ (mem_blankCodes h)
  rwa [Char.ofNat_toNat] at this

theorem Symbol.not_isBlank (s : Symbol) : ∀ c ∈ s.chars.head?, isBlank c = false := by
  cases s <;> (rintro c ⟨⟩; rfl)

theorem not_isBlank_of_starts {c : Char}
    (h : (isNameStart c || c.isDigit || c == '.' || c == '\'' || c == '"') = true) :
    isBlank c = false := by
  cases hb : isBlank c with
  | false => rfl
  | true =>
    rw [not_starts_of_isBlank hb] at h
    cases h

theorem exists_of_isName {name : String} (h : isName name = true) :
    ∃ c cs, name.toList = c :: cs ∧ isBlank c = false := by
  unfold isName at h
  split at h
  · cases h
  · rename_i c cs hcs
    simp only [Bool.and_eq_true] at h
    exact ⟨c, cs, hcs, not_isBlank_of_starts (by simp [h.1])⟩

/-- A spelling starts with a character that is no blank. -/
theorem exists_text_of_spelt {k : TokenKind} (hk : k.Spelt) :
    ∃ c cs, k.text.toList = c :: cs ∧ isBlank c = false := by
  cases k with
  | number raw =>
    have hs := Number.IsNumeral.starts hk []
    rw [List.append_nil] at hs
    show ∃ c cs, raw.toList = c :: cs ∧ isBlank c = false
    cases hraw : raw.toList with
    | nil => rw [hraw] at hs; cases hs
    | cons c cs =>
      rw [hraw] at hs
      refine ⟨c, cs, rfl, not_isBlank_of_starts ?_⟩
      simp only [Number.starts, Bool.or_eq_true, Bool.and_eq_true] at hs
      rcases hs with hs | hs
      · simp [hs]
      · simp [hs.1]
  | string value quote raw =>
    refine ⟨quote.mark, raw.toList ++ [quote.mark], by simp [TokenKind.text, TokenKind.quoted], ?_⟩
    cases quote <;> decide
  | identifier name => exact exists_of_isName hk.1
  | keyword w => exact exists_of_isName (isName_keyword w)
  | symbol s =>
    obtain ⟨c, cs, hcs, -⟩ := s.exists_chars
    refine ⟨c, cs, by simp [TokenKind.text, Symbol.text, hcs], ?_⟩
    exact s.not_isBlank c (by rw [hcs]; rfl)
  | newline => cases hk
  | lineComment text => cases hk
  | blockComment text => cases hk
  | endOfFile => cases hk

namespace Cursor

theorem skipBlanks_gap {c : Char} (hc : isGap c = true) (cs : List Char) (l : Location) :
    skipBlanks ⟨c :: cs, l⟩ = skipBlanks ⟨cs, l.advance c⟩ := by
  simp [skipBlanks, past, hc, Location.advanceOver]

theorem skipBlanks_of_stops {cs : List Char} (h : Stops isGap cs) (l : Location) :
    skipBlanks ⟨cs, l⟩ = ⟨cs, l⟩ := by
  have : cs.takeWhile isGap = [] := by
    cases cs with
    | nil => rfl
    | cons c cs => rw [List.takeWhile_cons, stops_cons.1 h]; rfl
  simp [skipBlanks, past, this, Location.advanceOver]

/-- A step that finds a token. -/
theorem next_of_done {c : Cursor} {taken : List Char} {k : TokenKind}
    (h : scanToken c.skipBlanks.rest = .done taken k) :
    c.next = (.ok ⟨k, ⟨c.skipBlanks.location, (c.skipBlanks.past taken).location⟩, false⟩,
      c.skipBlanks.past taken) := by
  unfold next
  simp only [h, Scan.done]

/-- A step that finds a fault. -/
theorem next_of_stop {c : Cursor} {taken : List Char} {fault : LexFault}
    (h : scanToken c.skipBlanks.rest = .stop taken fault) :
    c.next = (.error ⟨fault, c.skipBlanks.location⟩, c.skipBlanks.past taken) := by
  unfold next
  simp only [h, Scan.stop]

/-- What one step does at a place where a token starts. -/
theorem next_of_scanToken {cs rest taken : List Char} {k : TokenKind}
    (h : Stops isGap (taken ++ rest)) (hcs : cs = taken ++ rest)
    (hs : scanToken cs = .done taken k) (l : Location) :
    next ⟨cs, l⟩ = (.ok ⟨k, ⟨l, l.advanceOver taken⟩, false⟩, ⟨rest, l.advanceOver taken⟩) := by
  subst hcs
  have hhere := skipBlanks_of_stops h l
  rw [next_of_done (by rw [hhere]; exact hs), hhere]
  simp only [past, List.drop_left]

/-- A token comes from a scan at the place behind the blanks. -/
theorem scanToken_of_next {c c' : Cursor} {t : Token} (h : c.next = (.ok t, c')) :
    ∃ taken, scanToken c.skipBlanks.rest = ⟨taken, .ok t.kind⟩ := by
  unfold next at h
  simp only at h
  cases hs : scanToken c.skipBlanks.rest with
  | mk taken o =>
    rw [hs] at h
    cases o with
    | error e => cases h
    | ok k =>
      cases h
      exact ⟨taken, rfl⟩

/-- A place where nothing is left is the end of file. -/
theorem tokens_nil (steps : Nat) (l : Location) :
    tokens (steps + 1) ⟨[], l⟩ = .ok [⟨.endOfFile, .point l, false⟩] := by
  rw [tokens, @next_of_scanToken [] [] [] .endOfFile (stops_nil _) rfl rfl l]
  rfl

end Cursor

/-- The tokens of a text, by their kinds. -/
def Lexes (cs : List Char) (ks : List TokenKind) : Prop :=
  ∀ (l : Location) (steps : Nat), cs.length < steps →
    ∃ ts, Cursor.tokens steps ⟨cs, l⟩ = .ok ts ∧ ts.map (·.kind) = ks

theorem lexes_nil : Lexes [] [.endOfFile] := by
  intro l steps hsteps
  obtain ⟨n, rfl⟩ : ∃ n, steps = n + 1 := ⟨steps - 1, by omega⟩
  exact ⟨_, Cursor.tokens_nil n l, rfl⟩

theorem lexes_gap {c : Char} {cs : List Char} {ks : List TokenKind} (hc : Cursor.isGap c = true)
    (h : Lexes cs ks) : Lexes (c :: cs) ks := by
  intro l steps hsteps
  obtain ⟨n, rfl⟩ : ∃ n, steps = n + 1 := ⟨steps - 1, by omega⟩
  obtain ⟨ts, hts, hks⟩ := h (l.advance c) (n + 1) (by simp at hsteps; omega)
  refine ⟨ts, ?_, hks⟩
  rw [← hts]
  unfold Cursor.tokens Cursor.next
  rw [Cursor.skipBlanks_gap hc]

/-- A token in front of a text whose tokens are known. -/
theorem lexes_cons {k : TokenKind} {taken cs : List Char} {ks : List TokenKind} (hne : taken ≠ [])
    (hk : k ≠ .endOfFile) (hb : Stops Cursor.isGap taken)
    (hs : scanToken (taken ++ cs) = .done taken k) (h : Lexes cs ks) :
    Lexes (taken ++ cs) (k :: ks) := by
  intro l steps hsteps
  have hlen : 0 < taken.length := List.length_pos_iff.2 hne
  rw [List.length_append] at hsteps
  obtain ⟨n, rfl⟩ : ∃ n, steps = n + 1 := ⟨steps - 1, by omega⟩
  obtain ⟨ts, hts, hks⟩ := h (l.advanceOver taken) n (by omega)
  have hb' : Stops Cursor.isGap (taken ++ cs) := by
    cases taken with
    | nil => exact absurd rfl hne
    | cons c t => exact stops_cons.2 (stops_cons.1 hb)
  refine ⟨⟨k, ⟨l, l.advanceOver taken⟩, false⟩ :: ts, ?_, by rw [List.map_cons, hks]⟩
  rw [Cursor.tokens, Cursor.next_of_scanToken hb' rfl hs]
  simp only
  rw [if_neg hk, hts]
  rfl

theorem lexes_newline {cs : List Char} {ks : List TokenKind} (h : Lexes cs ks) :
    Lexes ('\n' :: cs) (.newline :: ks) :=
  @lexes_cons .newline ['\n'] _ _ (by simp) (by decide) (stops_cons.2 (by decide))
    (by simp [scanToken]) h

theorem lexes_token {k : TokenKind} {cs : List Char} {ks : List TokenKind} (hk : k.Spelt)
    (hr : Stops k.runsInto cs) (h : Lexes cs ks) : Lexes (k.text.toList ++ cs) (k :: ks) := by
  obtain ⟨c, t, ht, hb⟩ := exists_text_of_spelt hk
  refine lexes_cons (by rw [ht]; simp) ?_ ?_ (scanToken_spelt hk hr) h
  · rintro rfl
    cases hk
  · rw [ht]
    exact stops_cons.2 (by simp [Cursor.isGap, hb])

/-- The kinds of the tokens of a source text. -/
theorem tokenize_of_lexes {source : String} {ks : List TokenKind} (h : Lexes source.toList ks)
    (file : String) : ∃ ts, tokenize source file = .ok ts ∧ ts.map (·.kind) = ks :=
  h (.start file) _ (Nat.lt_succ_self _)

/-- **A token is read from its own text**, and nothing else is. -/
theorem tokenize_spelt {k : TokenKind} (hk : k.Spelt) (file : String) :
    tokenize k.text file =
      .ok [⟨k, ⟨.start file, (Location.start file).advanceOver k.text.toList⟩, false⟩,
        ⟨.endOfFile, .point ((Location.start file).advanceOver k.text.toList), false⟩] := by
  obtain ⟨c, cs, htext, hblank⟩ := exists_text_of_spelt hk
  have hend : k ≠ .endOfFile := by
    rintro rfl
    cases hk
  have hstops : Stops Cursor.isGap (k.text.toList ++ []) := by
    rw [List.append_nil, htext]
    exact stops_cons.2 (by simp [Cursor.isGap, hblank])
  have hscan : scanToken k.text.toList = .done k.text.toList k := by
    have hspelt := scanToken_spelt hk (stops_nil k.runsInto)
    rwa [List.append_nil] at hspelt
  have hnext := Cursor.next_of_scanToken hstops (List.append_nil _).symm hscan (.start file)
  have hlength : k.text.toList.length = cs.length + 1 := by rw [htext, List.length_cons]
  unfold tokenize Cursor.start
  rw [Cursor.tokens, hnext]
  simp only
  rw [if_neg hend, hlength, Cursor.tokens_nil]
  rfl

/-- Every token of a text is spelt, apart from line ends, comments and the end of file. -/
theorem spelt_of_tokens : ∀ {steps : Nat} {c : Cursor} {ts : List Token},
    c.tokens steps = .ok ts →
      ∀ t ∈ ts, t.kind.trivia? = none → t.kind ≠ .endOfFile → t.kind.Spelt
  | 0, c, ts, h, t, ht => by
    cases h
    cases ht
  | steps + 1, c, ts, h, t, ht => by
    intro htrivia hend
    rw [Cursor.tokens] at h
    split at h
    · cases h
    · rename_i t' c' hnext
      obtain ⟨taken, hscan⟩ := Cursor.scanToken_of_next hnext
      split at h
      · rename_i heof
        cases h
        rw [List.mem_singleton] at ht
        rw [ht] at hend
        exact absurd heof hend
      · cases hrest : Cursor.tokens steps c' with
        | error e => rw [hrest] at h; cases h
        | ok ts' =>
          rw [hrest] at h
          cases h
          rcases List.mem_cons.1 ht with rfl | ht
          · exact (spelt_of_scanToken hscan htrivia hend).1
          · exact spelt_of_tokens hrest t ht htrivia hend

end DecimalLift
