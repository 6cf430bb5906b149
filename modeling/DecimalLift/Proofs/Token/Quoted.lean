import DecimalLift.Token.Quoted

/-!
# The spelling of strings

* `Quoted.Reading` — a literal was read step by step up to its closing quote;
  `Quoted.reading_of_body` — every successful reading is of this kind.
* `Quoted.Taken` — what follows for the characters taken. They end with the closing quote and are
  read the same way in front of any other text, so a string token can be moved into a new context.
* `Quoted.body_escape` — the escaped spelling of a value is read as that value, in both kinds of
  quotes and for every sequence of characters.
-/

set_option autoImplicit false

namespace DecimalLift

open DecimalLift.Text

namespace Scan

variable {α : Type}

theorem after_eq_ok {cs taken : List Char} {s : Scan α} {v : α} :
    s.after cs = ⟨taken, .ok v⟩ ↔ ∃ t, s = ⟨t, .ok v⟩ ∧ taken = cs ++ t := by
  cases s
  constructor
  · intro h
    cases h
    exact ⟨_, rfl, rfl⟩
  · rintro ⟨t, h, rfl⟩
    cases h
    rfl

theorem emit_eq_ok {cs w taken v : List Char} {s : Scan (List Char)} :
    s.emit cs w = ⟨taken, .ok v⟩ ↔ ∃ t u, s = ⟨t, .ok u⟩ ∧ taken = cs ++ t ∧ v = w ++ u := by
  obtain ⟨t, o⟩ := s
  cases o with
  | error e =>
    constructor
    · intro h
      cases h
    · rintro ⟨_, _, h, _⟩
      cases h
  | ok u =>
    constructor
    · intro h
      cases h
      exact ⟨_, _, rfl, rfl, rfl⟩
    · rintro ⟨_, _, h, rfl, rfl⟩
      cases h
      rfl

theorem map_eq_ok {β : Type} {f : α → β} {taken : List Char} {s : Scan α} {v : β} :
    s.map f = ⟨taken, .ok v⟩ ↔ ∃ u, s = ⟨taken, .ok u⟩ ∧ v = f u := by
  obtain ⟨t, o⟩ := s
  cases o with
  | error e =>
    constructor
    · intro h
      cases h
    · rintro ⟨u, h, -⟩
      cases h
  | ok u =>
    constructor
    · intro h
      cases h
      exact ⟨u, rfl, rfl⟩
    · rintro ⟨u', h, rfl⟩
      cases h
      rfl

theorem after_emit (a b w : List Char) (s : Scan (List Char)) :
    (s.emit a w).after b = s.emit (b ++ a) w := by
  simp [emit, after]

theorem emit_nil (s : Scan (List Char)) : s.emit [] [] = s := by
  obtain ⟨t, o⟩ := s
  cases o <;> rfl

theorem emit_emit (a b v w : List Char) (s : Scan (List Char)) :
    (s.emit b w).emit a v = s.emit (a ++ b) (v ++ w) := by
  obtain ⟨t, o⟩ := s
  cases o <;> simp [emit, Except.map]

theorem after_eq_emit (a : List Char) (s : Scan (List Char)) : s.after a = s.emit a [] := by
  obtain ⟨t, o⟩ := s
  cases o <;> rfl

end Scan

namespace Quoted

/-! ## The steps of a reader -/

/-- Two texts start alike, as far as an escape in front of them looks. -/
structure Alike (cs cs' : List Char) : Prop where
  digit : cs.head?.any Char.isDigit = cs'.head?.any Char.isDigit
  lineFeed : cs.head? = some '\n' ↔ cs'.head? = some '\n'

theorem Alike.of_head? {cs cs' : List Char} (h : cs.head? = cs'.head?) : Alike cs cs' :=
  ⟨by rw [h], by rw [h]⟩

/-- A single escaped character is not the first half of a line end. -/
theorem Alike.not_lineEnd {c : Char} {cs cs' : List Char} (h : Alike cs cs')
    (hline : ∀ ds, c = '\r' → cs = '\n' :: ds → False) :
    ∀ ds, c = '\r' → cs' = '\n' :: ds → False := by
  rintro ds hc rfl
  have hhead : cs.head? = some '\n' := h.lineFeed.2 rfl
  cases cs with
  | nil => cases hhead
  | cons d cs =>
    cases hhead
    exact hline cs hc rfl

/-- A literal was read from the front of a text up to its closing quote. Each step takes a chunk
that stands for `w` and goes on in another mode, and it does so in front of all texts that start
alike. -/
inductive Reading (q : Char) : Mode → List Char → List Char → List Char → Prop
  | close (rest : List Char) : Reading q .plain (q :: rest) [q] []
  | step {m m' : Mode} {full cs t u chunk w : List Char} (h : Reading q m' cs t u)
      (hfull : full = chunk ++ cs)
      (hstep : ∀ cs', Alike cs cs' → body q m (chunk ++ cs') = (body q m' cs').emit chunk w) :
      Reading q m full (chunk ++ t) (w ++ u)

/-- A step that contributes nothing to the value. -/
theorem Reading.silent {q : Char} {m m' : Mode} {full cs t u chunk : List Char}
    (h : Reading q m' cs t u) (hfull : full = chunk ++ cs)
    (hstep : ∀ cs', body q m (chunk ++ cs') = (body q m' cs').after chunk) :
    Reading q m full (chunk ++ t) u :=
  .step (w := []) h hfull fun cs' _ => (hstep cs').trans (Scan.after_eq_emit chunk _)

theorem reading_of_body {q : Char} {m : Mode} {cs taken v : List Char}
    (h : body q m cs = ⟨taken, .ok v⟩) : Reading q m cs taken v := by
  fun_induction body q m cs generalizing taken v with
  | case1 m => cases h
  | case2 cs =>
    cases h
    exact .close cs
  | case3 cs hq ih =>
    obtain ⟨t, ht, rfl⟩ := Scan.after_eq_ok.1 h
    refine (ih ht).silent rfl fun cs' => ?_
    rw [List.singleton_append, body, if_neg hq, if_pos rfl]
  | case4 c cs _ _ _ => cases h
  | case5 c cs hq hb hn ih =>
    obtain ⟨t, u, ht, rfl, rfl⟩ := Scan.emit_eq_ok.1 h
    refine (ih ht).step rfl fun cs' _ => ?_
    rw [List.singleton_append, body, if_neg hq, if_neg hb, if_neg hn]
  | case6 cs ih =>
    obtain ⟨t, ht, rfl⟩ := Scan.after_eq_ok.1 h
    refine (ih ht).silent rfl fun cs' => ?_
    rw [List.cons_append, List.singleton_append, body]
  | case7 cs _ ih =>
    obtain ⟨t, ht, rfl⟩ := Scan.after_eq_ok.1 h
    refine (ih ht).silent rfl fun cs' => ?_
    rw [List.singleton_append, body, if_pos rfl]
    exact fun _ hc => absurd hc (by decide)
  | case8 cs _ hx ih =>
    obtain ⟨t, ht, rfl⟩ := Scan.after_eq_ok.1 h
    refine (ih ht).silent rfl fun cs' => ?_
    rw [List.singleton_append, body, if_neg hx, if_pos rfl]
    exact fun _ hc => absurd hc (by decide)
  | case9 c cs hline hx hu hz ih =>
    obtain ⟨t, u, ht, rfl, rfl⟩ := Scan.emit_eq_ok.1 h
    refine (ih ht).step rfl fun cs' halike => ?_
    rw [halike.digit] at hz
    rw [List.singleton_append, body, if_neg hx, if_neg hu, if_pos hz]
    exact halike.not_lineEnd hline
  | case10 c cs hline hx hu hz ih =>
    obtain ⟨t, u, ht, rfl, rfl⟩ := Scan.emit_eq_ok.1 h
    refine (ih ht).step rfl fun cs' halike => ?_
    rw [halike.digit] at hz
    rw [List.singleton_append, body, if_neg hx, if_neg hu, if_neg hz]
    exact halike.not_lineEnd hline
  | case11 left code c cs hv => cases h
  | case12 left code c cs d hv hl ih =>
    obtain ⟨t, u, ht, rfl, rfl⟩ := Scan.emit_eq_ok.1 h
    refine (ih ht).step rfl fun cs' _ => ?_
    rw [List.singleton_append, body]
    simp only [hv, if_pos hl]
  | case13 left code c cs d hv hl ih =>
    obtain ⟨t, ht, rfl⟩ := Scan.after_eq_ok.1 h
    refine (ih ht).silent rfl fun cs' => ?_
    rw [List.singleton_append, body]
    simp only [hv, if_neg hl]
  | case14 cs ih =>
    obtain ⟨t, ht, rfl⟩ := Scan.after_eq_ok.1 h
    refine (ih ht).silent rfl fun cs' => ?_
    rw [List.singleton_append, body, if_pos rfl]
  | case15 c cs hc hv => cases h
  | case16 c cs hc d hv ih =>
    obtain ⟨t, ht, rfl⟩ := Scan.after_eq_ok.1 h
    refine (ih ht).silent rfl fun cs' => ?_
    rw [List.singleton_append, body, if_neg hc]
    simp only [hv]
  | case17 seen code c cs d hv ih =>
    obtain ⟨t, ht, rfl⟩ := Scan.after_eq_ok.1 h
    refine (ih ht).silent rfl fun cs' => ?_
    rw [List.singleton_append, body]
    simp only [hv]
  | case18 seen code c cs hv hclose ih =>
    obtain ⟨t, u, ht, rfl, rfl⟩ := Scan.emit_eq_ok.1 h
    refine (ih ht).step rfl fun cs' _ => ?_
    rw [List.singleton_append, body]
    simp only [hv, if_pos hclose]
  | case19 seen code c cs hv hclose => cases h

/-! ## What a reader has taken -/

/-- The first characters of two texts with a common start agree. -/
theorem head?_append_of_ne_nil {t : List Char} (ht : t ≠ []) (r r' : List Char) :
    (t ++ r).head? = (t ++ r').head? := by
  cases t with
  | nil => exact absurd rfl ht
  | cons c t => rfl

/-- A literal was read from the front of a text: what was taken ends with the closing quote, and is
read the same way in front of any other text. -/
structure Taken (q : Char) (m : Mode) (cs taken v : List Char) : Prop where
  closed : ∃ raw, taken = raw ++ [q]
  front : ∃ rest, cs = taken ++ rest
  stable : ∀ rest, body q m (taken ++ rest) = ⟨taken, .ok v⟩

theorem Taken.ne_nil {q : Char} {m : Mode} {cs taken v : List Char} (h : Taken q m cs taken v) :
    taken ≠ [] := by
  obtain ⟨raw, rfl⟩ := h.closed
  simp

theorem Reading.taken {q : Char} {m : Mode} {cs taken v : List Char}
    (h : Reading q m cs taken v) : Taken q m cs taken v := by
  induction h with
  | close rest => exact ⟨⟨[], rfl⟩, ⟨rest, rfl⟩, fun rest => by simp [body, Scan.done]⟩
  | @step m m' full cs t u chunk w _ hfull hstep ih =>
    obtain ⟨raw, hraw⟩ := ih.closed
    obtain ⟨after, hafter⟩ := ih.front
    refine ⟨⟨chunk ++ raw, ?_⟩, ⟨after, ?_⟩, fun rest => ?_⟩
    · rw [hraw, List.append_assoc]
    · rw [hfull, hafter, List.append_assoc]
    · -- what follows the chunk is taken too, so that nothing is asked of `rest`
      have halike : Alike cs (t ++ rest) := by
        rw [hafter]
        exact .of_head? (head?_append_of_ne_nil ih.ne_nil after rest)
      rw [List.append_assoc, hstep _ halike, ih.stable]
      rfl

theorem taken_of_body {q : Char} {m : Mode} {cs taken v : List Char}
    (h : body q m cs = ⟨taken, .ok v⟩) : Taken q m cs taken v :=
  (reading_of_body h).taken

/-! ## Escaping and reading back -/

theorem hexValue?_hexDigit : ∀ d < 16, hexValue? (hexDigit d) = some d := by decide

theorem ofCodePoint_toNat (c : Char) : ofCodePoint c.toNat = c := by
  unfold ofCodePoint
  rw [if_pos (show c.toNat.isValidChar from c.valid), Char.ofNat_toNat]

/-- A backslash and one further character. -/
theorem body_simpleEscape {q c : Char} (hq : '\\' ≠ q) (hc : c ∉ ['\r', 'x', 'u', '0'])
    (cs : List Char) :
    body q .plain ('\\' :: c :: cs) = (body q .plain cs).emit ['\\', c] (simpleEscape c) := by
  simp only [List.mem_cons, List.not_mem_nil, or_false, not_or] at hc
  obtain ⟨hr, hx, hu, hz⟩ := hc
  rw [body, if_neg hq, if_pos rfl, body, if_neg hx, if_neg hu, if_neg (fun h => hz h.1),
    Scan.after_emit]
  · rfl
  · exact fun _ h => absurd h hr

/-- Two hexadecimal digits complete an escape of two. -/
theorem body_hexByte {q : Char} {n : Nat} (hn : n < 256) (cs : List Char) :
    body q (.hex 2 0) (hexByte n ++ cs) = (body q .plain cs).emit (hexByte n) [ofCodePoint n] := by
  have h1 := hexValue?_hexDigit (n / 16) (by omega)
  have h2 := hexValue?_hexDigit (n % 16) (by omega)
  have hsum : (0 * 16 + n / 16) * 16 + n % 16 = n := by omega
  simp only [hexByte, List.cons_append, List.nil_append]
  rw [body]
  simp only [h1]
  rw [if_neg (by omega), body]
  simp only [h2]
  rw [if_pos (by omega), hsum, Scan.after_emit]
  rfl

theorem body_hexEscape {q c : Char} (hq : '\\' ≠ q) (hc : c.toNat < 256) (cs : List Char) :
    body q .plain ('\\' :: 'x' :: (hexByte c.toNat ++ cs)) =
      (body q .plain cs).emit ('\\' :: 'x' :: hexByte c.toNat) [c] := by
  rw [body, if_neg hq, if_pos rfl, body, if_pos rfl, body_hexByte hc, Scan.after_emit,
    Scan.after_emit, ofCodePoint_toNat]
  · rfl
  · exact fun _ h => absurd h (by decide)

theorem body_lineSeparator {q c : Char} (hq : '\\' ≠ q)
    (hc : c = Char.ofNat 0x2028 ∨ c = Char.ofNat 0x2029) (cs : List Char) :
    body q .plain ('\\' :: 'u' :: (hexByte (c.toNat / 256) ++ hexByte (c.toNat % 256)) ++ cs) =
      (body q .plain cs).emit
        ('\\' :: 'u' :: (hexByte (c.toNat / 256) ++ hexByte (c.toNat % 256))) [c] := by
  have hspelt : ∃ d, hexByte (c.toNat / 256) ++ hexByte (c.toNat % 256) = ['2', '0', '2', d] ∧
      ∃ v, hexValue? d = some v ∧ ofCodePoint (((2 * 16 + 0) * 16 + 2) * 16 + v) = c := by
    rcases hc with rfl | rfl
    · exact ⟨'8', by decide, 8, by decide, by decide⟩
    · exact ⟨'9', by decide, 9, by decide, by decide⟩
  obtain ⟨d, hd, v, hv, hcode⟩ := hspelt
  have h2 : hexValue? '2' = some 2 := by decide
  have h0 : hexValue? '0' = some 0 := by decide
  rw [hd]
  simp only [List.cons_append, List.nil_append]
  rw [body, if_neg hq, if_pos rfl, body, if_neg (by decide), if_pos rfl, body,
    if_neg (by decide)]
  · simp only [h2]
    rw [body]
    simp only [h0]
    rw [if_neg (by omega), body]
    simp only [h2]
    rw [if_neg (by omega), body]
    simp only [hv]
    rw [if_pos (by omega), hcode]
    simp only [Scan.after_emit, List.cons_append, List.nil_append]
  · exact fun _ h => absurd h (by decide)

theorem body_escapeChar (quote : Quote) (c : Char) (cs : List Char) :
    body quote.mark .plain (escapeChar quote.mark c ++ cs) =
      (body quote.mark .plain cs).emit (escapeChar quote.mark c) [c] := by
  have hq : '\\' ≠ quote.mark := by cases quote <;> decide
  unfold escapeChar
  split
  · subst_vars
    exact body_simpleEscape hq (by decide) cs
  split
  · subst_vars
    exact body_simpleEscape hq (by decide) cs
  split
  · subst_vars
    exact body_simpleEscape hq (by decide) cs
  split
  · subst_vars
    exact body_simpleEscape hq (by decide) cs
  split
  · subst_vars
    exact body_simpleEscape hq (by decide) cs
  split
  · subst_vars
    exact body_simpleEscape hq (by decide) cs
  split
  · subst_vars
    exact body_simpleEscape hq (by decide) cs
  split
  · rename_i hsep
    exact body_lineSeparator hq hsep cs
  split
  · rename_i hctl
    have hlt : c.toNat < 256 := by
      simp only [isControl, Bool.or_eq_true, Bool.and_eq_true, decide_eq_true_eq] at hctl
      omega
    exact body_hexEscape hq hlt cs
  split
  · subst_vars
    have hs : simpleEscape quote.mark = [quote.mark] := by cases quote <;> decide
    rw [List.cons_append, List.singleton_append,
      body_simpleEscape hq (by cases quote <;> decide) cs, hs]
  · rename_i hb hn hr _ _ _ _ _ _ hne
    rw [List.singleton_append, body, if_neg hne, if_neg hb, if_neg (by simp [hn, hr])]

/-- **Escaping and reading are inverse**: the spelling of a value is read as that value. -/
theorem body_escape (quote : Quote) (value rest : List Char) :
    body quote.mark .plain (value.flatMap (escapeChar quote.mark) ++ quote.mark :: rest) =
      ⟨value.flatMap (escapeChar quote.mark) ++ [quote.mark], .ok value⟩ := by
  induction value with
  | nil =>
    rw [List.flatMap_nil, List.nil_append, body, if_pos rfl]
    rfl
  | cons c value ih =>
    rw [List.flatMap_cons, List.append_assoc, body_escapeChar, ih]
    simp [Scan.emit, Except.map]

end Quoted

end DecimalLift
