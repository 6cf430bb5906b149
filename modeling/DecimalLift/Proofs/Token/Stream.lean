import DecimalLift.Proofs.Token.Lexeme

/-!
# The end of a stream of tokens

* `taken_ne_nil` — every token but the end of file takes a character.
* `nil_of_scanToken` — the end of file is found where nothing is left.
* `Cursor.length_of_next` — so what is left of a text gets shorter with every other token.
* `exists_of_tokenize` — the tokens of a text end with the end of file, which stands nowhere else
  among them.
-/

set_option autoImplicit false

namespace DecimalLift

open DecimalLift.Text

/-- **Every token but the end of file takes a character.** -/
theorem taken_ne_nil {cs taken : List Char} {k : TokenKind} (h : scanToken cs = ⟨taken, .ok k⟩)
    (he : k ≠ .endOfFile) : taken ≠ [] := by
  obtain ⟨rfl, hspelt⟩ := source_of_scanToken h
  cases k with
  | newline | lineComment | blockComment => exact List.cons_ne_nil _ _
  | endOfFile => exact absurd rfl he
  | _ =>
    obtain ⟨c, cs, hc, -⟩ := exists_text_of_spelt (hspelt rfl he)
    exact List.ne_nil_of_mem (hc ▸ List.mem_cons_self)

/-- The end of file is found where nothing is left. -/
theorem nil_of_scanToken {cs taken : List Char} (h : scanToken cs = ⟨taken, .ok .endOfFile⟩) :
    cs = [] := by
  have hscans := scansAs_scanToken cs
  rw [h] at hscans
  generalize hs : (⟨taken, .ok .endOfFile⟩ : Scan TokenKind) = s at hscans
  cases hscans with
  | endOfFile => rfl
  | newline | lineComment => cases hs
  | @word c cs hname =>
    have hspelt := (spelt_ofWord (@isName_takeWhile c cs hname)).1
    rw [← Except.ok.inj (congrArg Scan.outcome hs)] at hspelt
    cases hspelt
  | number =>
    obtain ⟨raw, -, heq⟩ := Scan.map_eq_ok.1 hs.symm
    cases heq
  | string => exact (spelt_of_scanString hs.symm).1.elim
  | blockComment =>
    obtain ⟨t, hmap, -⟩ := Scan.after_eq_ok.1 hs.symm
    obtain ⟨text, -, heq⟩ := Scan.map_eq_ok.1 hmap
    cases heq
  | symbol =>
    obtain ⟨symbol, -, -, heq⟩ := scanSymbol_eq_ok.1 hs.symm
    cases heq

namespace Cursor

theorem length_skipBlanks (c : Cursor) : c.skipBlanks.rest.length ≤ c.rest.length := by
  unfold skipBlanks past
  rw [List.length_drop]
  exact Nat.sub_le _ _

/-- What is left of a text gets shorter with every token but the end of file. -/
theorem length_of_next {c c' : Cursor} {t : Token} (h : c.next = (.ok t, c'))
    (he : t.kind ≠ .endOfFile) : c'.rest.length < c.rest.length := by
  obtain ⟨taken, hscan⟩ := scanToken_of_next h
  have hc' : c' = c.skipBlanks.past taken := by
    unfold next at h
    simp only [hscan] at h
    exact (Prod.mk.inj h).2.symm
  have hrest : c.skipBlanks.rest ≠ [] := by
    intro hnil
    rw [hnil] at hscan
    exact he (Except.ok.inj (congrArg Scan.outcome hscan)).symm
  have htaken : 0 < taken.length := List.length_pos_iff.2 (taken_ne_nil hscan he)
  have hpos : 0 < c.skipBlanks.rest.length := List.length_pos_iff.2 hrest
  have hle := c.length_skipBlanks
  rw [hc', past, List.length_drop]
  omega

/-- With a step for every character and one more, the tokens end with the end of file. -/
theorem exists_of_tokens : ∀ {steps : Nat} {c : Cursor} {ts : List Token},
    c.tokens steps = .ok ts → c.rest.length < steps →
      ∃ ks, ts.map (·.kind) = ks ++ [.endOfFile] ∧ .endOfFile ∉ ks
  | 0, _, _, _, hsteps => absurd hsteps (Nat.not_lt_zero _)
  | steps + 1, c, ts, h, hsteps => by
    rw [tokens] at h
    split at h
    · cases h
    · rename_i t c' hnext
      split at h
      · rename_i heof
        cases h
        exact ⟨[], by rw [List.map_singleton, heof]; rfl, List.not_mem_nil⟩
      · rename_i heof
        cases hrest : tokens steps c' with
        | error e =>
          rw [hrest] at h
          cases h
        | ok ts' =>
          rw [hrest] at h
          cases h
          have hlength := length_of_next hnext heof
          obtain ⟨ks, hks, hmem⟩ := exists_of_tokens hrest (by omega)
          refine ⟨t.kind :: ks, by rw [List.map_cons, hks, List.cons_append], ?_⟩
          rw [List.mem_cons, not_or]
          exact ⟨Ne.symm heof, hmem⟩

end Cursor

/-- **The tokens of a text end with the end of file**, which stands nowhere else among them. -/
theorem exists_of_tokenize {source file : String} {ts : List Token}
    (h : tokenize source file = .ok ts) :
    ∃ ks, ts.map (·.kind) = ks ++ [.endOfFile] ∧ .endOfFile ∉ ks :=
  Cursor.exists_of_tokens h (Nat.lt_succ_self _)

end DecimalLift
