import DecimalLift.Proofs.Token.Lexeme
import DecimalLift.Tree.Layout

/-!
# Strings between quotes

The scanner of a string and the writer of one are two tables of escapes. Together they lose nothing:
any value, whatever its characters, is read back from what is written for it.

* `Quoted.isControl_escape` — what is written between the quotes has no control character in it, so
  that it stays on one line.
* `tokenize_escaped` — what is written for a value is one string token with that value.
-/

set_option autoImplicit false

namespace DecimalLift

open DecimalLift.Text

namespace Quoted

theorem isControl_hexDigit (n : Nat) : isControl (hexDigit n) = false := by
  by_cases hn : n < 16
  · have hdigits : ∀ d < 16, isControl (hexDigit d) = false := by decide
    exact hdigits n hn
  · have hdigit : hexDigit n = '0' := by
      unfold hexDigit
      rw [List.getElem?_eq_none (Nat.le_of_not_lt hn)]
      rfl
    rw [hdigit]
    decide

theorem isControl_escapeChar (quote : Quote) (c : Char) :
    ∀ x ∈ escapeChar quote.mark c, isControl x = false := by
  have hpair : ∀ {d : Char}, isControl d = false → ∀ x ∈ ['\\', d], isControl x = false := by
    intro d hd x hx
    simp only [List.mem_cons, List.not_mem_nil, or_false] at hx
    rcases hx with rfl | rfl
    · decide
    · exact hd
  have hbyte : ∀ n, ∀ x ∈ hexByte n, isControl x = false := by
    intro n x hx
    simp only [hexByte, List.mem_cons, List.not_mem_nil, or_false] at hx
    rcases hx with rfl | rfl <;> exact isControl_hexDigit _
  -- `split` would simplify the rest of the table once more for every row.
  have hrow : ∀ {p : Prop} [Decidable p] {cs ds : List Char},
      (p → ∀ x ∈ cs, isControl x = false) → (¬p → ∀ x ∈ ds, isControl x = false) →
        ∀ x ∈ if p then cs else ds, isControl x = false := by
    intro p _ cs ds hcs hds
    by_cases hp : p
    · rw [if_pos hp]
      exact hcs hp
    · rw [if_neg hp]
      exact hds hp
  unfold escapeChar
  iterate 7 refine hrow (fun _ => hpair (by decide)) fun _ => ?_
  refine hrow (fun _ => ?_) fun _ => ?_
  · exact List.forall_mem_append.2 ⟨hpair (by decide), List.forall_mem_append.2 ⟨hbyte _, hbyte _⟩⟩
  refine hrow (fun _ => ?_) fun hcontrol => ?_
  · exact List.forall_mem_append.2 ⟨hpair (by decide), hbyte _⟩
  refine hrow (fun hc => ?_) fun _ => ?_
  · subst hc
    exact hpair (by cases quote <;> decide)
  · intro x hx
    rw [List.mem_singleton.1 hx]
    exact Bool.eq_false_iff.2 hcontrol

/-- **No control character stands between the quotes**, whatever the value is. -/
theorem isControl_escape (quote : Quote) (value : String) :
    ∀ x ∈ (escape quote value).toList, isControl x = false := by
  intro x hx
  rw [escape, String.toList_ofList] at hx
  obtain ⟨c, -, hc⟩ := List.mem_flatMap.1 hx
  exact isControl_escapeChar quote c x hc

end Quoted

theorem Location.advanceOver_line (l : Location) {cs : List Char} (h : '\n' ∉ cs) :
    l.advanceOver cs = ⟨l.file, l.line, l.column + .ofNat cs.length⟩ := by
  induction cs generalizing l with
  | nil => simp [advanceOver]
  | cons c cs ih =>
    obtain ⟨hc, hcs⟩ := not_or.1 (mt List.mem_cons.2 h)
    have hstep : l.advanceOver (c :: cs) = (l.advance c).advanceOver cs := rfl
    rw [hstep, ih _ hcs, advance, if_neg (Ne.symm hc), List.length_cons, Nat.add_comm,
      UInt32.ofNat_add, ← UInt32.add_assoc]
    rfl

/-- **Escaping and scanning are inverse.** Whatever the characters of a value and the quotes are,
what is written for the value is the quotes with its escapes between them; it is read as one string
with that value, these quotes and that spelling, which takes the whole text, and the end of file
comes next. -/
theorem tokenize_escaped (value : String) (quote : Quote) (file : String) :
    let raw := Quoted.escape quote value
    let text := Piece.render [.string value quote none]
    let stop : Location := ⟨file, 1, .ofNat (text.toList.length + 1)⟩
    text.toList = quote.mark :: (raw.toList ++ [quote.mark]) ∧
      tokenize text file =
        .ok [⟨.string value quote raw, ⟨.start file, stop⟩, false⟩,
          ⟨.endOfFile, .point stop, false⟩] := by
  intro raw text stop
  have htext : text = (TokenKind.string value quote raw).text := by
    simp [text, raw, Piece.render, Piece.chars, Piece.string]
  have hchars : text.toList = quote.mark :: (raw.toList ++ [quote.mark]) := by
    rw [htext]
    simp [TokenKind.text, TokenKind.quoted]
  have hline : '\n' ∉ text.toList := by
    intro hmem
    rw [hchars, List.mem_cons, List.mem_append, List.mem_singleton] at hmem
    have hmark : '\n' ≠ quote.mark := by cases quote <;> decide
    rcases hmem with hmem | hmem | hmem
    · exact hmark hmem
    · cases Quoted.isControl_escape quote value _ hmem
    · exact hmark hmem
  have hstop : (Location.start file).advanceOver text.toList = stop := by
    rw [Location.advanceOver_line _ hline]
    simp only [stop, Location.start, UInt32.ofNat_add, UInt32.add_comm, UInt32.reduceOfNat]
  have hread := tokenize_spelt (TokenKind.spelt_escape value quote) file
  rw [← htext, hstop] at hread
  exact ⟨hchars, hread⟩

end DecimalLift
