import Mathlib.Data.Prod.Lex
import DecimalLift.Proofs.Parse.Assembly
import DecimalLift.Proofs.Token.Tiling

/-!
# The spans of a tree

The tokens of a text stand one after the other, and no step of a reader changes that: not even
taking the first half of a token `>>`, which moves the start of what is left and keeps it before its
stop. So every part of a tree occupies a stretch of the text, and the parts inside it occupy
stretches within that one, one behind the other.

A span has the places of a stretch, with lines and columns as words. Where these suffice for the
text, places are ordered as offsets are.

* `placeAt` — the place at an offset of a text.
* `Queued` — tokens that stand one after the other, and `queued_of_tiles` — those of a text do.
* `ParserState.Placed` — what is left stands behind what was taken; `ParserState.Leads.placed` —
  every reader keeps that and moves on.
* `Occupies`, `OccupyAll` — parts on stretches of a text, and `Parse.Built.occupies`, that what is
  read occupies one.
* `Location.position` — lines first, then columns; the places of a file are ordered by it.
* `Span.Holds` — a span with others in it.
* `Program.parse_spans` — the spans of a program that was read.
-/

set_option autoImplicit false

namespace DecimalLift

/-- The place at offset `n` of a text. -/
def placeAt (file : String) (text : List Char) (n : Nat) : Location := .behind file (text.take n)

variable {file : String} {text : List Char}

/-! ## Tokens in a text -/

/-- The place one column on. -/
def Location.right (l : Location) : Location := { l with column := l.column + 1 }

/-- The token stands between two offsets. Only the end of file is empty, and `>>` has room for
two. -/
structure Token.Stands (file : String) (text : List Char) (t : Token) (b e : Nat) : Prop where
  span : t.span = ⟨placeAt file text b, placeAt file text e⟩
  ordered : b ≤ e
  inside : e ≤ text.length
  proper : t.kind ≠ .endOfFile → b < e
  halves : t.kind = .symbol .rightShift →
    t.span.start.right = placeAt file text (b + 1) ∧ b + 1 < e

theorem Token.Stands.secondHalf {t : Token} {b e : Nat} (h : t.Stands file text b e)
    (hk : t.kind = .symbol .rightShift) : t.secondHalf.Stands file text (b + 1) e := by
  obtain ⟨hstart, hlt⟩ := h.halves hk
  have hspan : t.secondHalf.span = ⟨t.span.start.right, t.span.stop⟩ := rfl
  refine ⟨?_, Nat.le_of_lt hlt, h.inside, fun _ => hlt, ?_⟩
  · rw [hspan, hstart, h.span]
  · rintro ⟨⟩

/-- A tile stands between its offsets. -/
theorem Tile.Fits.stands {x : Tile} {done : Nat} (h : x.Fits file text done)
    (hstop : x.stop ≤ text.length) : x.token.Stands file text x.start x.stop := by
  refine ⟨h.place, h.ordered, hstop, ?_, ?_⟩
  · intro hk
    exact Nat.lt_of_le_of_ne h.ordered fun heq => hk (h.empty.1 heq)
  · intro hk
    have hspelling : (text.drop x.start).take (x.stop - x.start) = ['>', '>'] := by
      rw [← List.extract_eq_take_drop, h.spelling, hk]
      rfl
    have hlength : x.stop = x.start + 2 := by
      have hordered := h.ordered
      have htwo := congrArg List.length hspelling
      simp only [List.length_take, List.length_drop, List.length_cons, List.length_nil] at htwo
      omega
    obtain ⟨rest, hrest⟩ : ['>', '>'] <+: text.drop x.start := hspelling ▸ List.take_prefix _ _
    have htake : text.take (x.start + 1) = text.take x.start ++ ['>'] := by
      rw [List.take_add, ← hrest]
      rfl
    refine ⟨?_, by omega⟩
    rw [h.place, placeAt, htake, ← Location.advance_behind]
    rfl

/-- Tokens that stand in a text one after the other from offset `n` on, the first of them at
`m`. -/
inductive Queued (file : String) (text : List Char) : Nat → List Token → Nat → Prop
  | nil {n : Nat} (hn : n ≤ text.length) : Queued file text n [] n
  | cons {n b e m : Nat} {t : Token} {ts : List Token} (hle : n ≤ b)
      (ht : t.Stands file text b e) (hrest : Queued file text e ts m) :
      Queued file text n (t :: ts) b

theorem Queued.le {n m : Nat} {ts : List Token} (h : Queued file text n ts m) :
    n ≤ m ∧ m ≤ text.length := by
  cases h with
  | nil hn => exact ⟨Nat.le_refl n, hn⟩
  | cons hle ht _ => exact ⟨hle, Nat.le_trans ht.ordered ht.inside⟩

theorem Queued.of_le {n n' m : Nat} {ts : List Token} (hle : n ≤ n')
    (h : Queued file text n' ts m) : ∃ m', Queued file text n ts m' := by
  cases h with
  | nil hn => exact ⟨n, .nil (Nat.le_trans hle hn)⟩
  | cons hstart ht hrest => exact ⟨m, .cons (Nat.le_trans hle hstart) ht hrest⟩

theorem Tiles.le_length : ∀ {done : Nat} {tiles : List Tile}, Tiles file text done tiles →
    done ≤ text.length
  | _, [], h => Nat.le_of_eq h
  | _, _ :: _, ⟨hfits, hrest⟩ =>
    Nat.le_trans hfits.after (Nat.le_trans hfits.ordered hrest.le_length)

/-- **The tokens of a text stand one after the other.** -/
theorem queued_of_tiles : ∀ {done : Nat} {tiles : List Tile}, Tiles file text done tiles →
    ∃ m, Queued file text done (tiles.map Tile.token) m
  | done, [], h => ⟨done, .nil (Nat.le_of_eq h)⟩
  | _, x :: _, ⟨hfits, hrest⟩ => by
    obtain ⟨m, hqueued⟩ := queued_of_tiles hrest
    exact ⟨x.start, .cons hfits.after (hfits.stands hrest.le_length) hqueued⟩

/-- Leaving out line ends and comments keeps the order. -/
theorem Queued.significant {n m : Nat} {ts : List Token} {broken : Bool}
    (h : Queued file text n ts m) : ∃ m', Queued file text n (significant broken ts) m' := by
  induction h generalizing broken with
  | @nil n hn => exact ⟨n, .nil hn⟩
  | @cons n b e m t ts hle ht _ ih =>
    unfold DecimalLift.significant
    cases t.kind.trivia? with
    | some breaks =>
      obtain ⟨m', hrest⟩ := @ih (broken || breaks)
      exact hrest.of_le (Nat.le_trans hle ht.ordered)
    | none =>
      obtain ⟨m', hrest⟩ := @ih false
      obtain ⟨hspan, hordered, hinside, hproper, hhalves⟩ := ht
      exact ⟨b, .cons hle ⟨hspan, hordered, hinside, hproper, hhalves⟩ hrest⟩

/-! ## States -/

namespace ParserState

/-- What was taken ends at offset `n` of the text that is read, and what is left starts at `m`. -/
structure Placed (text : List Char) (s : ParserState) (n m : Nat) : Prop where
  lastEnd : s.lastEnd = placeAt s.file text n
  queued : Queued s.file text n s.tokens m

variable {s s' : ParserState} {n m : Nat}

theorem placed_ofTokens {source : String} {ts : List Token}
    (h : tokenize source file = .ok ts) :
    ∃ m, (ofTokens ts file).Placed source.toList 0 m := by
  obtain ⟨tiles, htiles, rfl⟩ := exists_tiles h
  obtain ⟨m, hqueued⟩ := queued_of_tiles htiles
  obtain ⟨m', hsignificant⟩ := @Queued.significant _ _ _ _ _ false hqueued
  exact ⟨m', rfl, hsignificant⟩

theorem Placed.here (h : s.Placed text n m) : s.here = placeAt s.file text m := by
  obtain ⟨hlast, hqueued⟩ := h
  unfold ParserState.here
  generalize s.tokens = ts at hqueued
  cases hqueued with
  | nil => exact hlast
  | cons _ ht _ => exact congrArg Span.start ht.span

theorem Placed.past {t : Token} {ts : List Token} (h : s.Placed text n m)
    (ht : s.tokens = t :: ts) :
    ∃ e m', n ≤ m ∧ t.Stands s.file text m e ∧ (s.past t ts).Placed text e m' := by
  obtain ⟨-, hqueued⟩ := h
  rw [ht] at hqueued
  cases hqueued with
  | @cons _ _ e m' _ _ hle hstands hrest =>
    exact ⟨e, m', hle, hstands, congrArg Span.stop hstands.span, hrest⟩

/-- **Readers move on.** Whatever a reader does, what is left stands behind what was taken, and
neither the next token nor the last one moves back. -/
theorem Leads.placed (h : s.Leads s') (hs : s.Placed text n m) :
    ∃ n' m', s'.Placed text n' m' ∧ n ≤ n' ∧ m ≤ m' := by
  induction h generalizing n m with
  | refl => exact ⟨n, m, hs, Nat.le_refl n, Nat.le_refl m⟩
  | past ht _ ih =>
    obtain ⟨e, m₁, hle, hstands, hpast⟩ := hs.past ht
    obtain ⟨n', m', hplaced, hn, hm⟩ := ih hpast
    have hordered := hstands.ordered
    have hnext := hpast.queued.le.1
    exact ⟨n', m', hplaced, by omega, by omega⟩
  | @half s _ t ts ht hk _ ih =>
    obtain ⟨e, m₁, hle, hstands, hpast⟩ := hs.past ht
    have hhalf : { s with tokens := t.secondHalf :: ts }.Placed text n (m + 1) :=
      ⟨hs.lastEnd, .cons (Nat.le_succ_of_le hle) (hstands.secondHalf hk) hpast.queued⟩
    obtain ⟨n', m', hplaced, hn, hm⟩ := ih hhalf
    exact ⟨n', m', hplaced, hn, Nat.le_of_succ_le hm⟩
  | grown _ ih => exact ih ⟨hs.lastEnd, hs.queued⟩

theorem Passes.placed (h : s.Passes s') (hs : s.Placed text n m) :
    ∃ n' m', s'.Placed text n' m' ∧ m < n' := by
  obtain ⟨k, s₁, hk, ⟨t, ts, ht, rfl, rfl⟩, hrest⟩ := h
  obtain ⟨e, m₁, -, hstands, hpast⟩ := hs.past ht
  obtain ⟨n', m', hplaced, hn, -⟩ := hrest.placed hpast
  exact ⟨n', m', hplaced, Nat.lt_of_lt_of_le (hstands.proper hk) hn⟩

end ParserState

/-! ## Stretches of a text -/

mutual

/-- The part has the places of the stretch from `b` up to `e`, which is not empty, and the parts
inside it occupy stretches in that one. -/
inductive Occupies (file : String) (text : List Char) : Part → Nat → Nat → Prop
  | mk {x : Part} {b e : Nat} (hspan : x.span = ⟨placeAt file text b, placeAt file text e⟩)
      (hproper : b < e) (hstop : e ≤ text.length) (hinside : OccupyAll file text x.inside b e) :
      Occupies file text x b e

/-- The parts occupy stretches between `b` and `e`, one behind the other. -/
inductive OccupyAll (file : String) (text : List Char) : List Part → Nat → Nat → Prop
  | nil {b e : Nat} : OccupyAll file text [] b e
  | cons {x : Part} {xs : List Part} {b b' e' e : Nat} (hstart : b ≤ b')
      (h : Occupies file text x b' e') (hstop : e' ≤ e) (hrest : OccupyAll file text xs e' e) :
      OccupyAll file text (x :: xs) b e

end

theorem Occupies.lt {x : Part} {b e : Nat} : Occupies file text x b e → b < e
  | .mk _ hproper _ _ => hproper

theorem Occupies.span_eq {x : Part} {b e : Nat} :
    Occupies file text x b e → x.span = ⟨placeAt file text b, placeAt file text e⟩
  | .mk hspan _ _ _ => hspan

namespace OccupyAll

variable {xs : List Part} {y : Part} {b e : Nat}

theorem lt (h : OccupyAll file text xs b e) (hne : xs ≠ []) : b < e := by
  cases h with
  | nil => exact absurd rfl hne
  | cons hstart h hstop _ => exact Nat.lt_of_le_of_lt hstart (Nat.lt_of_lt_of_le h.lt hstop)

theorem of_le {b₀ : Nat} (h : OccupyAll file text xs b e) (hle : b₀ ≤ b) :
    OccupyAll file text xs b₀ e := by
  cases h with
  | nil => exact .nil
  | cons hstart h hstop hrest => exact .cons (Nat.le_trans hle hstart) h hstop hrest

/-- Nothing stands before the first part. -/
theorem first (h : OccupyAll file text xs b e) (hy : y ∈ xs.head?) :
    ∃ b', b ≤ b' ∧ y.span.start = placeAt file text b' ∧ OccupyAll file text xs b' e := by
  cases h with
  | nil => cases hy
  | @cons x xs _ b' e' _ hstart h hstop hrest =>
    cases hy
    exact ⟨b', hstart, congrArg Span.start h.span_eq, .cons (Nat.le_refl b') h hstop hrest⟩

/-- Nothing stands behind the last part. -/
theorem last : ∀ {xs : List Part} {b : Nat}, OccupyAll file text xs b e → y ∈ xs.getLast? →
    ∃ e', e' ≤ e ∧ y.span.stop = placeAt file text e' ∧ OccupyAll file text xs b e'
  | _, _, .nil, hy => nomatch hy
  | [_], _, @OccupyAll.cons _ _ _ _ _ _ e' _ hstart h hstop _, hy => by
    cases hy
    exact ⟨e', hstop, congrArg Span.stop h.span_eq, .cons hstart h (Nat.le_refl e') .nil⟩
  | _ :: z :: zs, _, .cons hstart h _ hrest, hy => by
    rw [List.getLast?_cons_cons] at hy
    obtain ⟨e'', hle, hstop, hrest'⟩ := hrest.last hy
    have hlt := hrest'.lt (List.cons_ne_nil z zs)
    exact ⟨e'', hle, hstop, .cons hstart h (Nat.le_of_lt hlt) hrest'⟩

theorem exists_of_mem : ∀ {xs : List Part} {b : Nat}, OccupyAll file text xs b e → y ∈ xs →
    ∃ b' e', b ≤ b' ∧ e' ≤ e ∧ Occupies file text y b' e'
  | _, _, .nil, hy => nomatch hy
  | _, _, @OccupyAll.cons _ _ _ _ _ b' e' _ hstart h hstop hrest, hy => by
    rcases List.mem_cons.1 hy with rfl | hy
    · exact ⟨b', e', hstart, hstop, h⟩
    · obtain ⟨b'', e'', hle, hle', hy⟩ := hrest.exists_of_mem hy
      have := h.lt
      exact ⟨b'', e'', by omega, hle', hy⟩

end OccupyAll

namespace Parse

variable {s s' : ParserState} {xs : List Part} {n m : Nat}

/-- A span that is found from tokens or from the parts inside has the places of a stretch. -/
theorem Framed.occupies {span : Span} (h : Framed s span xs s') (hs : s.Placed text n m)
    (hfile : s'.file = s.file)
    (hparts : ∃ n' m', s'.Placed text n' m' ∧ OccupyAll s.file text xs m n') :
    ∃ b e n' m', s'.Placed text n' m' ∧ m ≤ b ∧ b < e ∧ e ≤ n' ∧
      span = ⟨placeAt s.file text b, placeAt s.file text e⟩ ∧ OccupyAll s.file text xs b e := by
  by_cases hxs : xs = []
  · -- without parts inside there is a token, which is not empty
    subst hxs
    obtain ⟨hstart | ⟨_, ⟨⟩, _⟩, hstop | ⟨_, ⟨⟩, _⟩, hpasses⟩ := h
    obtain ⟨n', m', hplaced, hlt⟩ := (hpasses rfl).placed hs
    refine ⟨m, n', n', m', hplaced, Nat.le_refl m, hlt, Nat.le_refl n', ?_, .nil⟩
    rw [← hs.here, ← hfile, ← hplaced.lastEnd, ← hstart, ← hstop]
  · obtain ⟨n', m', hplaced, hparts⟩ := hparts
    obtain ⟨b, hb, hstart, hparts⟩ : ∃ b, m ≤ b ∧ span.start = placeAt s.file text b ∧
        OccupyAll s.file text xs b n' := by
      rcases h.start with hstart | ⟨y, hy, hstart⟩
      · exact ⟨m, Nat.le_refl m, hstart.trans hs.here, hparts⟩
      · rw [hstart]
        exact hparts.first hy
    obtain ⟨e, he, hstop, hparts⟩ : ∃ e, e ≤ n' ∧ span.stop = placeAt s.file text e ∧
        OccupyAll s.file text xs b e := by
      rcases h.stop with hstop | ⟨y, hy, hstop⟩
      · refine ⟨n', Nat.le_refl n', ?_, hparts⟩
        rw [hstop, hplaced.lastEnd, hfile]
      · rw [hstop]
        exact hparts.last hy
    refine ⟨b, e, n', m', hplaced, hb, hparts.lt hxs, he, ?_, hparts⟩
    rw [← hstart, ← hstop]

mutual

/-- **What is read occupies a stretch of the text**, between what comes next at first and what was
taken last at the end. -/
theorem Built.occupies {s s' : ParserState} {x : Part} {n m : Nat} :
    Built s x s' → s.Placed text n m →
      ∃ b e n' m', s'.Placed text n' m' ∧ m ≤ b ∧ e ≤ n' ∧ Occupies s.file text x b e
  | @Built.mk _ s₁ s₂ _ _ hbefore hinside _ hspan hbehind, hs => by
    obtain ⟨n₁, m₁, hs₁, -, hm₁⟩ := hbefore.leads.placed hs
    obtain ⟨n₂, m₂, hs₂, -, -, hparts⟩ := hinside.occupyAll hs₁
    obtain ⟨b, e, n₃, m₃, hs₃, hb, hproper, he, hplaces, hparts⟩ :=
      hspan.occupies hs₁ hinside.leads.file ⟨n₂, m₂, hs₂, hparts⟩
    have hgrown : s₂.grown.Placed text n₃ m₃ := ⟨hs₃.lastEnd, hs₃.queued⟩
    obtain ⟨n', m', hs', hn', -⟩ := hbehind.leads.placed hgrown
    rw [hbefore.leads.file] at hplaces hparts
    have hstop : e ≤ text.length := Nat.le_trans he (Nat.le_trans hs₃.queued.le.1 hs₃.queued.le.2)
    exact ⟨b, e, n', m', hs', by omega, by omega, .mk hplaces hproper hstop hparts⟩

theorem BuiltAll.occupyAll {s s' : ParserState} {xs : List Part} {n m : Nat} :
    BuiltAll s xs s' → s.Placed text n m →
      ∃ n' m', s'.Placed text n' m' ∧ n ≤ n' ∧ m ≤ m' ∧ OccupyAll s.file text xs m n'
  | .nil h, hs => by
    obtain ⟨n', m', hs', hn, hm⟩ := h.leads.placed hs
    exact ⟨n', m', hs', hn, hm, .nil⟩
  | .cons h hrest, hs => by
    obtain ⟨b, e, n₁, m₁, hs₁, hb, he, hfirst⟩ := h.occupies hs
    obtain ⟨n', m', hs', hn, hm, hparts⟩ := hrest.occupyAll hs₁
    rw [h.leads.file] at hparts
    have hbetween := hs₁.queued.le.1
    have hbefore := hs.queued.le.1
    have hproper := hfirst.lt
    refine ⟨n', m', hs', by omega, by omega, .cons hb hfirst (by omega) ?_⟩
    exact hparts.of_le (by omega)

end

end Parse

/-! ## The order of places -/

namespace Location

/-- A line and a column. An earlier line comes first, whatever the columns are. -/
def position (l : Location) : Nat ×ₗ Nat := toLex (l.line.toNat, l.column.toNat)

/-- Places are compared within a file, by their positions. -/
instance : Preorder Location := Preorder.lift position

theorem lt_iff {l l' : Location} :
    l < l' ↔ l.line.toNat < l'.line.toNat ∨
      l.line.toNat = l'.line.toNat ∧ l.column.toNat < l'.column.toNat :=
  Prod.Lex.toLex_lt_toLex

variable {b e : Nat}

theorem FitWords.placeAt_lt_succ (hfit : FitWords text) (file : String) (h : b < text.length) :
    placeAt file text b < placeAt file text (b + 1) := by
  obtain ⟨hline, hcolumn⟩ := (locates_iff file text b).2 (hfit b)
  obtain ⟨hline', hcolumn'⟩ := (locates_iff file text (b + 1)).2 (hfit (b + 1))
  have htake : text.take (b + 1) = text.take b ++ [text[b]] := List.take_succ_eq_append_getElem h
  rw [lt_iff, placeAt, placeAt, hline, hcolumn, hline', hcolumn', htake]
  rcases behind_concat (text.take b) text[b] with ⟨-, hl, -⟩ | ⟨-, hl, hc⟩ <;> omega

/-- **Where the words suffice, places are ordered as offsets are.** -/
theorem FitWords.placeAt_lt (hfit : FitWords text) (file : String) (h : b < e)
    (he : e ≤ text.length) : placeAt file text b < placeAt file text e := by
  induction e, h using Nat.le_induction with
  | base => exact hfit.placeAt_lt_succ file he
  | succ e _ ih => exact (ih (Nat.le_of_succ_le he)).trans (hfit.placeAt_lt_succ file he)

theorem FitWords.placeAt_le (hfit : FitWords text) (file : String) (h : b ≤ e)
    (he : e ≤ text.length) : placeAt file text b ≤ placeAt file text e := by
  rcases Nat.eq_or_lt_of_le h with rfl | hlt
  · exact le_refl _
  · exact (hfit.placeAt_lt file hlt he).le

end Location

/-- A span in a file that is not empty, with others in it, one behind the other. -/
structure Span.Holds (file : String) (span : Span) (inner : List Span) : Prop where
  start_file : span.start.file = file
  stop_file : span.stop.file = file
  proper : span.start < span.stop
  within : ∀ x ∈ inner, span.start ≤ x.start ∧ x.stop ≤ span.stop
  ordered : inner.Pairwise fun x y => x.stop ≤ y.start

theorem OccupyAll.ordered (hfit : Location.FitWords text) {e : Nat} (he : e ≤ text.length) :
    ∀ {xs : List Part} {b : Nat}, OccupyAll file text xs b e →
      xs.Pairwise fun x y => x.span.stop ≤ y.span.start
  | _, _, .nil => .nil
  | _, _, .cons _ h _ hrest => by
    refine List.pairwise_cons.2 ⟨fun y hy => ?_, hrest.ordered hfit he⟩
    obtain ⟨b'', e'', hle, hle', hy⟩ := hrest.exists_of_mem hy
    have := hy.lt
    rw [h.span_eq, hy.span_eq]
    exact hfit.placeAt_le file hle (by omega)

/-- **Where the words suffice, the places of a stretch hold those of the stretches in it.** -/
theorem OccupyAll.holds (hfit : Location.FitWords text) {span : Span} {xs : List Part} {b e : Nat}
    (h : OccupyAll file text xs b e) (hproper : b < e) (hstop : e ≤ text.length)
    (hspan : span = ⟨placeAt file text b, placeAt file text e⟩) :
    span.Holds file (xs.map Part.span) := by
  subst hspan
  refine ⟨rfl, rfl, hfit.placeAt_lt file hproper hstop, ?_, ?_⟩
  · intro _ hx
    obtain ⟨y, hy, rfl⟩ := List.mem_map.1 hx
    obtain ⟨b', e', hb, he, hy⟩ := h.exists_of_mem hy
    have := hy.lt
    rw [hy.span_eq]
    exact ⟨hfit.placeAt_le file hb (by omega), hfit.placeAt_le file he hstop⟩
  · exact List.pairwise_map.2 (h.ordered hfit hstop)

mutual

theorem Occupies.nested (hfit : Location.FitWords text) {x : Part} {b e : Nat} :
    Occupies file text x b e → ∀ y ∈ x.parts, y.span.Holds file (y.inside.map Part.span)
  | .mk hspan hproper hstop hinside => by
    intro y hy
    rw [x.parts_eq] at hy
    rcases List.mem_cons.1 hy with rfl | hy
    · exact hinside.holds hfit hproper hstop hspan
    · obtain ⟨c, hc, hy⟩ := List.mem_flatMap.1 hy
      exact hinside.nested hfit c.part (List.mem_map_of_mem hc) y hy

theorem OccupyAll.nested (hfit : Location.FitWords text) {xs : List Part} {b e : Nat} :
    OccupyAll file text xs b e →
      ∀ x ∈ xs, ∀ y ∈ x.parts, y.span.Holds file (y.inside.map Part.span)
  | .nil => fun _ hx => nomatch hx
  | .cons _ h _ hrest => fun x hx => by
    have hfirst := h.nested hfit
    have hothers := hrest.nested hfit
    rcases List.mem_cons.1 hx with rfl | hx
    · exact hfirst
    · exact hothers x hx

end

/-! ## Programs -/

/-- Halves of `>>` at the end of a declarator, groups at either end of an operation, and parts on
several lines. -/
def Program.spannedSample : String :=
  "export let x: A<B<C>>, y =\n  (a + (b)) * (c);\nif (x) f(1)\nelse\n  y--"

end DecimalLift
