import DecimalLift.Proofs.Parse.Expression
import DecimalLift.Proofs.Tree

/-!
# A reading depends on the tokens it takes and on one more

A reader looks at the next token and never further, and the ids it hands out and the places it has
seen do not steer it. So a reading can be moved: to a queue that goes on differently, to another
next id, to another file.

* `Reader.isTight`, `EndsOperand` — the readers of operands, and what does not go on with one.
* `Follows` — a tail of the queue that a reader stops before, as it stopped before the old one.
* `ParserState.moved`, `Expression.renumber` — a state and a tree elsewhere.
* `Reads.movable` — a reading can be moved.
* `Reads.restart` — where the last token ended plays no part in a reading that takes a token.
* `TakesWhole.reads`, `Reads.alone` — what is an operand in one place is one in every other place.
-/

set_option autoImplicit false

namespace DecimalLift

/-! ## Other ids -/

/-- Changes ids and keeps all else. -/
def Relabel.renumber (f : UInt32 → UInt32) : Relabel :=
  ⟨fun n => { n with id := f n.id }, fun _ _ raw => raw, fun a => a⟩

namespace Expression

/-- The expression with its ids changed by `f`. -/
def renumber (f : UInt32 → UInt32) (e : Expression) : Expression := e.relabel (.renumber f)

@[simp] theorem span_renumber (f : UInt32 → UInt32) (e : Expression) :
    (e.renumber f).span = e.span := by
  cases e <;> rfl

@[simp] theorem isAssignable_renumber (f : UInt32 → UInt32) (e : Expression) :
    (e.renumber f).isAssignable = e.isAssignable :=
  isAssignable_relabel _ e

mutual

theorem renumber_id : ∀ e : Expression, e.relabel (.renumber id) = e
  | .number .. | .string .. | .boolean .. | .null .. | .identifier .. => rfl
  | .binary _ _ left right => by
    rw [relabel, renumber_id left, renumber_id right]
    rfl
  | .unary _ _ operand => by
    rw [relabel, renumber_id operand]
    rfl
  | .call _ callee arguments | .construct _ callee arguments => by
    rw [relabel, renumber_id callee, renumberAll_id arguments]
    rfl
  | .member _ object _ => by
    rw [relabel, renumber_id object]
    rfl
  | .index _ object position => by
    rw [relabel, renumber_id object, renumber_id position]
    rfl
  | .conditional _ condition yes no => by
    rw [relabel, renumber_id condition, renumber_id yes, renumber_id no]
    rfl
  | .array _ elements => by
    rw [relabel, renumberAll_id elements]
    rfl

theorem renumberAll_id : ∀ es : List Expression, relabelAll (.renumber id) es = es
  | [] => rfl
  | e :: es => by rw [relabelAll, renumber_id e, renumberAll_id es]

end

end Expression

namespace Parse

open ParserState (past_tokens grown_tokens kind?_of_tokens)

/-- The reader with the ids of the expression that it holds changed. -/
def Reader.renumber (f : UInt32 → UInt32) : Reader → Reader
  | .climb least left => .climb least (left.renumber f)
  | .suffixes calls chain => .suffixes calls (chain.renumber f)
  | r => r

end Parse

namespace ParserState

/-- The state with other tokens and another file, its next id changed by `f`. -/
def moved (s : ParserState) (f : UInt32 → UInt32) (file : String) (ts : List Token) : ParserState :=
  { s with tokens := ts, file := file, nextId := f s.nextId }

/-- The next id goes with `f`. -/
def Shifts (f : UInt32 → UInt32) : Prop := ∀ i, f (i + 1) = f i + 1

variable {s : ParserState} {f : UInt32 → UInt32}

theorem Shifts.moved_grown (hf : Shifts f) (file : String) (ts : List Token) :
    s.grown.moved f file ts = (s.moved f file ts).grown := by
  unfold moved grown
  rw [hf]

end ParserState

namespace Parse

open ParserState (past_tokens grown_tokens kind?_of_tokens)

/-! ## Other tails -/

/-- The readers of operands and of what an operand is made of. -/
def Reader.isTight : Reader → Bool
  | .assignment | .conditional | .binary _ | .climb _ _ => false
  | _ => true

/-- The queue does not go on with an operand. -/
def EndsOperand (ts : List Token) : Prop :=
  ∀ t ∈ ts.head?, t.kind ≠ .symbol .dot ∧ t.kind ≠ .symbol .leftBracket ∧
    t.kind ≠ .symbol .leftParen ∧ (t.afterBreak = false → UnaryOp.ofTrailing? t.kind = none)

/-- A reader that stopped before `ts` would stop before `vs` as well. -/
def Follows (r : Reader) (ts vs : List Token) : Prop :=
  vs.head? = ts.head? ∨ r.isTight = true ∧ EndsOperand vs

section

variable {r r' : Reader} {ts vs : List Token}

theorem Follows.head (h : Follows r ts vs) (hloose : r.isTight = false) : vs.head? = ts.head? := by
  rcases h with h | ⟨htight, -⟩
  · exact h
  · rw [hloose] at htight
    cases htight

theorem Follows.append (h : Follows r ts vs) (htight : r.isTight = true → r'.isTight = true)
    (us : List Token) : Follows r' (us ++ ts) (us ++ vs) := by
  cases us with
  | nil => exact h.imp_right (And.imp_left htight)
  | cons t us => exact Or.inl rfl

theorem follows_of_tokens {s : ParserState} {t : Token} {us : List Token} (ht : s.tokens = t :: ts) :
    Follows r s.tokens (t :: us) := by
  rw [ht]
  exact Or.inl rfl

end

section

variable {s : ParserState} {f : UInt32 → UInt32} {file : String} {vs : List Token}

theorem kind?_moved (h : vs.head? = s.tokens.head?) : (s.moved f file vs).kind? = s.kind? := by
  unfold ParserState.kind?
  rw [← h]
  rfl

theorem trailingOp?_moved (h : Follows .trailing s.tokens vs) (hop : trailingOp? s = none) :
    trailingOp? (s.moved f file vs) = none := by
  rcases h with h | ⟨-, hends⟩
  · unfold trailingOp? at hop
    rw [← h] at hop
    exact hop
  · unfold trailingOp?
    show vs.head?.bind _ = none
    cases hhead : vs.head? with
    | none => rfl
    | some t =>
      obtain ⟨-, -, -, htrailing⟩ := hends t hhead
      rw [Option.bind_some]
      split
      · rfl
      · rename_i hbreak
        exact htrailing (by simpa using hbreak)

theorem endsChain_moved {calls : Bool} {head : Expression}
    (h : Follows (.suffixes calls head) s.tokens vs) (hends : endsChain calls s) :
    endsChain calls (s.moved f file vs) := by
  rcases h with h | ⟨-, hends'⟩
  · unfold endsChain
    rw [kind?_moved h]
    exact hends
  · have hkind : ∀ k, (s.moved f file vs).kind? = some k → ∃ t ∈ vs.head?, t.kind = k := by
      intro k hk
      exact Option.map_eq_some_iff.1 hk
    refine ⟨fun hk => ?_, fun hk => ?_, fun _ hk => ?_⟩ <;> obtain ⟨t, ht, hk⟩ := hkind _ hk
    · exact (hends' t ht).1 hk
    · exact (hends' t ht).2.1 hk
    · exact (hends' t ht).2.2.1 hk

end

/-! ## Moving -/

theorem taken_append {s s₁ : ParserState} {us us' ts vs : List Token} {t : Token}
    (hus : s.tokens = us ++ s₁.tokens) (ht : s₁.tokens = t :: ts) (hus' : ts = us' ++ vs) :
    s.tokens = (us ++ t :: us') ++ vs := by
  rw [hus, ht, hus', List.append_assoc, List.cons_append]

/-- What a reader takes can stand in front of other tokens, and be read by a parser that counts
from another id. -/
def Movable (f : UInt32 → UInt32) (file : String) (r : Reader) (s : ParserState) (e : Expression)
    (s' : ParserState) : Prop :=
  ∃ us, s.tokens = us ++ s'.tokens ∧ ∀ vs, Follows r s'.tokens vs →
    Reads (r.renumber f) (s.moved f file (us ++ vs)) (e.renumber f) (s'.moved f file vs)

/-- The same of several expressions and the symbol that closes them. -/
def MovableAll (f : UInt32 → UInt32) (file : String) (close : Symbol) (s : ParserState)
    (es : List Expression) (s' : ParserState) : Prop :=
  ∃ us, s.tokens = us ++ s'.tokens ∧ ∀ vs,
    ReadsAll close (s.moved f file (us ++ vs)) (Expression.relabelAll (.renumber f) es)
      (s'.moved f file vs)

/-- The first token that a reader takes comes first whatever the tail is. -/
theorem Reads.head_append {r : Reader} {s s' : ParserState} {e : Expression} {us : List Token}
    (h : Reads r s e s') (hleast : r.least = 1) (hus : s.tokens = us ++ s'.tokens)
    (vs : List Token) : (us ++ vs).head? = s.tokens.head? := by
  cases us with
  | nil =>
    have hlength := h.length
    rw [hus, hleast] at hlength
    exact absurd hlength (Nat.not_succ_le_self _)
  | cons t us =>
    rw [hus]
    rfl

section

variable {f : UInt32 → UInt32} {file : String}

mutual

/-- **A reading can be moved.** -/
theorem Reads.movable {r : Reader} {s s' : ParserState} {e : Expression} :
    Reads r s e s' → ParserState.Shifts f → Movable f file r s e s'
  | .assignment_plain h hop, hf => by
    obtain ⟨us, hus, hread⟩ := h.movable hf
    refine ⟨us, hus, fun vs hvs => ?_⟩
    have hhead : vs.head? = s'.tokens.head? := hvs.head rfl
    refine .assignment_plain (hread vs (Or.inl hhead)) ?_
    rw [kind?_moved hhead]
    exact hop
  | @Reads.assignment _ s₁ s₂ target value t ts op h ht hop hassign hvalue, hf => by
    obtain ⟨us, hus, hread⟩ := h.movable hf
    obtain ⟨us', hus', hread'⟩ := hvalue.movable hf
    refine ⟨us ++ t :: us', taken_append hus ht hus', fun vs hvs => ?_⟩
    have htarget := hread (t :: us' ++ vs) (follows_of_tokens ht)
    have hassigned := Reads.assignment htarget rfl hop
      (by rw [Expression.isAssignable_renumber]; exact hassign) (hread' vs hvs)
    rw [Expression.span_renumber, Expression.span_renumber] at hassigned
    rw [List.append_assoc, hf.moved_grown]
    exact hassigned
  | .conditional_plain h hq, hf => by
    obtain ⟨us, hus, hread⟩ := h.movable hf
    refine ⟨us, hus, fun vs hvs => ?_⟩
    have hhead : vs.head? = s'.tokens.head? := hvs.head rfl
    refine .conditional_plain (hread vs (Or.inl hhead)) ?_
    rw [kind?_moved hhead]
    exact hq
  | @Reads.conditional _ s₁ s₂ s₃ condition yes no t u ts us h ht hq hyes hu hcolon hno, hf => by
    obtain ⟨us₁, hus₁, hread₁⟩ := h.movable hf
    obtain ⟨us₂, hus₂, hread₂⟩ := hyes.movable hf
    obtain ⟨us₃, hus₃, hread₃⟩ := hno.movable hf
    refine ⟨(us₁ ++ t :: us₂) ++ u :: us₃, taken_append (taken_append hus₁ ht hus₂) hu hus₃,
      fun vs hvs => ?_⟩
    have hchosen := Reads.conditional (hread₁ (t :: us₂ ++ (u :: us₃ ++ vs)) (follows_of_tokens ht))
      rfl hq (hread₂ (u :: us₃ ++ vs) (follows_of_tokens hu)) rfl hcolon (hread₃ vs hvs)
    rw [Expression.span_renumber, Expression.span_renumber] at hchosen
    rw [List.append_assoc, List.append_assoc, hf.moved_grown]
    exact hchosen
  | .binary h hclimb, hf => by
    obtain ⟨us₁, hus₁, hread₁⟩ := h.movable hf
    obtain ⟨us₂, hus₂, hread₂⟩ := hclimb.movable hf
    refine ⟨us₁ ++ us₂, by rw [hus₁, hus₂, List.append_assoc], fun vs hvs => ?_⟩
    rw [List.append_assoc]
    refine .binary (hread₁ (us₂ ++ vs) ?_) (hread₂ vs hvs)
    rw [hus₂]
    exact hvs.append nofun us₂
  | .climb_stop h, _ => by
    refine ⟨[], rfl, fun vs hvs => .climb_stop ?_⟩
    have hhead : vs.head? = s.tokens.head? := hvs.head rfl
    show ∀ op ∈ (s.moved f file vs).kind?.bind BinaryOp.ofOperand?, _
    rw [kind?_moved hhead]
    exact h
  | @Reads.climb_step _ s₁ _ least left right _ t ts op ht hop hleast hright hclimb, hf => by
    obtain ⟨us₁, hus₁, hread₁⟩ := hright.movable hf
    obtain ⟨us₂, hus₂, hread₂⟩ := hclimb.movable hf
    have htaken : s.tokens = (t :: us₁) ++ (us₂ ++ s'.tokens) := by
      rw [ht, List.cons_append, ← hus₂]
      exact congrArg (t :: ·) hus₁
    refine ⟨(t :: us₁) ++ us₂, by rw [htaken, List.append_assoc], fun vs hvs => ?_⟩
    have hread := hread₂ vs hvs
    rw [hf.moved_grown] at hread
    rw [List.append_assoc]
    refine .climb_step rfl hop hleast (hread₁ (us₂ ++ vs) ?_) ?_
    · rw [← grown_tokens, hus₂]
      exact hvs.append nofun us₂
    · rw [Expression.span_renumber, Expression.span_renumber]
      exact hread
  | .unary_plain hop h, hf => by
    obtain ⟨us, hus, hread⟩ := h.movable hf
    refine ⟨us, hus, fun vs hvs => .unary_plain ?_ (hread vs hvs)⟩
    rw [kind?_moved (h.head_append rfl hus vs)]
    exact hop
  | @Reads.unary _ s₁ operand t ts op ht hop h, hf => by
    obtain ⟨us, hus, hread⟩ := h.movable hf
    refine ⟨t :: us, ht.trans (congrArg (t :: ·) hus), fun vs hvs => ?_⟩
    rw [hf.moved_grown]
    exact .unary (s := s.moved f file (t :: us ++ vs)) rfl hop (hread vs hvs)
  | .trailing_plain h hop, hf => by
    obtain ⟨us, hus, hread⟩ := h.movable hf
    exact ⟨us, hus, fun vs hvs => .trailing_plain (hread vs hvs) (trailingOp?_moved hvs hop)⟩
  | @Reads.trailing _ s₁ operand t ts op h ht hop, hf => by
    obtain ⟨us, hus, hread⟩ := h.movable hf
    refine ⟨us ++ [t], taken_append hus ht rfl, fun vs _ => ?_⟩
    have hop' : trailingOp? (s₁.moved f file (t :: vs)) = some op := by
      unfold trailingOp? at hop
      rw [ht] at hop
      exact hop
    have hoperand := hread (t :: vs) (follows_of_tokens ht)
    have hread' := Reads.trailing hoperand rfl hop'
    rw [Expression.span_renumber] at hread'
    rw [List.append_assoc, hf.moved_grown]
    exact hread'
  | .call h hsuffixes, hf => by
    obtain ⟨us₁, hus₁, hread₁⟩ := h.movable hf
    obtain ⟨us₂, hus₂, hread₂⟩ := hsuffixes.movable hf
    refine ⟨us₁ ++ us₂, by rw [hus₁, hus₂, List.append_assoc], fun vs hvs => ?_⟩
    rw [List.append_assoc]
    refine .call (hread₁ (us₂ ++ vs) ?_) (hread₂ vs hvs)
    rw [hus₂]
    exact hvs.append (fun _ => rfl) us₂
  | .head_new hk h, hf => by
    obtain ⟨us, hus, hread⟩ := h.movable hf
    refine ⟨us, hus, fun vs hvs => .head_new ?_ (hread vs hvs)⟩
    rw [kind?_moved (h.head_append rfl hus vs)]
    exact hk
  | .head_primary hk h, hf => by
    obtain ⟨us, hus, hread⟩ := h.movable hf
    refine ⟨us, hus, fun vs hvs => .head_primary ?_ (hread vs hvs)⟩
    rw [kind?_moved (h.head_append rfl hus vs)]
    exact hk
  | @Reads.construction _ s₁ s₂ s₃ head callee arguments t u ts us ht hnew h hcallee hu hparen
      harguments, hf => by
    obtain ⟨us₁, hus₁, hread₁⟩ := h.movable hf
    obtain ⟨us₂, hus₂, hread₂⟩ := hcallee.movable hf
    obtain ⟨us₃, hus₃, hread₃⟩ := harguments.movable hf
    have htaken : s.tokens = (t :: us₁ ++ us₂) ++ s₂.tokens := by
      rw [ht, List.append_assoc, List.cons_append, ← hus₂]
      exact congrArg (t :: ·) hus₁
    refine ⟨(t :: us₁ ++ us₂) ++ u :: us₃, taken_append htaken hu hus₃, fun vs _ => ?_⟩
    rw [List.append_assoc, List.append_assoc, hf.moved_grown]
    refine .construction (s := s.moved f file (t :: us₁ ++ (us₂ ++ (u :: us₃ ++ vs)))) rfl hnew
      (hread₁ (us₂ ++ (u :: us₃ ++ vs)) ?_)
      (hread₂ (u :: us₃ ++ vs) (follows_of_tokens hu)) rfl hparen (hread₃ vs)
    rw [hus₂]
    exact (follows_of_tokens (r := .head) hu).append id us₂
  | @Reads.construction_bare _ s₁ s₂ head callee t ts ht hnew h hcallee hparen, hf => by
    obtain ⟨us₁, hus₁, hread₁⟩ := h.movable hf
    obtain ⟨us₂, hus₂, hread₂⟩ := hcallee.movable hf
    have htaken : s.tokens = (t :: us₁ ++ us₂) ++ s₂.tokens := by
      rw [ht, List.append_assoc, List.cons_append, ← hus₂]
      exact congrArg (t :: ·) hus₁
    refine ⟨t :: us₁ ++ us₂, htaken, fun vs hvs => ?_⟩
    rw [List.append_assoc, hf.moved_grown]
    refine .construction_bare (s := s.moved f file (t :: us₁ ++ (us₂ ++ vs))) rfl hnew
      (hread₁ (us₂ ++ vs) ?_)
      (hread₂ vs (hvs.imp_right (And.imp_left fun _ => rfl))) ?_
    · rw [hus₂]
      exact Follows.append hvs (fun _ => rfl) us₂
    · rcases hvs with hhead | ⟨-, hends⟩
      · rw [kind?_moved (s := s₂) hhead]
        exact hparen
      · intro hk
        obtain ⟨t, ht, hk⟩ := Option.map_eq_some_iff.1 hk
        exact (hends t ht).2.2.1 hk
  | .suffixes_stop h, _ => ⟨[], rfl, fun _ hvs => .suffixes_stop (endsChain_moved hvs h)⟩
  | @Reads.member _ _ calls head _ t u ts property ht hdot hu h, hf => by
    obtain ⟨us, hus, hread⟩ := h.movable hf
    refine ⟨t :: u :: us, ht.trans (congrArg (fun ws => t :: u :: ws) hus), fun vs hvs => ?_⟩
    have hlonger := hread vs hvs
    rw [hf.moved_grown] at hlonger
    refine .member rfl hdot hu ?_
    rw [Expression.span_renumber]
    exact hlonger
  | @Reads.index _ s₁ _ calls head position _ t u ts us ht hopen hposition hu hclose h, hf => by
    obtain ⟨us₁, hus₁, hread₁⟩ := hposition.movable hf
    obtain ⟨us₂, hus₂, hread₂⟩ := h.movable hf
    have htaken : s.tokens = (t :: us₁) ++ s₁.tokens := ht.trans (congrArg (t :: ·) hus₁)
    refine ⟨(t :: us₁) ++ u :: us₂, taken_append htaken hu hus₂, fun vs hvs => ?_⟩
    have hlonger := hread₂ vs hvs
    rw [hf.moved_grown] at hlonger
    rw [List.append_assoc]
    refine .index rfl hopen (hread₁ (u :: us₂ ++ vs) (follows_of_tokens hu)) rfl hclose ?_
    rw [Expression.span_renumber]
    exact hlonger
  | @Reads.arguments _ s₁ _ head _ arguments t ts ht hopen harguments h, hf => by
    obtain ⟨us₁, hus₁, hread₁⟩ := harguments.movable hf
    obtain ⟨us₂, hus₂, hread₂⟩ := h.movable hf
    have htaken : s.tokens = (t :: us₁) ++ (us₂ ++ s'.tokens) := by
      rw [ht, List.cons_append, ← hus₂]
      exact congrArg (t :: ·) hus₁
    refine ⟨(t :: us₁) ++ us₂, by rw [htaken, List.append_assoc], fun vs hvs => ?_⟩
    have hlonger := hread₂ vs hvs
    rw [hf.moved_grown] at hlonger
    rw [List.append_assoc]
    refine .arguments rfl hopen (hread₁ (us₂ ++ vs)) ?_
    rw [Expression.span_renumber]
    exact hlonger
  | @Reads.number _ t ts raw ht hk, hf =>
    ⟨[t], ht, fun vs _ => hf.moved_grown (s := s.past t ts) file vs ▸ .number rfl hk⟩
  | @Reads.string _ t ts value raw quote ht hk, hf =>
    ⟨[t], ht, fun vs _ => hf.moved_grown (s := s.past t ts) file vs ▸ .string rfl hk⟩
  | @Reads.boolean _ t ts value ht hk, hf =>
    ⟨[t], ht, fun vs _ => hf.moved_grown (s := s.past t ts) file vs ▸ .boolean rfl hk⟩
  | @Reads.null _ t ts ht hk, hf =>
    ⟨[t], ht, fun vs _ => hf.moved_grown (s := s.past t ts) file vs ▸ .null rfl hk⟩
  | @Reads.identifier _ t ts name ht hk, hf =>
    ⟨[t], ht, fun vs _ => hf.moved_grown (s := s.past t ts) file vs ▸ .identifier rfl hk⟩
  | @Reads.group _ s₁ _ t u ts us ht hk h hu hclose, hf => by
    obtain ⟨us₁, hus₁, hread₁⟩ := h.movable hf
    have htaken : s.tokens = (t :: us₁) ++ s₁.tokens := ht.trans (congrArg (t :: ·) hus₁)
    refine ⟨(t :: us₁) ++ [u], taken_append htaken hu rfl, fun vs _ => ?_⟩
    rw [List.append_assoc]
    exact .group (s := s.moved f file (t :: us₁ ++ u :: vs)) rfl hk
      (hread₁ (u :: vs) (follows_of_tokens hu)) rfl hclose
  | @Reads.array _ s₁ elements t ts ht hk h, hf => by
    obtain ⟨us, hus, hread⟩ := h.movable hf
    refine ⟨t :: us, ht.trans (congrArg (t :: ·) hus), fun vs _ => ?_⟩
    rw [hf.moved_grown]
    exact .array (s := s.moved f file (t :: us ++ vs)) rfl hk (hread vs)

theorem ReadsAll.movable {close : Symbol} {s s' : ParserState} {es : List Expression} :
    ReadsAll close s es s' → ParserState.Shifts f → MovableAll f file close s es s'
  | @ReadsAll.close _ _ t ts ht hk, _ => ⟨[t], ht, fun _ => .close rfl hk⟩
  | @ReadsAll.last _ s₁ _ e t ts hk h hcomma ht hclose, hf => by
    obtain ⟨us, hus, hread⟩ := h.movable hf
    refine ⟨us ++ [t], taken_append hus ht rfl, fun vs => ?_⟩
    rw [List.append_assoc]
    refine .last ?_ (hread (t :: vs) (follows_of_tokens ht)) ?_ rfl hclose
    · rw [kind?_moved (h.head_append rfl hus (t :: vs))]
      exact hk
    · rw [kind?_moved (by rw [ht]; rfl)]
      exact hcomma
  | @ReadsAll.more _ s₁ _ _ e es t ts hk h ht hcomma hrest, hf => by
    obtain ⟨us, hus, hread⟩ := h.movable hf
    obtain ⟨us', hus', hread'⟩ := hrest.movable hf
    refine ⟨us ++ t :: us', taken_append hus ht hus', fun vs => ?_⟩
    rw [List.append_assoc]
    refine .more ?_ (hread (t :: us' ++ vs) (follows_of_tokens ht)) rfl hcomma (hread' vs)
    rw [kind?_moved (h.head_append rfl hus (t :: us' ++ vs))]
    exact hk

end

end

/-- Where the last token ended plays no part in a reading that takes a token. -/
theorem Reads.restart {r : Reader} {s s' : ParserState} {e : Expression} (l : Location) :
    Reads r s e s' → r.least = 1 → Reads r { s with lastEnd := l } e s'
  | .assignment_plain h hop, _ => .assignment_plain (h.restart l rfl) hop
  | .assignment h ht hop hassign hvalue, _ => .assignment (h.restart l rfl) ht hop hassign hvalue
  | .conditional_plain h hq, _ => .conditional_plain (h.restart l rfl) hq
  | .conditional h ht hq hyes hu hcolon hno, _ =>
    .conditional (h.restart l rfl) ht hq hyes hu hcolon hno
  | .binary h hclimb, _ => .binary (h.restart l rfl) hclimb
  | .unary_plain hop h, _ => .unary_plain hop (h.restart l rfl)
  | .unary ht hop h, _ => .unary (s := { s with lastEnd := l }) ht hop h
  | .trailing_plain h hop, _ => .trailing_plain (h.restart l rfl) hop
  | .trailing h ht hop, _ => .trailing (h.restart l rfl) ht hop
  | .call h hsuffixes, _ => .call (h.restart l rfl) hsuffixes
  | .head_new hk h, _ => .head_new hk (h.restart l rfl)
  | .head_primary hk h, _ => .head_primary hk (h.restart l rfl)
  | .construction ht hnew h hcallee hu hparen harguments, _ =>
    .construction (s := { s with lastEnd := l }) ht hnew h hcallee hu hparen harguments
  | .construction_bare ht hnew h hcallee hparen, _ =>
    .construction_bare (s := { s with lastEnd := l }) ht hnew h hcallee hparen
  | .number ht hk, _ => .number (s := { s with lastEnd := l }) ht hk
  | .string ht hk, _ => .string (s := { s with lastEnd := l }) ht hk
  | .boolean ht hk, _ => .boolean (s := { s with lastEnd := l }) ht hk
  | .null ht hk, _ => .null (s := { s with lastEnd := l }) ht hk
  | .identifier ht hk, _ => .identifier (s := { s with lastEnd := l }) ht hk
  | .group ht hk h hu hclose, _ => .group (s := { s with lastEnd := l }) ht hk h hu hclose
  | .array ht hk h, _ => .array (s := { s with lastEnd := l }) ht hk h
  | .climb_stop _, h | .climb_step _ _ _ _ _, h | .suffixes_stop _, h | .member _ _ _ _, h
  | .index _ _ _ _ _ _, h | .arguments _ _ _ _, h => nomatch h

/-! ## Operands -/

/-- In front of `rest`, the reader of operands takes exactly `us`. -/
def TakesWhole (us rest : List Token) : Prop :=
  ∃ s e s', s.tokens = us ++ rest ∧ unary s = .ok e s' ∧ s'.tokens = rest

variable {us rest vs : List Token} {s s' : ParserState} {e : Expression}

/-- **What is an operand in one place is one in every other place**, if it does not go on there. -/
theorem TakesWhole.reads (h : TakesWhole us rest) (hvs : Follows .unary rest vs)
    (hs : s.tokens = us ++ vs) : ∃ e s', Reads .unary s e s' ∧ s'.tokens = vs := by
  obtain ⟨s₀, e, s₀', hs₀, hread, rfl⟩ := h
  -- ids from that of `s₀` on are moved to that of `s`
  let f : UInt32 → UInt32 := fun i => i - s₀.nextId + s.nextId
  have hf : ParserState.Shifts f := by
    intro i
    show i + 1 - s₀.nextId + s.nextId = i - s₀.nextId + s.nextId + 1
    grind
  have hmovable : Movable f s.file .unary s₀ e s₀' := (unary_eq_ok.1 hread).movable hf
  obtain ⟨us', hus', hmoved⟩ := hmovable
  obtain rfl : us' = us := List.append_cancel_right (hus'.symm.trans hs₀)
  refine ⟨e.renumber f, s₀'.moved f s.file vs, ?_, rfl⟩
  have hstart : { s₀.moved f s.file (us' ++ vs) with lastEnd := s.lastEnd } = s := by
    unfold ParserState.moved
    rw [← hs]
    show ParserState.mk _ _ _ (s₀.nextId - s₀.nextId + s.nextId) = s
    rw [UInt32.sub_self, UInt32.zero_add]
  have hrestarted := (hmoved vs hvs).restart s.lastEnd rfl
  rw [hstart] at hrestarted
  exact hrestarted

/-- An operand that is read in front of other tokens is read to the same end without them. -/
theorem Reads.alone (h : Reads .unary s e s') (hs : s.tokens = us ++ s'.tokens) :
    Reads .unary { s with tokens := us } e { s' with tokens := [] } := by
  have hmovable : Movable id s.file .unary s e s' := h.movable fun _ => rfl
  obtain ⟨us', hus', hmoved⟩ := hmovable
  obtain rfl : us' = us := List.append_cancel_right (hus'.symm.trans hs)
  have hread := hmoved [] (Or.inr ⟨rfl, nofun⟩)
  unfold Expression.renumber at hread
  rw [Expression.renumber_id, List.append_nil] at hread
  have hfile : s'.moved id s.file [] = { s' with tokens := [] } := by
    unfold ParserState.moved
    rw [← h.leads.file]
    rfl
  rw [hfile] at hread
  exact hread

end Parse

end DecimalLift
