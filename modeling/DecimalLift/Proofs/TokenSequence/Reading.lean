import DecimalLift.Proofs.RoundTrip.Source
import DecimalLift.Proofs.TokenSequence.Layout

/-!
# Readers keep the tokens

What a reader takes from a queue is what is left of the layout of the tree it returns: grouping
apart, no token is dropped, added or moved.

* `ParserState.core` — what is left of the tokens of a queue.
* `Reads.core`, `ReadsAll.core` — for expressions. The two loops hold an expression already, so what
  they hold stands in front of the queue.
* `ReadsType.core` — for ascriptions, whose closing angles may be halves of a token.
-/

set_option autoImplicit false

namespace DecimalLift

open TokenKind (coreOf)

/-! ## Queues -/

namespace ParserState

def kinds (s : ParserState) : List TokenKind := s.tokens.map (·.kind)

/-- What is left of the tokens of a queue. -/
def core (s : ParserState) : List TokenKind := coreOf s.kinds

variable {s s' : ParserState}

theorem core_of_tokens {k : TokenKind} {t : Token} {ts : List Token} (ht : s.tokens = t :: ts)
    (hk : t.kind = k) : s.core = k.core ++ (s.past t ts).core := by
  simp only [core, kinds, ht, List.map_cons, TokenKind.coreOf_cons, hk, past_tokens]

theorem core_of_two {k l : TokenKind} {t u : Token} {ts : List Token}
    (ht : s.tokens = t :: u :: ts) (hk : t.kind = k) (hu : u.kind = l) :
    s.core = k.core ++ (l.core ++ (s.past u ts).core) := by
  simp only [core, kinds, ht, List.map_cons, TokenKind.coreOf_cons, hk, hu, past_tokens]

@[simp] theorem core_grown (s : ParserState) : s.grown.core = s.core := rfl

theorem Takes.kinds {k : TokenKind} (h : s.Takes k s') : s.kinds = k :: s'.kinds := by
  obtain ⟨t, ts, ht, hk, rfl⟩ := h
  simp only [ParserState.kinds, ht, List.map_cons, hk, past_tokens]

theorem Takes.core {k : TokenKind} (h : s.Takes k s') : s.core = k.core ++ s'.core := by
  simp only [ParserState.core, h.kinds, TokenKind.coreOf_cons]

/-- Of a token `>>` one half is taken and the other one is left. -/
theorem Closes.core (h : s.Closes s') : s.core = .symbol .greater :: s'.core := by
  cases h with
  | whole ht hk => exact core_of_tokens ht hk
  | half ht hk =>
    simp only [ParserState.core, ParserState.kinds, ht, List.map_cons, TokenKind.coreOf_cons, hk]
    rfl

end ParserState

/-- The kinds in a queue are those of its text without line ends and comments. -/
theorem kinds_ofTokens (ts : List Token) (file : String) :
    (ParserState.ofTokens ts file).kinds = (ts.map (·.kind)).filter (·.trivia?.isNone) := by
  have hsignificant : ∀ broken, (significant broken ts).map (·.kind) =
      (ts.map (·.kind)).filter (·.trivia?.isNone) := by
    induction ts with
    | nil => exact fun _ => rfl
    | cons t ts ih =>
      intro broken
      simp only [significant, List.map_cons, List.filter_cons]
      cases htrivia : t.kind.trivia? with
      | some breaks => simp [ih]
      | none => simp [ih]
  exact hsignificant false

/-- Line ends and comments leave nothing, so a queue leaves what its text leaves. -/
theorem core_ofTokens (ts : List Token) (file : String) :
    (ParserState.ofTokens ts file).core = coreOf (ts.map (·.kind)) := by
  rw [ParserState.core, kinds_ofTokens]
  exact TokenKind.coreOf_filter_trivia _

/-! ## Operators -/

theorem BinaryOp.kind_of_ofAssignment? {k : TokenKind} {op : BinaryOp}
    (h : ofAssignment? k = some op) : k = .symbol op.symbol := by
  cases k with
  | symbol y => rw [symbol_of_ofSymbol? (Option.filter_eq_some_iff.1 h).1]
  | _ => cases h

theorem UnaryOp.kind_of_ofLeading? {k : TokenKind} {op : UnaryOp} (h : ofLeading? k = some op) :
    k = op.token ∧ op.isTrailing = false := by
  unfold ofLeading? at h
  split at h <;> cases h <;> exact ⟨rfl, rfl⟩

theorem UnaryOp.kind_of_ofTrailing? {k : TokenKind} {op : UnaryOp} (h : ofTrailing? k = some op) :
    k = op.token ∧ op.isTrailing = true := by
  unfold ofTrailing? at h
  split at h <;> cases h <;> exact ⟨rfl, rfl⟩

namespace Parse

open ParserState (core_of_tokens core_of_two)

variable {s s' : ParserState}

theorem kind_of_trailingOp? {t : Token} {ts : List Token} {op : UnaryOp} (ht : s.tokens = t :: ts)
    (h : trailingOp? s = some op) : t.kind = op.token ∧ op.isTrailing = true := by
  simp only [trailingOp?, ht, List.head?_cons, Option.bind_some] at h
  split at h
  · cases h
  · exact UnaryOp.kind_of_ofTrailing? h

/-! ## Expressions -/

/-- What is left of the expression that a reader holds already. -/
def Reader.held : Reader → List TokenKind
  | .climb _ left => left.core
  | .suffixes _ chain => chain.core
  | _ => []

mutual

/-- **A reader of expressions keeps the tokens**: what it holds and what it meets are left of what
it returns and of what it leaves. -/
theorem Reads.core {r : Reader} {s s' : ParserState} {e : Expression} :
    Reads r s e s' → r.held ++ s.core = e.core ++ s'.core
  | .assignment_plain h _ | .conditional_plain h _ | .unary_plain _ h | .trailing_plain h _
  | .head_new _ h | .head_primary _ h => h.core
  | .assignment h ht hop _ hvalue => by
    have htarget := h.core
    have hoperator := core_of_tokens ht (BinaryOp.kind_of_ofAssignment? hop)
    have hright := hvalue.core
    simp only [Reader.held, List.nil_append] at htarget hright ⊢
    rw [htarget, hoperator, hright, Expression.core_binary]
    simp only [List.append_assoc, ParserState.core_grown]
  | .conditional h ht hq hyes hu hcolon hno => by
    have hcondition := h.core
    have hmark := core_of_tokens ht hq
    have hfirst := hyes.core
    have hmark' := core_of_tokens hu hcolon
    have hsecond := hno.core
    simp only [Reader.held, List.nil_append] at hcondition hfirst hsecond ⊢
    rw [hcondition, hmark, hfirst, hmark', hsecond, Expression.core_conditional]
    simp [TokenKind.core]
  | .binary h hclimb => by
    have hleft := h.core
    simp only [Reader.held, List.nil_append] at hleft ⊢
    rw [hleft]
    exact hclimb.core
  | .climb_stop _ | .suffixes_stop _ => rfl
  | .climb_step ht hop _ hright hclimb => by
    have hoperator := core_of_tokens ht (BinaryOp.kind_of_ofOperand? hop)
    have hoperand := hright.core
    have hrest := hclimb.core
    simp only [Reader.held, List.nil_append, Expression.core_binary, ParserState.core_grown,
      List.append_assoc] at hoperand hrest ⊢
    rw [hoperator, hoperand, hrest]
  | .unary ht hop h => by
    obtain ⟨hk, hleading⟩ := UnaryOp.kind_of_ofLeading? hop
    have hoperator := core_of_tokens ht hk
    have hoperand := h.core
    simp only [Reader.held, List.nil_append] at hoperand ⊢
    rw [hoperator, hoperand, Expression.core_leading _ hleading, List.append_assoc]
    rfl
  | .trailing h ht hop => by
    obtain ⟨hk, htrailing⟩ := kind_of_trailingOp? ht hop
    have hoperand := h.core
    have hoperator := core_of_tokens ht hk
    simp only [Reader.held, List.nil_append] at hoperand ⊢
    rw [hoperand, hoperator, Expression.core_trailing _ htrailing, List.append_assoc]
    rfl
  | .call h hsuffixes => by
    have hhead := h.core
    simp only [Reader.held, List.nil_append] at hhead ⊢
    rw [hhead]
    exact hsuffixes.core
  | .construction ht hnew h hcallee hu hparen harguments => by
    have hword := core_of_tokens ht hnew
    have hhead := h.core
    have hchain := hcallee.core
    have hopen := core_of_tokens hu hparen
    have hall := harguments.core
    simp only [Reader.held, List.nil_append] at hhead hchain ⊢
    rw [hword, hhead, hchain, hopen, hall, Expression.core_construct]
    simp [TokenKind.core]
  | .construction_bare ht hnew h hcallee _ => by
    have hword := core_of_tokens ht hnew
    have hhead := h.core
    have hchain := hcallee.core
    simp only [Reader.held, List.nil_append] at hhead hchain ⊢
    rw [hword, hhead, hchain, Expression.core_construct]
    simp
  | .member ht hdot hu h => by
    have hproperty := core_of_two ht hdot hu
    have hrest := h.core
    simp only [Reader.held, Expression.core_member, ParserState.core_grown] at hrest ⊢
    rw [hproperty, ← hrest]
    simp [TokenKind.core]
  | .index ht hopen hposition hu hclose h => by
    have hbracket := core_of_tokens ht hopen
    have hinner := hposition.core
    have hbracket' := core_of_tokens hu hclose
    have hrest := h.core
    simp only [Reader.held, List.nil_append, Expression.core_index, ParserState.core_grown]
      at hinner hrest ⊢
    rw [hbracket, hinner, hbracket', ← hrest]
    simp [TokenKind.core]
  | .arguments ht hopen harguments h => by
    have hparen := core_of_tokens ht hopen
    have hall := harguments.core
    have hrest := h.core
    simp only [Reader.held, Expression.core_call, ParserState.core_grown] at hrest ⊢
    rw [hparen, hall, ← hrest]
    simp [TokenKind.core]
  | .number ht hk | .string ht hk | .boolean ht hk | .null ht hk | .identifier ht hk =>
    core_of_tokens ht hk
  | .group ht hk h hu hclose => by
    have hopen := core_of_tokens ht hk
    have hinner := h.core
    have hparen := core_of_tokens hu hclose
    simp only [Reader.held, List.nil_append] at hinner ⊢
    rw [hopen, hinner, hparen]
    rfl
  | .array ht hk h => by
    have hopen := core_of_tokens ht hk
    have hall := h.core
    simp only [Reader.held, List.nil_append]
    rw [hopen, hall, Expression.core_array]
    simp [TokenKind.core]

/-- Of the expressions between commas the commas are not left; the closing symbol may be. -/
theorem ReadsAll.core {close : Symbol} {s s' : ParserState} {es : List Expression} :
    ReadsAll close s es s' →
      s.core = es.flatMap Expression.core ++ ((TokenKind.symbol close).core ++ s'.core)
  | .close ht hk => core_of_tokens ht hk
  | .last _ h _ ht hclose => by
    have hfirst := h.core
    have hend := core_of_tokens ht hclose
    simp only [Reader.held, List.nil_append] at hfirst
    rw [hfirst, hend, List.flatMap_cons, List.flatMap_nil, List.append_nil]
  | .more _ h ht hcomma hrest => by
    have hfirst := h.core
    have hmark := core_of_tokens ht hcomma
    have hmore := hrest.core
    simp only [Reader.held, List.nil_append] at hfirst
    rw [hfirst, hmark, hmore, List.flatMap_cons]
    simp [TokenKind.core]

end

theorem Reads.core_assignment {e : Expression} (h : Reads .assignment s e s') :
    s.core = e.core ++ s'.core :=
  h.core

/-! ## Ascriptions -/

/-- The text is that of a layout of the level, and `ks` is what is left of it. -/
def IsTypeTextOf (level : TypeLevel) (text : String) (ks : List TokenKind) : Prop :=
  ∃ ps, TypePieces level ps ∧ text = Piece.render ps ∧ Piece.core ps = ks

theorem IsTypeTextOf.core {level : TypeLevel} {text : String} {ks : List TokenKind}
    (h : IsTypeTextOf level text ks) : coreOf (ascriptionKinds text) = ks := by
  obtain ⟨ps, hps, rfl, rfl⟩ := h
  exact hps.core_render

/-- What is left of the text that a reader of ascriptions holds already. -/
def TypeReader.Holds (r : TypeReader) (held : List TokenKind) : Prop :=
  match r with
  | .qualifiedTail text | .arrayTail text | .unionTail text => IsTypeTextOf r.level text held
  | .union | .single | .arguments => held = []

/-- **A reader of ascriptions keeps the tokens**, and the text that it returns has them. -/
theorem ReadsType.core {r : TypeReader} {text : String} (h : ReadsType r s text s') :
    s.Spelt → ∀ held, r.Holds held →
      ∃ ks, IsTypeTextOf r.level text ks ∧ held ++ s.core = ks ++ s'.core := by
  induction h with
  | qualified_stop | array_stop | union_stop => exact fun _ held hheld => ⟨held, hheld, rfl⟩
  | qualified_step ht hdot hu _ ih =>
    rintro hs _ ⟨ps, hps, rfl, rfl⟩
    have hs₁ := (ParserState.Leads.refl.andPast ht).spelt hs
    have hname := hs₁.head (ParserState.past_tokens _ _ _) hu (by simp)
    have hs₂ := (ParserState.Leads.refl.andPast (ParserState.past_tokens _ _ _)).spelt hs₁
    obtain ⟨ks, hks, hrest⟩ :=
      ih hs₂ _ ⟨_, .member hps hname, (Piece.render_member ps _).symm, rfl⟩
    refine ⟨ks, hks, ?_⟩
    rw [← hrest, core_of_two ht hdot hu]
    simp [TokenKind.core]
  | array_step ht hopen hclose _ ih =>
    rintro hs _ ⟨ps, hps, rfl, rfl⟩
    have hs₁ := (ParserState.Leads.refl.andPast ht).spelt hs
    have hs₂ := (ParserState.Leads.refl.andPast (ParserState.past_tokens _ _ _)).spelt hs₁
    obtain ⟨ks, hks, hrest⟩ := ih hs₂ _ ⟨_, .array hps, (Piece.render_array ps).symm, rfl⟩
    refine ⟨ks, hks, ?_⟩
    rw [← hrest, core_of_two ht hopen hclose]
    simp [TokenKind.core]
  | union h _ ih ih' =>
    rintro hs _ rfl
    obtain ⟨_, ⟨ps, hps, rfl, rfl⟩, hfirst⟩ := ih hs [] rfl
    obtain ⟨ks, hks, hrest⟩ := ih' (h.skips.leads.spelt hs) _ ⟨ps, .first hps, rfl, rfl⟩
    exact ⟨ks, hks, hfirst.trans hrest⟩
  | union_step ht hpipe h _ ih ih' =>
    rintro hs _ ⟨ps, hps, rfl, rfl⟩
    have hs₁ := (ParserState.Leads.refl.andPast ht).spelt hs
    obtain ⟨_, ⟨qs, hqs, rfl, rfl⟩, hnext⟩ := ih hs₁ [] rfl
    obtain ⟨ks, hks, hrest⟩ :=
      ih' (h.skips.leads.spelt hs₁) _ ⟨_, .union hps hqs, (Piece.render_union ps qs).symm, rfl⟩
    refine ⟨ks, hks, ?_⟩
    rw [List.nil_append] at hnext
    rw [← hrest, core_of_tokens ht hpipe, hnext]
    simp [TokenKind.core]
  | name ht hk h _ _ ih ih' =>
    rintro hs _ rfl
    have hs₁ := (ParserState.Leads.refl.andPast ht).spelt hs
    have hname := hs.head ht hk (by simp)
    obtain ⟨_, ⟨ps, hps, rfl, rfl⟩, hqualified⟩ :=
      ih hs₁ _ ⟨_, .name hname, (Piece.render_name _).symm, rfl⟩
    obtain ⟨ks, hks, hrest⟩ := ih' (h.skips.leads.spelt hs₁) _ ⟨ps, .plain hps, rfl, rfl⟩
    refine ⟨ks, hks, ?_⟩
    rw [← hrest, ← hqualified, core_of_tokens ht hk]
    rfl
  | generic ht hk h hu hless harguments hclose _ ih ih' ih'' =>
    rintro hs _ rfl
    have hs₁ := (ParserState.Leads.refl.andPast ht).spelt hs
    have hname := hs.head ht hk (by simp)
    obtain ⟨_, ⟨ps, hps, rfl, rfl⟩, hqualified⟩ :=
      ih hs₁ _ ⟨_, .name hname, (Piece.render_name _).symm, rfl⟩
    have hs₂ := (h.skips.leads.andPast hu).spelt hs₁
    obtain ⟨_, ⟨qs, hqs, rfl, rfl⟩, hinner⟩ := ih' hs₂ [] rfl
    obtain ⟨ks, hks, hrest⟩ := ih'' ((harguments.skips.leads.trans hclose.skips.leads).spelt hs₂) _
      ⟨_, .generic hps hqs, (Piece.render_generic ps qs).symm, rfl⟩
    refine ⟨ks, hks, ?_⟩
    rw [List.nil_append, hclose.core] at hinner
    rw [core_of_tokens hu hless, hinner] at hqualified
    rw [← hrest, core_of_tokens ht hk]
    refine hqualified.trans ?_
    simp [TokenKind.core]
  | null ht hk _ ih =>
    rintro hs _ rfl
    obtain ⟨ks, hks, hrest⟩ :=
      ih ((ParserState.Leads.refl.andPast ht).spelt hs) _ ⟨_, .null, rfl, rfl⟩
    exact ⟨ks, hks, (core_of_tokens ht hk).trans hrest⟩
  | string ht hk _ ih =>
    rintro hs _ rfl
    obtain ⟨ks, hks, hrest⟩ := ih ((ParserState.Leads.refl.andPast ht).spelt hs) _
      ⟨_, .string (hs.head ht hk (by simp)), by rw [Piece.render_token]; rfl, rfl⟩
    exact ⟨ks, hks, (core_of_tokens ht hk).trans hrest⟩
  | number ht hk _ ih =>
    rintro hs _ rfl
    obtain ⟨ks, hks, hrest⟩ := ih ((ParserState.Leads.refl.andPast ht).spelt hs) _
      ⟨_, .number (hs.head ht hk (by simp)), by rw [Piece.render_token]; rfl, rfl⟩
    exact ⟨ks, hks, (core_of_tokens ht hk).trans hrest⟩
  | group ht hk h hu hclose _ ih ih' =>
    rintro hs _ rfl
    have hs₁ := (ParserState.Leads.refl.andPast ht).spelt hs
    obtain ⟨_, ⟨ps, hps, rfl, rfl⟩, hinner⟩ := ih hs₁ [] rfl
    obtain ⟨ks, hks, hrest⟩ := ih' ((h.skips.leads.andPast hu).spelt hs₁) _
      ⟨_, .group hps, (Piece.render_group ps).symm, rfl⟩
    refine ⟨ks, hks, ?_⟩
    rw [List.nil_append, core_of_tokens hu hclose] at hinner
    rw [← hrest, core_of_tokens ht hk, hinner]
    simp [TokenKind.core]
  | arguments_last _ _ ih =>
    rintro hs _ rfl
    obtain ⟨_, ⟨ps, hps, rfl, rfl⟩, h⟩ := ih hs [] rfl
    exact ⟨_, ⟨ps, .last hps, rfl, rfl⟩, h⟩
  | arguments_more h ht hcomma _ ih ih' =>
    rintro hs _ rfl
    obtain ⟨_, ⟨ps, hps, rfl, rfl⟩, hfirst⟩ := ih hs [] rfl
    obtain ⟨_, ⟨qs, hqs, rfl, rfl⟩, hrest⟩ := ih' ((h.skips.leads.andPast ht).spelt hs) [] rfl
    refine ⟨_, ⟨_, .more hps hqs, (Piece.render_more ps qs).symm, rfl⟩, ?_⟩
    rw [List.nil_append] at hrest
    rw [hfirst, core_of_tokens ht hcomma, hrest]
    simp [TokenKind.core]

/-- The text of an ascription has the tokens that it was read from. -/
theorem ReadsType.core_union {text : String} (h : ReadsType .union s text s') (hs : s.Spelt) :
    s.core = coreOf (ascriptionKinds text) ++ s'.core := by
  obtain ⟨ks, hks, hcore⟩ := h.core hs [] rfl
  rw [hks.core]
  exact hcore

end Parse

end DecimalLift
