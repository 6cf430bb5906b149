import DecimalLift.Proofs.RoundTrip.Statement

/-!
# Programs that were read from a text

Reading a text and writing a program meet at one predicate: what is read has it, and what has it
can be written, unless an operator stands behind another one of its kind.

* `ParserState.Spelt` — the tokens of a queue are spelt as a scanner spells them.
* `Expression.AsRead`, `Statement.AsRead` — what the nodes of a tree that was read keep to.
* `ReadsStatement.asRead`, `Program.asRead` — readers give such trees.
* `parse_render` — a text that is read, laid out and read again gives the program again.
-/

set_option autoImplicit false

namespace DecimalLift

/-! ## Queues -/

namespace ParserState

/-- The tokens of the queue, apart from the end of file, are spelt as a scanner spells them. -/
def Spelt (s : ParserState) : Prop := ∀ t ∈ s.tokens, t.kind ≠ .endOfFile → t.kind.Spelt

variable {s s' : ParserState}

theorem Spelt.head {k : TokenKind} {t : Token} {ts : List Token} (h : s.Spelt)
    (ht : s.tokens = t :: ts) (hk : t.kind = k) (hend : k ≠ .endOfFile) : k.Spelt := by
  subst hk
  exact h t (by simp [ht]) hend

theorem Spelt.takes {k : TokenKind} (h : s.Spelt) (htakes : s.Takes k s') (hend : k ≠ .endOfFile) :
    k.Spelt := by
  obtain ⟨t, ts, ht, hk, -⟩ := htakes
  exact h.head ht hk hend

/-- Readers keep a queue spelt. -/
theorem Leads.spelt (h : s.Leads s') : s.Spelt → s'.Spelt := by
  induction h with
  | refl => exact id
  | past ht _ ih =>
    intro hs
    refine ih fun t htoken => hs t ?_
    rw [ht]
    exact List.mem_cons_of_mem _ htoken
  | half ht _ _ ih =>
    intro hs
    refine ih fun t htoken hend => ?_
    rcases List.mem_cons.1 htoken with rfl | htoken
    · trivial
    · exact hs t (by simp [ht, htoken]) hend
  | grown _ ih => exact fun hs => ih hs

end ParserState

theorem mem_of_mem_significant {t : Token} : ∀ {ts : List Token} {broken : Bool},
    t ∈ significant broken ts → ∃ t' ∈ ts, t'.kind = t.kind ∧ t'.kind.trivia? = none
  | [], _, h => nomatch h
  | t' :: ts, broken, h => by
    unfold significant at h
    split at h
    · obtain ⟨u, hu, hkind⟩ := mem_of_mem_significant h
      exact ⟨u, List.mem_cons_of_mem _ hu, hkind⟩
    · rename_i htrivia
      rcases List.mem_cons.1 h with rfl | h
      · exact ⟨t', List.mem_cons_self, rfl, htrivia⟩
      · obtain ⟨u, hu, hkind⟩ := mem_of_mem_significant h
        exact ⟨u, List.mem_cons_of_mem _ hu, hkind⟩

/-- The queue of a text is spelt. -/
theorem spelt_ofTokens {source file : String} {ts : List Token}
    (h : tokenize source file = .ok ts) : (ParserState.ofTokens ts file).Spelt := by
  intro t ht hend
  obtain ⟨t', ht', hkind, htrivia⟩ := mem_of_mem_significant ht
  rw [← hkind] at hend ⊢
  exact spelt_of_tokens h t' ht' htrivia hend

/-! ## Expressions -/

/-- What one node of an expression that was read keeps to. -/
def Expression.AsRead : Expression → Prop
  | .number _ raw => (TokenKind.number raw).Spelt
  | .string _ value quote raw => ∃ text, raw = some text ∧ (TokenKind.string value quote text).Spelt
  | .identifier _ name => (TokenKind.identifier name).Spelt
  | .member _ _ property => (TokenKind.identifier property).Spelt
  | .binary _ op target _ => op.isAssignment = true → target.isAssignable = true
  | _ => True

/-- What one statement that was read keeps to. -/
def Statement.AsRead : Statement → Prop
  | .imports _ d => d.Written ∧ d.rawName.isSome = true
  | s => s.Shaped ∧ ∀ e ∈ s.own, e.All Expression.AsRead

namespace Parse

variable {s s' : ParserState}

/-- What a reader is given keeps to `P`. -/
def Reader.Given (P : Expression → Prop) : Reader → Prop
  | .climb _ left => left.All P
  | .suffixes _ chain => chain.All P
  | _ => True

mutual

/-- **Every node of an expression that was read is as it was read.** -/
theorem Reads.asRead {r : Reader} {s s' : ParserState} {e : Expression} :
    Reads r s e s' → s.Spelt → r.Given Expression.AsRead → e.All Expression.AsRead
  | .assignment_plain h _, hs, _ => h.asRead hs trivial
  | .assignment h ht _ hassign hvalue, hs, _ =>
    ⟨fun _ => hassign, h.asRead hs trivial,
      hvalue.asRead ((h.leads.andPast ht).spelt hs) trivial⟩
  | .conditional_plain h _, hs, _ => h.asRead hs trivial
  | .conditional h ht _ hyes hu _ hno, hs, _ =>
    have hs₁ := (h.leads.andPast ht).spelt hs
    ⟨trivial, h.asRead hs trivial, hyes.asRead hs₁ trivial,
      hno.asRead ((hyes.leads.andPast hu).spelt hs₁) trivial⟩
  | .binary h hclimb, hs, _ => hclimb.asRead (h.leads.spelt hs) (h.asRead hs trivial)
  | .climb_stop _, _, hleft => hleft
  | .climb_step ht hop _ hright hclimb, hs, hleft =>
    have hs₁ := (ParserState.Leads.refl.andPast ht).spelt hs
    hclimb.asRead (hright.leads.andGrown.spelt hs₁)
      ⟨fun h => absurd h (by simp [BinaryOp.not_isAssignment_of_ofOperand? hop]), hleft,
        hright.asRead hs₁ trivial⟩
  | .unary_plain _ h, hs, _ => h.asRead hs trivial
  | .unary ht _ h, hs, _ =>
    ⟨trivial, h.asRead ((ParserState.Leads.refl.andPast ht).spelt hs) trivial⟩
  | .trailing_plain h _, hs, _ => h.asRead hs trivial
  | .trailing h _ _, hs, _ => ⟨trivial, h.asRead hs trivial⟩
  | .call h hsuffixes, hs, _ => hsuffixes.asRead (h.leads.spelt hs) (h.asRead hs trivial)
  | .head_new _ h, hs, _ => h.asRead hs trivial
  | .head_primary _ h, hs, _ => h.asRead hs trivial
  | .construction ht _ h hcallee hu _ harguments, hs, _ =>
    have hs₁ := (ParserState.Leads.refl.andPast ht).spelt hs
    have hs₂ := h.leads.spelt hs₁
    ⟨trivial, hcallee.asRead hs₂ (h.asRead hs₁ trivial),
      harguments.asRead ((hcallee.leads.andPast hu).spelt hs₂)⟩
  | .construction_bare ht _ h hcallee _, hs, _ =>
    have hs₁ := (ParserState.Leads.refl.andPast ht).spelt hs
    ⟨trivial, hcallee.asRead (h.leads.spelt hs₁) (h.asRead hs₁ trivial), trivial⟩
  | .suffixes_stop _, _, hhead => hhead
  | .member ht _ hu h, hs, hhead =>
    have hs₁ := (ParserState.Leads.refl.andPast ht).spelt hs
    h.asRead ((ParserState.Leads.refl.andPast (ParserState.past_tokens _ _ _)).andGrown.spelt hs₁)
      ⟨hs₁.head (ParserState.past_tokens _ _ _) hu (by simp), hhead⟩
  | .index ht _ hposition hu _ h, hs, hhead =>
    have hs₁ := (ParserState.Leads.refl.andPast ht).spelt hs
    h.asRead ((hposition.leads.andPast hu).andGrown.spelt hs₁)
      ⟨trivial, hhead, hposition.asRead hs₁ trivial⟩
  | .arguments ht _ harguments h, hs, hhead =>
    have hs₁ := (ParserState.Leads.refl.andPast ht).spelt hs
    h.asRead (harguments.leads.andGrown.spelt hs₁) ⟨trivial, hhead, harguments.asRead hs₁⟩
  | .number ht hk, hs, _ => hs.head ht hk (by simp)
  | .string ht hk, hs, _ => ⟨_, rfl, hs.head ht hk (by simp)⟩
  | .boolean _ _, _, _ | .null _ _, _, _ => trivial
  | .identifier ht hk, hs, _ => hs.head ht hk (by simp)
  | .group ht _ h _ _, hs, _ => h.asRead ((ParserState.Leads.refl.andPast ht).spelt hs) trivial
  | .array ht _ h, hs, _ => ⟨trivial, h.asRead ((ParserState.Leads.refl.andPast ht).spelt hs)⟩

theorem ReadsAll.asRead {close : Symbol} {s s' : ParserState} {es : List Expression} :
    ReadsAll close s es s' → s.Spelt → Expression.AllOf Expression.AsRead es
  | .close _ _, _ => trivial
  | .last _ h _ _ _, hs => ⟨h.asRead hs trivial, trivial⟩
  | .more _ h ht _ hrest, hs =>
    ⟨h.asRead hs trivial, hrest.asRead ((h.leads.andPast ht).spelt hs)⟩

end

/-! ## Ascriptions -/

/-- The text is that of a layout of the level. -/
def IsTypeText (level : TypeLevel) (text : String) : Prop :=
  ∃ ps, TypePieces level ps ∧ text = Piece.render ps

/-- What a reader of ascriptions returns. -/
def TypeReader.level : TypeReader → TypeLevel
  | .qualifiedTail _ => .qualified
  | .arrayTail _ | .single => .single
  | .union | .unionTail _ => .union
  | .arguments => .arguments

/-- What a reader of ascriptions is given is of the level that it returns. -/
def TypeReader.Given (r : TypeReader) : Prop :=
  match r with
  | .qualifiedTail text | .arrayTail text | .unionTail text => IsTypeText r.level text
  | .union | .single | .arguments => True

/-- **The texts of ascriptions that were read are those of layouts.** -/
theorem ReadsType.isTypeText {r : TypeReader} {text : String} (h : ReadsType r s text s') :
    s.Spelt → r.Given → IsTypeText r.level text := by
  induction h with
  | qualified_stop | array_stop | union_stop => exact fun _ hgiven => hgiven
  | qualified_step ht _ hu _ ih =>
    rintro hs ⟨ps, hps, rfl⟩
    have hs₁ := (ParserState.Leads.refl.andPast ht).spelt hs
    have hname := hs₁.head (ParserState.past_tokens _ _ _) hu (by simp)
    have hs₂ := (ParserState.Leads.refl.andPast (ParserState.past_tokens _ _ _)).spelt hs₁
    exact ih hs₂ ⟨_, .member hps hname, (Piece.render_member ps _).symm⟩
  | array_step ht _ _ _ ih =>
    rintro hs ⟨ps, hps, rfl⟩
    have hs₁ := (ParserState.Leads.refl.andPast ht).spelt hs
    have hs₂ := (ParserState.Leads.refl.andPast (ParserState.past_tokens _ _ _)).spelt hs₁
    exact ih hs₂ ⟨_, .array hps, (Piece.render_array ps).symm⟩
  | union h _ ih ih' =>
    intro hs _
    obtain ⟨ps, hps, rfl⟩ := ih hs trivial
    exact ih' (h.skips.leads.spelt hs) ⟨ps, .first hps, rfl⟩
  | union_step ht _ h _ ih ih' =>
    rintro hs ⟨ps, hps, rfl⟩
    have hs₁ := (ParserState.Leads.refl.andPast ht).spelt hs
    obtain ⟨qs, hqs, rfl⟩ := ih hs₁ trivial
    exact ih' (h.skips.leads.spelt hs₁) ⟨_, .union hps hqs, (Piece.render_union ps qs).symm⟩
  | name ht hk h _ _ ih ih' =>
    intro hs _
    have hs₁ := (ParserState.Leads.refl.andPast ht).spelt hs
    have hname := hs.head ht hk (by simp)
    obtain ⟨ps, hps, rfl⟩ := ih hs₁ ⟨_, .name hname, (Piece.render_name _).symm⟩
    exact ih' (h.skips.leads.spelt hs₁) ⟨ps, .plain hps, rfl⟩
  | generic ht hk h hu _ harguments hclose _ ih ih' ih'' =>
    intro hs _
    have hs₁ := (ParserState.Leads.refl.andPast ht).spelt hs
    have hname := hs.head ht hk (by simp)
    obtain ⟨ps, hps, rfl⟩ := ih hs₁ ⟨_, .name hname, (Piece.render_name _).symm⟩
    have hs₂ := (h.skips.leads.andPast hu).spelt hs₁
    obtain ⟨qs, hqs, rfl⟩ := ih' hs₂ trivial
    exact ih'' ((harguments.skips.leads.trans hclose.skips.leads).spelt hs₂)
      ⟨_, .generic hps hqs, (Piece.render_generic ps qs).symm⟩
  | null ht _ _ ih =>
    intro hs _
    exact ih ((ParserState.Leads.refl.andPast ht).spelt hs) ⟨_, .null, rfl⟩
  | string ht hk _ ih =>
    intro hs _
    exact ih ((ParserState.Leads.refl.andPast ht).spelt hs)
      ⟨_, .string (hs.head ht hk (by simp)), by rw [Piece.render_token]; rfl⟩
  | number ht hk _ ih =>
    intro hs _
    exact ih ((ParserState.Leads.refl.andPast ht).spelt hs)
      ⟨_, .number (hs.head ht hk (by simp)), by rw [Piece.render_token]; rfl⟩
  | group ht _ h hu _ _ ih ih' =>
    intro hs _
    have hs₁ := (ParserState.Leads.refl.andPast ht).spelt hs
    obtain ⟨ps, hps, rfl⟩ := ih hs₁ trivial
    exact ih' ((h.skips.leads.andPast hu).spelt hs₁) ⟨_, .group hps, (Piece.render_group ps).symm⟩
  | arguments_last _ _ ih =>
    intro hs _
    obtain ⟨ps, hps, rfl⟩ := ih hs trivial
    exact ⟨ps, .last hps, rfl⟩
  | arguments_more h ht _ _ ih ih' =>
    intro hs _
    obtain ⟨ps, hps, rfl⟩ := ih hs trivial
    obtain ⟨qs, hqs, rfl⟩ := ih' ((h.skips.leads.andPast ht).spelt hs) trivial
    exact ⟨_, .more hps hqs, (Piece.render_more ps qs).symm⟩

theorem ReadsAscribed.writtenType {type : Option String} (h : ReadsAscribed s type s')
    (hs : s.Spelt) : WrittenType type := by
  cases h with
  | none => exact fun _ h => nomatch h
  | some hcolon h =>
    rintro _ ⟨⟩
    exact h.isTypeText (hcolon.leads.spelt hs) trivial

/-! ## Declarations -/

theorem ReadsSpecifiers.written {xs : List ImportSpecifier} (h : ReadsSpecifiers s xs s') :
    s.Spelt → ∀ x ∈ xs, WrittenName x.imported ∧ WrittenName x.bound := by
  have hrenamed : ∀ {imported bound : String} {s s' : ParserState}, s.Spelt →
      WrittenName imported → ReadsRenamed imported s bound s' → WrittenName bound := by
    intro imported bound s s' hs himported h
    cases h with
    | same => exact himported
    | renamed has hbound => exact (has.leads.spelt hs).takes hbound (by simp)
  induction h with
  | close => exact fun _ x hx => nomatch hx
  | last himported hbound _ =>
    intro hs x hx
    obtain rfl := List.mem_singleton.1 hx
    have hname := hs.takes himported (by simp)
    exact ⟨hname, hrenamed (himported.leads.spelt hs) hname hbound⟩
  | more himported hbound hcomma _ ih =>
    intro hs x hx
    have hname := hs.takes himported (by simp)
    have hs₁ := himported.leads.spelt hs
    rcases List.mem_cons.1 hx with rfl | hx
    · exact ⟨hname, hrenamed hs₁ hname hbound⟩
    · exact ih ((hbound.skips.leads.trans hcomma.leads).spelt hs₁) x hx

/-- A clause is added to a declaration that has none. -/
theorem ReadsClause.written {d d' : ImportDeclaration} (h : ReadsClause d s d' s') (hs : s.Spelt)
    (hdefault : ∀ name ∈ d.defaultBinding, WrittenName name) (hscope : d.namespaceBinding = none)
    (hnamed : d.named = []) {value raw : String} {quote : Quote}
    (hmodule : (TokenKind.string value quote raw).Spelt) :
    { d' with moduleName := value, quote := quote, rawName := some raw }.Written := by
  cases h with
  | scope hstar has hname =>
    have hname := ((hstar.leads.trans has.leads).spelt hs).takes hname (by simp)
    refine ⟨hdefault, ?_, by simp [hnamed], Or.inr hnamed, hmodule⟩
    rintro _ ⟨⟩
    exact hname
  | named hopen h _ =>
    exact ⟨hdefault, by simp [hscope], h.written (hopen.leads.spelt hs), Or.inl hscope, hmodule⟩

theorem ReadsBindings.written {d : ImportDeclaration} (h : ReadsBindings noImport s d s')
    (hs : s.Spelt) {value raw : String} {quote : Quote}
    (hmodule : (TokenKind.string value quote raw).Spelt) :
    { d with moduleName := value, quote := quote, rawName := some raw }.Written := by
  cases h with
  | default hname _ =>
    refine ⟨?_, (fun _ h => nomatch h), (fun _ h => nomatch h), Or.inl rfl, hmodule⟩
    rintro _ ⟨⟩
    exact hs.takes hname (by simp)
  | both hname hcomma h _ =>
    refine h.written ((hname.leads.trans hcomma.leads).spelt hs) ?_ rfl rfl hmodule
    rintro _ ⟨⟩
    exact hs.takes hname (by simp)
  | clause h _ => exact h.written hs (fun _ h => nomatch h) rfl rfl hmodule

theorem ReadsImport.written {d : ImportDeclaration} (h : ReadsImport s d s') (hs : s.Spelt) :
    d.Written ∧ d.rawName.isSome = true := by
  cases h with
  | bare himport hname _ =>
    have hmodule := (himport.leads.spelt hs).takes hname (by simp)
    refine ⟨⟨?_, ?_, ?_, Or.inl rfl, hmodule⟩, rfl⟩
    all_goals exact fun _ h => nomatch h
  | bound himport h hname _ =>
    have hs₁ := himport.leads.spelt hs
    exact ⟨h.written hs₁ ((h.skips.leads.spelt hs₁).takes hname (by simp)), rfl⟩

theorem ReadsInitial.asRead {e : Option Expression} (h : ReadsInitial s e s') (hs : s.Spelt) :
    ∀ e' ∈ e, e'.All Expression.AsRead := by
  cases h with
  | none => exact fun _ h => nomatch h
  | some hequal h =>
    rintro _ ⟨⟩
    exact h.asRead (hequal.leads.spelt hs) trivial

theorem ReadsDeclarators.asRead {ds : List Declarator} (h : ReadsDeclarators s ds s') :
    s.Spelt → ds ≠ [] ∧ ∀ d ∈ ds, WrittenName d.name ∧ WrittenType d.ascription ∧
      ∀ e ∈ d.initial, e.All Expression.AsRead := by
  have hone : ∀ {name type initial} {s s₁ s₂ s₃ : ParserState}, s.Spelt →
      s.Takes (.identifier name) s₁ → ReadsAscribed s₁ type s₂ → ReadsInitial s₂ initial s₃ →
      WrittenName name ∧ WrittenType type ∧ ∀ e ∈ initial, e.All Expression.AsRead := by
    intro name type initial s s₁ s₂ s₃ hs hname htype hinitial
    have hs₁ := hname.leads.spelt hs
    exact ⟨hs.takes hname (by simp), htype.writtenType hs₁,
      hinitial.asRead (htype.skips.leads.spelt hs₁)⟩
  induction h with
  | last hname htype hinitial _ =>
    intro hs
    refine ⟨List.cons_ne_nil _ _, fun d hd => ?_⟩
    obtain rfl := List.mem_singleton.1 hd
    exact hone hs hname htype hinitial
  | more hname htype hinitial hcomma _ ih =>
    intro hs
    refine ⟨List.cons_ne_nil _ _, fun d hd => ?_⟩
    rcases List.mem_cons.1 hd with rfl | hd
    · exact hone hs hname htype hinitial
    · have hleads := hname.leads.trans (htype.skips.leads.trans (hinitial.leads.andGrown.trans
        hcomma.leads))
      exact (ih (hleads.spelt hs)).2 d hd

theorem ReadsVariable.asRead {word : DeclarationWord} {ds : List Declarator}
    (h : ReadsVariable s word ds s') (hs : s.Spelt) (n : Node) :
    (Statement.variable n word ds).AsRead := by
  obtain ⟨hword, h⟩ := h
  obtain ⟨hne, hds⟩ := h.asRead (hword.leads.spelt hs)
  refine ⟨⟨hne, fun d hd => ⟨(hds d hd).1, (hds d hd).2.1⟩⟩, fun e he => ?_⟩
  obtain ⟨d, hd, hinitial⟩ := List.mem_filterMap.1 he
  exact (hds d hd).2.2 e hinitial

theorem ReadsParameters.written {ps : List Parameter} (h : ReadsParameters s ps s') :
    s.Spelt → ∀ p ∈ ps, WrittenName p.name ∧ WrittenType p.ascription := by
  induction h with
  | close => exact fun _ p hp => nomatch hp
  | last hname htype _ =>
    intro hs p hp
    obtain rfl := List.mem_singleton.1 hp
    exact ⟨hs.takes hname (by simp), htype.writtenType (hname.leads.spelt hs)⟩
  | more hname htype hcomma _ ih =>
    intro hs p hp
    have hs₁ := hname.leads.spelt hs
    rcases List.mem_cons.1 hp with rfl | hp
    · exact ⟨hs.takes hname (by simp), htype.writtenType hs₁⟩
    · exact ih ((htype.skips.leads.trans hcomma.leads).spelt hs₁) p hp

/-! ## Statements -/

/-- The only expression of a statement. -/
theorem Reads.asRead_only {e : Expression} (h : Reads .assignment s e s') (hs : s.Spelt) :
    ∀ e' ∈ [e], e'.All Expression.AsRead := by
  intro e' he'
  obtain rfl := List.mem_singleton.1 he'
  exact h.asRead hs trivial

theorem ReadsStart.asRead {start : Option Statement} (h : ReadsStart s start s') (hs : s.Spelt) :
    Statement.AllOption Statement.AsRead start ∧ ∀ first ∈ start, first.isStart = true := by
  cases h with
  | none => exact ⟨trivial, fun _ h => nomatch h⟩
  | declared h =>
    refine ⟨h.asRead hs _, ?_⟩
    rintro _ ⟨⟩
    rfl
  | expression h =>
    refine ⟨⟨trivial, h.asRead_only hs⟩, ?_⟩
    rintro _ ⟨⟩
    rfl

theorem ReadsBefore.asRead {close : Symbol} {e : Option Expression} (h : ReadsBefore close s e s')
    (hs : s.Spelt) : ∀ e' ∈ e.toList, e'.All Expression.AsRead := by
  cases h with
  | none => exact fun _ h => nomatch h
  | some _ h => exact h.asRead_only hs

theorem ReadsReturned.asRead {e : Option Expression} (h : ReadsReturned s e s')
    (hs : s.Spelt) : ∀ e' ∈ e.toList, e'.All Expression.AsRead := by
  cases h with
  | none => exact fun _ h => nomatch h
  | some _ h => exact h.asRead_only hs

/-- A statement that would take an `else` is not followed by one. -/
theorem ReadsStatement.not_else : ∀ {st : Statement} {s s' : ParserState},
    ReadsStatement s st s' → st.isOpen = true → s'.kind? ≠ some (.keyword .elseWord)
  | .branch _ _ _ none, _, _, h, _ => by
    cases h with
    | branch _ _ _ _ _ helse => exact helse
  | .branch _ _ _ (some no), _, _, h, hopen => by
    cases h with
    | branch_else _ _ _ _ _ _ hno => exact hno.not_else hopen
  | .whileLoop _ _ body, _, _, h, hopen => by
    cases h with
    | whileLoop _ _ _ _ hbody => exact hbody.not_else hopen
  | .forLoop _ _ _ _ body, _, _, h, hopen => by
    cases h with
    | forLoop _ _ _ _ _ _ _ _ hbody => exact hbody.not_else hopen
  | .imports .., _, _, _, hopen | .variable .., _, _, _, hopen | .function .., _, _, _, hopen
  | .exports .., _, _, _, hopen | .expression .., _, _, _, hopen | .returns .., _, _, _, hopen
  | .block .., _, _, _, hopen | .empty .., _, _, _, hopen => nomatch hopen

mutual

/-- **Every statement of a statement that was read is as it was read.** -/
theorem ReadsStatement.asRead {s s' : ParserState} {st : Statement} :
    ReadsStatement s st s' → s.Spelt → st.All Statement.AsRead
  | .imports h, hs => h.written hs
  | .exports hexport h hinner, hs =>
    ⟨⟨hinner, fun _ h => nomatch h⟩, h.asRead (hexport.leads.spelt hs)⟩
  | .declared h _, hs => h.asRead hs _
  | .function hfunction hname hopen hparameters hclose hresult hbrace hbody _, hs =>
    have hs₁ := hfunction.leads.spelt hs
    have hs₃ := (hname.leads.trans hopen.leads).spelt hs₁
    have hs₅ := (hparameters.skips.leads.trans hclose.leads).spelt hs₃
    ⟨⟨⟨hs₁.takes hname (by simp), hparameters.written hs₃, hresult.writtenType hs₅⟩,
      fun _ h => nomatch h⟩, hbody.asRead ((hresult.skips.leads.trans hbrace.leads).spelt hs₅)⟩
  | .returns hreturn h _, hs => ⟨trivial, h.asRead (hreturn.leads.spelt hs)⟩
  | .branch hif hopen hcondition hclose hyes _, hs =>
    have hs₂ := (hif.leads.trans hopen.leads).spelt hs
    ⟨⟨(fun h => nomatch h), hcondition.asRead_only hs₂⟩,
      hyes.asRead ((hcondition.leads.trans hclose.leads).spelt hs₂), trivial⟩
  | .branch_else hif hopen hcondition hclose hyes helse hno, hs =>
    have hs₂ := (hif.leads.trans hopen.leads).spelt hs
    have hs₄ := (hcondition.leads.trans hclose.leads).spelt hs₂
    have hclosed := mt hyes.not_else (fun h => h helse.kind?)
    ⟨⟨fun _ => Bool.eq_false_iff.2 hclosed,
      hcondition.asRead_only hs₂⟩,
      hyes.asRead hs₄, hno.asRead ((hyes.consumes.leads.trans helse.leads).spelt hs₄)⟩
  | .whileLoop hwhile hopen hcondition hclose hbody, hs =>
    have hs₂ := (hwhile.leads.trans hopen.leads).spelt hs
    ⟨⟨trivial, hcondition.asRead_only hs₂⟩,
      hbody.asRead ((hcondition.leads.trans hclose.leads).spelt hs₂)⟩
  | .forLoop hfor hopen hstart hfirst hcondition hsecond hupdate hclose hbody, hs =>
    have hs₂ := (hfor.leads.trans hopen.leads).spelt hs
    have hs₄ := (hstart.leads.trans hfirst.leads).spelt hs₂
    have hs₆ := (hcondition.leads.trans hsecond.leads).spelt hs₄
    ⟨⟨(hstart.asRead hs₂).2, fun e he => (List.mem_append.1 he).elim (hcondition.asRead hs₄ e)
      (hupdate.asRead hs₆ e)⟩, (hstart.asRead hs₂).1,
      hbody.asRead ((hupdate.leads.trans hclose.leads).spelt hs₆)⟩
  | .block hbrace hbody _, hs =>
    ⟨⟨trivial, fun _ h => nomatch h⟩, hbody.asRead (hbrace.leads.spelt hs)⟩
  | .empty _, _ => ⟨trivial, fun _ h => nomatch h⟩
  | .expression h _, hs => ⟨trivial, h.asRead_only hs⟩

theorem ReadsBody.asRead {s s' : ParserState} {ss : List Statement} :
    ReadsBody s ss s' → s.Spelt → Statement.AllOf Statement.AsRead ss
  | .close _, _ => trivial
  | .more h hrest, hs => ⟨h.asRead hs, hrest.asRead (h.consumes.leads.spelt hs)⟩

end

theorem ReadsFile.asRead {ss : List Statement} (h : ReadsFile s ss s') :
    s.Spelt → Statement.AllOf Statement.AsRead ss := by
  induction h with
  | stop => exact fun _ => trivial
  | more h _ ih => exact fun hs => ⟨h.asRead hs, ih (h.consumes.leads.spelt hs)⟩

end Parse

/-- Every statement of a program that was read is as it was read. -/
theorem Program.asRead {source file : String} {p : Program}
    (h : Program.parse source file = .ok p) : Statement.AllOf Statement.AsRead p.statements := by
  obtain ⟨ts, ss, s', hts, hread, rfl⟩ := Program.parse_eq_ok.1 h
  exact hread.asRead (spelt_ofTokens hts)

/-! ## What was read can be written -/

theorem Expression.AsRead.written {e : Expression} (h : e.AsRead) (honce : e.TrailsOnce) :
    e.Written := by
  cases e with
  | string =>
    obtain ⟨text, rfl, hspelt⟩ := h
    exact hspelt
  | unary => exact honce.written
  | _ => exact h

theorem Statement.AsRead.written {s : Statement} (h : s.AsRead)
    (honce : ∀ e ∈ s.own, e.All Expression.TrailsOnce) : s.Written := by
  have hown : (∀ e ∈ s.own, e.All Expression.AsRead) → ∀ e ∈ s.own, e.All Expression.Written :=
    fun hread e he => (hread e he).imp₂ (fun _ => Expression.AsRead.written) (honce e he)
  cases s with
  | imports => exact ⟨h.1, fun _ h => nomatch h⟩
  | _ => exact ⟨h.1, hown h.2⟩

theorem Program.written {source file : String} {p : Program}
    (h : Program.parse source file = .ok p) (honce : p.AllExpressions Expression.TrailsOnce) :
    Statement.AllOf Statement.Written p.statements :=
  (Program.asRead h).imp₂ (fun _ => Statement.AsRead.written) honce

/-- A layout shows the strings that were read as they were spelt. -/
theorem Statement.AsRead.speltAlike {c : Relabel} (hc : ∀ value quote raw,
    c.spelling value quote raw = raw) (o : LayoutOptions) {s : Statement} (h : s.AsRead) :
    s.SpeltAlike o.shown c := by
  have hexpression : ∀ e : Expression, e.AsRead → e.SpeltAlike o.shown c := by
    intro e he
    cases e with
    | string n value quote raw =>
      obtain ⟨text, rfl, -⟩ := he
      exact (hc value quote (some text)).symm
    | _ => trivial
  cases s with
  | imports n d =>
    obtain ⟨raw, hraw⟩ := Option.isSome_iff_exists.1 h.2
    show some (d.rawName.getD _) = c.spelling _ _ d.rawName
    rw [hc, hraw]
    rfl
  | _ => exact fun e he => (h.2 e he).mono hexpression

theorem relabelAll_shown {o : LayoutOptions} {c : Relabel} {ss : List Statement}
    (h : Statement.AllOf Statement.AsRead ss) (hnode : o.shown.node = c.node)
    (htype : o.shown.ascription = c.ascription)
    (hspelling : ∀ value quote raw, c.spelling value quote raw = raw) :
    Statement.relabelAll o.shown ss = Statement.relabelAll c ss :=
  Statement.relabelAll_eq hnode htype (h.mono fun _ hs => hs.speltAlike hspelling o)

/-- **A text that is read, laid out and read again gives the program again**, whatever the width of
the indentation. Without ascriptions the second program is the first one with its ascriptions
taken away. -/
theorem parse_render {source file : String} {p : Program}
    (h : Program.parse source file = .ok p) (honce : p.AllExpressions Expression.TrailsOnce)
    (width : UInt64) :
    (∃ q, Program.parse (p.render ⟨true, width⟩) file = .ok q ∧ q.erase = p.erase) ∧
      ∃ q, Program.parse (p.render ⟨false, width⟩) file = .ok q ∧ q.erase = p.untyped.erase := by
  have hread := Program.asRead h
  have hwritten := Program.written h honce
  have hfile : p.file = file := by
    obtain ⟨ts, ss, s', -, -, rfl⟩ := Program.parse_eq_ok.1 h
    rfl
  constructor
  · obtain ⟨q, hq, hqfile, hshown⟩ := Program.exists_parse_render hwritten ⟨true, width⟩ file
    have hsame : Statement.relabelAll (LayoutOptions.shown ⟨true, width⟩) p.statements =
        Statement.relabelAll .erase p.statements :=
      relabelAll_shown hread rfl rfl fun _ _ _ => rfl
    refine ⟨q, hq, ?_⟩
    simp only [Program.erase, Program.relabel, hqfile, hfile, hshown, hsame]
    rfl
  · obtain ⟨q, hq, hqfile, hshown⟩ := Program.exists_parse_render hwritten ⟨false, width⟩ file
    have hsame : Statement.relabelAll (LayoutOptions.shown ⟨false, width⟩) p.statements =
        Statement.relabelAll (Relabel.untype.andThen .erase) p.statements :=
      relabelAll_shown hread rfl rfl fun _ _ _ => rfl
    refine ⟨q, hq, ?_⟩
    simp only [Program.erase, Program.untyped, Program.relabel, hqfile, hfile, hshown, hsame,
      Statement.relabelAll_relabelAll]
    rfl

/-- Two statements that need parentheses, blanks, halves of `>>` and an `else` of the outer `if`. -/
def Program.sample : String :=
  "let x: A<B<C>> = new (f().g)(- -1)\nif (x) while (y) y--; else return 'it\\'s'"

theorem parse_render_sample :
    ∃ p, Program.parse Program.sample "m.ts" = .ok p ∧ p.AllExpressions Expression.TrailsOnce ∧
      (∃ q, Program.parse (p.render ⟨true, 4⟩) "m.ts" = .ok q ∧ q.erase = p.erase) ∧
      ∃ q, Program.parse (p.render ⟨false, 4⟩) "m.ts" = .ok q ∧ q.erase = p.untyped.erase := by
  have h : (Program.parse Program.sample "m.ts").toOption.any
      (fun p => decide (p.AllExpressions Expression.TrailsOnce)) = true := by
    decide +kernel
  cases hp : Program.parse Program.sample "m.ts" with
  | error e =>
    rw [hp] at h
    cases h
  | ok p =>
    rw [hp] at h
    have honce : p.AllExpressions Expression.TrailsOnce := of_decide_eq_true h
    exact ⟨p, rfl, honce, parse_render hp honce 4⟩

end DecimalLift
