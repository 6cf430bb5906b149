import DecimalLift.Proofs.Parse.Statement
import DecimalLift.Proofs.Tree.Parts

/-!
# How a tree is put together

Whatever a reader reads, it does the same: the parts inside are read one after the other, with
tokens around and between them, and then the node of the part is made. This file says so once, with
the states in between, so that what is true of every tree that was read needs one case for a part
and two for a list of parts.

* `ParserState.Passes` — a first token is among those that are taken.
* `Part.inside` — the parts right inside a part.
* `Framed` — where the span of a node starts and stops: at tokens, or with the parts inside.
* `Built`, `BuiltAll` — a part, or several parts one after the other, was read between two states.
* `Reads.built`, `ReadsStatement.built`, `ReadsFile.built` — what is read is built.
-/

set_option autoImplicit false

namespace DecimalLift

/-- The first token, which is not the end of file, is among those taken. -/
def ParserState.Passes (s s' : ParserState) : Prop :=
  ∃ k s₁, k ≠ .endOfFile ∧ s.Takes k s₁ ∧ s₁.Leads s'

/-- An import starts with its keyword, and all behind it is tokens. -/
theorem Parse.ReadsImport.exists_skips {s s' : ParserState} {d : ImportDeclaration}
    (h : ReadsImport s d s') : ∃ s₁, s.Takes (.keyword .importWord) s₁ ∧ s₁.Skips s' := by
  cases h with
  | bare himport hname hend => exact ⟨_, himport, hname.skips.trans hend.skips⟩
  | bound himport h hname hend =>
    exact ⟨_, himport, h.skips.trans (hname.skips.trans hend.skips)⟩

/-! ## Parts inside a part -/

namespace Part

/-- The parts right inside a part, in the order of the source. -/
def inside (x : Part) : List Part := x.children.map Inner.part

def span (x : Part) : Span := x.node.span

variable (n : Node)

theorem inside_call (callee : Expression) (arguments : List Expression) :
    (Part.expression (.call n callee arguments)).inside =
      .expression callee :: arguments.map .expression := by
  simp [inside, children, Expression.children, Inner.ofChild, Function.comp_def]

theorem inside_construct (callee : Expression) (arguments : List Expression) :
    (Part.expression (.construct n callee arguments)).inside =
      .expression callee :: arguments.map .expression := by
  simp [inside, children, Expression.children, Inner.ofChild, Function.comp_def]

theorem inside_array (elements : List Expression) :
    (Part.expression (.array n elements)).inside = elements.map .expression := by
  simp [inside, children, Expression.children, Inner.ofChild, Function.comp_def]

theorem inside_declarator (name : String) (type : Option String) (initial : Option Expression) :
    (Part.declarator ⟨n, name, type, initial⟩).inside = initial.toList.map .expression := by
  simp [inside, children, Inner.ofInitial, Function.comp_def]

theorem inside_variable (word : DeclarationWord) (ds : List Declarator) :
    (Part.statement (.variable n word ds)).inside = ds.map .declarator := by
  simp [inside, children, Statement.children, Inner.ofDeclarator, Function.comp_def]

theorem inside_function (name : String) (ps : List Parameter) (result : Option String)
    (body : List Statement) :
    (Part.statement (.function n name ps result body)).inside = body.map .statement := by
  simp [inside, children, Statement.children, Inner.ofStatement, Function.comp_def]

theorem inside_block (body : List Statement) :
    (Part.statement (.block n body)).inside = body.map .statement := by
  simp [inside, children, Statement.children, Inner.ofStatement, Function.comp_def]

theorem inside_returns (value : Option Expression) :
    (Part.statement (.returns n value)).inside = value.toList.map .expression := by
  simp [inside, children, Statement.children, Inner.ofExpression, Function.comp_def]

theorem inside_forLoop (start : Option Statement) (condition update : Option Expression)
    (body : Statement) :
    (Part.statement (.forLoop n start condition update body)).inside =
      start.toList.map .statement ++ (condition.toList.map .expression ++
        (update.toList.map .expression ++ [.statement body])) := by
  simp [inside, children, Statement.children, Inner.ofStatement, Inner.ofExpression,
    Function.comp_def]

end Part

namespace Parse

open ParserState (Takes Skips Passes)

/-! ## Parts read between two states -/

/-- The span of what starts at `s` and ends at `s'` with the parts `xs` in it. It starts with the
next token or with the first of the parts, and stops with the last token or with the last part. -/
structure Framed (s : ParserState) (span : Span) (xs : List Part) (s' : ParserState) : Prop where
  start : span.start = s.here ∨ ∃ x ∈ xs.head?, span.start = x.span.start
  stop : span.stop = s'.lastEnd ∨ ∃ x ∈ xs.getLast?, span.stop = x.span.stop
  /-- Without parts inside there is a token. -/
  passes : xs = [] → s.Passes s'

mutual

/-- The part `x` was read between `s` and `s'`: what is inside it, then its node, with tokens before
and behind that do not belong to it. -/
inductive Built : ParserState → Part → ParserState → Prop
  | mk {s s₁ s₂ s' : ParserState} {x : Part} (hbefore : s.Skips s₁)
      (hinside : BuiltAll s₁ x.inside s₂) (hid : x.id = s₂.nextId)
      (hspan : Framed s₁ x.span x.inside s₂) (hbehind : s₂.grown.Skips s') : Built s x s'

/-- The parts were read between `s` and `s'`, one after the other. -/
inductive BuiltAll : ParserState → List Part → ParserState → Prop
  | nil {s s' : ParserState} (h : s.Skips s') : BuiltAll s [] s'
  | cons {s s₁ s' : ParserState} {x : Part} {xs : List Part} (h : Built s x s₁)
      (hrest : BuiltAll s₁ xs s') : BuiltAll s (x :: xs) s'

end

section

variable {s s₁ s₂ s' : ParserState} {x y : Part} {xs ys : List Part} {k : TokenKind}

theorem Built.before (hskip : s.Skips s₁) (h : Built s₁ x s') : Built s x s' := by
  obtain ⟨hbefore, hinside, hid, hspan, hbehind⟩ := h
  exact .mk (hskip.trans hbefore) hinside hid hspan hbehind

theorem Built.behind (h : Built s x s₁) (hskip : s₁.Skips s') : Built s x s' := by
  obtain ⟨hbefore, hinside, hid, hspan, hbehind⟩ := h
  exact .mk hbefore hinside hid hspan (hbehind.trans hskip)

theorem BuiltAll.before (hskip : s.Skips s₁) (h : BuiltAll s₁ xs s') : BuiltAll s xs s' := by
  cases h with
  | nil h => exact .nil (hskip.trans h)
  | cons h hrest => exact .cons (h.before hskip) hrest

theorem BuiltAll.append : ∀ {s : ParserState} {xs : List Part}, BuiltAll s xs s₁ →
    BuiltAll s₁ ys s' → BuiltAll s (xs ++ ys) s'
  | _, _, .nil h, h' => h'.before h
  | _, _, .cons h hrest, h' => .cons h (hrest.append h')

theorem BuiltAll.behind (h : BuiltAll s xs s₁) (hskip : s₁.Skips s') : BuiltAll s xs s' := by
  have happend := h.append (.nil hskip)
  rwa [List.append_nil] at happend

theorem Built.single (h : Built s x s') : BuiltAll s [x] s' := .cons h (.nil .refl)

mutual

theorem Built.leads {s s' : ParserState} {x : Part} : Built s x s' → s.Leads s'
  | .mk hbefore hinside _ _ hbehind =>
    hbefore.leads.trans (hinside.leads.andGrown.trans hbehind.leads)

theorem BuiltAll.leads {s s' : ParserState} {xs : List Part} : BuiltAll s xs s' → s.Leads s'
  | .nil h => h.leads
  | .cons h hrest => h.leads.trans hrest.leads

end

/-- A part that starts with its first token and stops with the last one. -/
theorem Built.opened (hopen : s.Takes k s₁) (hk : k ≠ .endOfFile) (h : BuiltAll s₁ x.inside s')
    (hnode : x.node = s'.nodeFrom s.here) : Built s x s'.grown := by
  refine .mk .refl (h.before hopen.skips) (congrArg Node.id hnode) ⟨Or.inl ?_, Or.inl ?_, ?_⟩ .refl
  · exact congrArg (·.span.start) hnode
  · exact congrArg (·.span.stop) hnode
  · exact fun _ => ⟨k, s₁, hk, hopen, h.leads⟩

/-- The same, for a first token that is known. -/
theorem Built.started {t : Token} {ts : List Token} (ht : s.tokens = t :: ts)
    (hk : t.kind ≠ .endOfFile) (h : BuiltAll (s.past t ts) x.inside s')
    (hnode : x.node = s'.nodeFrom t.span.start) : Built s x s'.grown := by
  refine .opened ⟨t, ts, ht, rfl, rfl⟩ hk h ?_
  rw [ParserState.here_of_tokens ht]
  exact hnode

/-- A part that is there because of another one, and stops with the last token. -/
theorem Built.around (h : BuiltAll s x.inside s') (hne : x.inside ≠ [])
    (hnode : x.node = s'.nodeFrom s.here) : Built s x s'.grown := by
  refine .mk .refl h (congrArg Node.id hnode) ⟨Or.inl ?_, Or.inl ?_, fun h => absurd h hne⟩ .refl
  · exact congrArg (·.span.start) hnode
  · exact congrArg (·.span.stop) hnode

/-- A part that starts with the first part inside it, which goes on up to the last token. -/
theorem Built.onward (h : BuiltAll s x.inside s') (hfirst : x.inside.head? = some y)
    (hnode : x.node = s'.nodeFrom y.span.start) : Built s x s'.grown := by
  refine .mk .refl h (congrArg Node.id hnode) ⟨Or.inr ⟨y, hfirst, ?_⟩, Or.inl ?_, ?_⟩ .refl
  · exact congrArg (·.span.start) hnode
  · exact congrArg (·.span.stop) hnode
  · exact fun hnil => absurd hnil (List.ne_nil_of_mem (List.mem_of_mem_head? hfirst))

/-- A part that reaches from the first part inside it to the last one. -/
theorem Built.joined {z : Part} (h : BuiltAll s x.inside s') (hfirst : x.inside.head? = some y)
    (hlast : x.inside.getLast? = some z) (hnode : x.node = ⟨s'.nextId, y.span.join z.span⟩) :
    Built s x s'.grown := by
  refine .mk .refl h (congrArg Node.id hnode) ⟨Or.inr ⟨y, hfirst, ?_⟩, Or.inr ⟨z, hlast, ?_⟩, ?_⟩
    .refl
  · exact congrArg (·.span.start) hnode
  · exact congrArg (·.span.stop) hnode
  · exact fun hnil => absurd hnil (List.ne_nil_of_mem (List.mem_of_mem_head? hfirst))

end

/-! ## Expressions -/

/-- What a reader builds. The two loops go on with an expression that was built before. -/
def Reader.Builds : Reader → ParserState → Expression → ParserState → Prop
  | .climb _ e₀, s, e, s' | .suffixes _ e₀, s, e, s' =>
    ∀ s₀, Built s₀ (.expression e₀) s → Built s₀ (.expression e) s'
  | _, s, e, s' => Built s (.expression e) s'

/-- A literal or a name. -/
theorem built_word {s : ParserState} {t : Token} {ts : List Token} {e : Expression}
    (ht : s.tokens = t :: ts) (hk : t.kind ≠ .endOfFile) (hinside : (Part.expression e).inside = [])
    (hnode : e.node = (s.past t ts).nodeFrom t.span.start) :
    Built s (.expression e) (s.past t ts).grown := by
  refine .started ht hk ?_ hnode
  rw [hinside]
  exact .nil .refl

mutual

/-- **What is read is built**: in every expression the node comes last. -/
theorem Reads.built {r : Reader} {s s' : ParserState} {e : Expression} :
    Reads r s e s' → r.Builds s e s'
  | .assignment_plain h _ | .conditional_plain h _ | .unary_plain _ h | .trailing_plain h _
  | .head_new _ h | .head_primary _ h => h.built
  | .assignment h ht _ _ hvalue =>
    .joined (.cons (h.built.behind (.past ht)) hvalue.built.single) rfl rfl rfl
  | .conditional h ht _ hyes hu _ hno =>
    .joined (.cons (h.built.behind (.past ht))
      (.cons (hyes.built.behind (.past hu)) hno.built.single)) rfl rfl rfl
  | .binary h hclimb => hclimb.built _ h.built
  | .climb_stop _ | .suffixes_stop _ => fun _ h => h
  -- The operand on the left was read before the loop was entered, so its first state is bound here.
  | .climb_step ht _ _ hright hclimb => fun _ hleft =>
    hclimb.built _ (.joined (.cons (hleft.behind (.past ht)) hright.built.single) rfl rfl rfl)
  | .unary ht hop h => by
    refine .started ht ?_ h.built.single rfl
    intro hk
    rw [hk] at hop
    cases hop
  | .trailing h ht _ => .onward (h.built.behind (.past ht)).single rfl rfl
  | .call h hsuffixes => hsuffixes.built _ h.built
  | .construction ht hnew h hcallee hu _ harguments => by
    refine .started ht (by simp [hnew]) ?_ rfl
    rw [Part.inside_construct]
    exact .cons ((hcallee.built _ h.built).behind (.past hu)) harguments.built
  | .construction_bare ht hnew h hcallee _ =>
    .started ht (by simp [hnew]) (hcallee.built _ h.built).single rfl
  | .member ht _ _ h => fun _ hhead =>
    h.built _ (.onward (hhead.behind ((Skips.past ht).trans (.past rfl))).single rfl rfl)
  | .index ht _ hposition hu _ h => fun _ hhead =>
    h.built _ (.onward (.cons (hhead.behind (.past ht))
      (hposition.built.behind (.past hu)).single) rfl rfl)
  | .arguments ht _ harguments h => fun _ hhead => by
    refine h.built _ (.onward ?_ (by rw [Part.inside_call]; rfl) rfl)
    rw [Part.inside_call]
    exact .cons (hhead.behind (.past ht)) harguments.built
  | .number ht hk | .string ht hk | .boolean ht hk | .null ht hk | .identifier ht hk =>
    built_word ht (by simp [hk]) rfl rfl
  -- A group has no node: its parentheses are tokens around what is inside.
  | .group ht _ h hu _ => (h.built.before (.past ht)).behind (.past hu)
  | .array ht hk h => by
    refine .started ht (by simp [hk]) ?_ rfl
    rw [Part.inside_array]
    exact h.built

theorem ReadsAll.built {close : Symbol} {s s' : ParserState} {es : List Expression} :
    ReadsAll close s es s' → BuiltAll s (es.map .expression) s'
  | .close ht _ => .nil (.past ht)
  | .last _ h _ ht _ => (h.built.behind (.past ht)).single
  | .more _ h ht _ hrest => .cons (h.built.behind (.past ht)) hrest.built

end

/-! ## Statements -/

section

variable {s s' : ParserState}

theorem ReadsInitial.built {initial : Option Expression} (h : ReadsInitial s initial s') :
    BuiltAll s (initial.toList.map .expression) s' := by
  cases h with
  | none => exact .nil .refl
  | some hequal h => exact (h.built.before hequal.skips).single

theorem ReadsBefore.built {close : Symbol} {e : Option Expression} (h : ReadsBefore close s e s') :
    BuiltAll s (e.toList.map .expression) s' := by
  cases h with
  | none => exact .nil .refl
  | some _ h => exact h.built.single

theorem ReadsReturned.built {e : Option Expression} (h : ReadsReturned s e s') :
    BuiltAll s (e.toList.map .expression) s' := by
  cases h with
  | none => exact .nil .refl
  | some _ h => exact h.built.single

/-- One variable of a declaration. -/
theorem built_declarator {s₁ s₂ : ParserState} {name : String} {type : Option String}
    {initial : Option Expression} (hname : s.Takes (.identifier name) s₁)
    (htype : ReadsAscribed s₁ type s₂) (hinitial : ReadsInitial s₂ initial s') :
    Built s (.declarator ⟨s'.nodeFrom s.here, name, type, initial⟩) s'.grown := by
  refine .opened hname (by simp) ?_ rfl
  rw [Part.inside_declarator]
  exact hinitial.built.before htype.skips

theorem ReadsDeclarators.built {ds : List Declarator} (h : ReadsDeclarators s ds s') :
    BuiltAll s (ds.map .declarator) s' := by
  induction h with
  | last hname htype hinitial _ => exact (built_declarator hname htype hinitial).single
  | more hname htype hinitial hcomma _ ih =>
    exact .cons ((built_declarator hname htype hinitial).behind hcomma.skips) ih

/-- A declaration, with its semicolon or without. -/
theorem built_variable {s₁ : ParserState} {word : DeclarationWord} {ds : List Declarator}
    (h : ReadsVariable s word ds s₁) (hskip : s₁.Skips s') :
    Built s (.statement (.variable (s'.nodeFrom s.here) word ds)) s'.grown := by
  obtain ⟨hword, h⟩ := h
  refine .opened hword (by simp) ?_ rfl
  rw [Part.inside_variable]
  exact h.built.behind hskip

/-- An expression that is a statement, with its semicolon or without. -/
theorem built_expression {s₁ : ParserState} {e : Expression} (h : Reads .assignment s e s₁)
    (hskip : s₁.Skips s') :
    Built s (.statement (.expression (s'.nodeFrom s.here) e)) s'.grown :=
  .around (h.built.behind hskip).single (List.cons_ne_nil _ _) rfl

theorem ReadsStart.built {start : Option Statement} (h : ReadsStart s start s') :
    BuiltAll s (start.toList.map .statement) s' := by
  cases h with
  | none => exact .nil .refl
  | declared h => exact (built_variable h .refl).single
  | expression h => exact (built_expression h .refl).single

end

mutual

theorem ReadsStatement.built {s s' : ParserState} {st : Statement} :
    ReadsStatement s st s' → Built s (.statement st) s'
  | .imports h => by
    obtain ⟨s₁, himport, hskip⟩ := h.exists_skips
    exact .opened himport (by simp) (.nil hskip) rfl
  | .exports hexport h _ => .opened hexport (by simp) h.built.single rfl
  | .declared h hend => built_variable h hend.skips
  | .function hfunction hname hopen hparameters hclose hresult hbrace hbody hend => by
    refine .opened hfunction (by simp) ?_ rfl
    rw [Part.inside_function]
    refine (hbody.built.behind hend.skips).before ?_
    exact hname.skips.trans (hopen.skips.trans (hparameters.skips.trans (hclose.skips.trans
      (hresult.skips.trans hbrace.skips))))
  | .returns hreturn h hend => by
    refine .opened hreturn (by simp) ?_ rfl
    rw [Part.inside_returns]
    exact h.built.behind hend.skips
  | .branch hif hopen hcondition hclose hyes _ =>
    .opened hif (by simp) (.cons ((hcondition.built.before hopen.skips).behind hclose.skips)
      hyes.built.single) rfl
  | .branch_else hif hopen hcondition hclose hyes helse hno =>
    .opened hif (by simp) (.cons ((hcondition.built.before hopen.skips).behind hclose.skips)
      (.cons (hyes.built.behind helse.skips) hno.built.single)) rfl
  | .whileLoop hwhile hopen hcondition hclose hbody =>
    .opened hwhile (by simp) (.cons ((hcondition.built.before hopen.skips).behind hclose.skips)
      hbody.built.single) rfl
  | .forLoop hfor hopen hstart hfirst hcondition hsecond hupdate hclose hbody => by
    refine .opened hfor (by simp) ?_ rfl
    rw [Part.inside_forLoop]
    refine ((hstart.built.before hopen.skips).behind hfirst.skips).append ?_
    refine (hcondition.built.behind hsecond.skips).append ?_
    exact (hupdate.built.behind hclose.skips).append hbody.built.single
  | .block hbrace hbody hend => by
    refine .opened hbrace (by simp) ?_ rfl
    rw [Part.inside_block]
    exact hbody.built.behind hend.skips
  | .empty h => .opened h (by simp) (.nil .refl) rfl
  | .expression h hend => built_expression h hend.skips

theorem ReadsBody.built {s s' : ParserState} {ss : List Statement} :
    ReadsBody s ss s' → BuiltAll s (ss.map .statement) s'
  | .close _ => .nil .refl
  | .more h hrest => .cons h.built hrest.built

end

theorem ReadsFile.built {s s' : ParserState} {ss : List Statement} (h : ReadsFile s ss s') :
    BuiltAll s (ss.map .statement) s' := by
  induction h with
  | stop => exact .nil .refl
  | more h _ ih => exact .cons h.built ih

end Parse

end DecimalLift
