import DecimalLift.Proofs.Parse.Declaration

/-!
# The grammar of statements and programs

* `ReadsStatement`, `ReadsBody` — a statement, and the statements before a closing brace.
* `statement_eq_ok`, `program_eq_ok` — the budgets of `Parse.statement` and `Parse.program` are
  always enough, so the two readers are the relations.
* `ReadsStatement.consumes` — every statement takes a token.
-/

set_option autoImplicit false

namespace DecimalLift

/-- The kinds of token that a statement can start with. -/
def TokenKind.startsStatement : TokenKind → Bool
  | .keyword k =>
    [.importWord, .exportWord, .letWord, .constWord, .varWord, .functionWord, .returnWord, .ifWord,
      .whileWord, .forWord].contains k || startsExpression (.keyword k)
  | .symbol y => y == .leftBrace || y == .semicolon || startsExpression (.symbol y)
  | k => k.startsExpression

namespace Parse

open ParserState (Takes Leads takes_of_kind? isAt_eq_true isAt_eq_false)

variable {s s' : ParserState}

/-! ## Parts of headers -/

/-- The first part of the header of a `for` loop. -/
inductive ReadsStart : ParserState → Option Statement → ParserState → Prop
  | none {s : ParserState} (hsemicolon : s.kind? = some (.symbol .semicolon)) : ReadsStart s none s
  | declared {s s' : ParserState} {word : DeclarationWord} {ds : List Declarator}
      (h : ReadsVariable s word ds s') :
      ReadsStart s (some (.variable (s'.nodeFrom s.here) word ds)) s'.grown
  | expression {s s' : ParserState} {e : Expression} (h : Reads .assignment s e s') :
      ReadsStart s (some (.expression (s'.nodeFrom s.here) e)) s'.grown

/-- An expression, unless the symbol `close` comes first. -/
inductive ReadsBefore (close : Symbol) : ParserState → Option Expression → ParserState → Prop
  | none {s : ParserState} (hclose : s.kind? = some (.symbol close)) : ReadsBefore close s none s
  | some {s s' : ParserState} {e : Expression} (hclose : s.kind? ≠ some (.symbol close))
      (h : Reads .assignment s e s') : ReadsBefore close s (some e) s'

/-- What is returned. -/
inductive ReadsReturned : ParserState → Option Expression → ParserState → Prop
  | none {s : ParserState} (hend : returnsNothing s.tokens.head? = true) : ReadsReturned s none s
  | some {s s' : ParserState} {e : Expression} (hend : returnsNothing s.tokens.head? = false)
      (h : Reads .assignment s e s') : ReadsReturned s (some e) s'

theorem ReadsStart.leads {start : Option Statement} (h : ReadsStart s start s') : s.Leads s' := by
  cases h with
  | none => exact .refl
  | declared h => exact h.consumes.leads.andGrown
  | expression h => exact h.leads.andGrown

theorem ReadsBefore.leads {close : Symbol} {e : Option Expression} (h : ReadsBefore close s e s') :
    s.Leads s' := by
  cases h with
  | none => exact .refl
  | some _ h => exact h.leads

theorem ReadsReturned.leads {e : Option Expression} (h : ReadsReturned s e s') : s.Leads s' := by
  cases h with
  | none => exact .refl
  | some _ h => exact h.leads

/-- No expression starts with a word that declares variables, or with a semicolon. -/
theorem not_startsVariable {k : TokenKind} (h : k.startsExpression = true) :
    startsVariable (some k) = false := by
  cases k with
  | keyword w => cases w <;> first | rfl | cases h
  | _ => rfl

theorem forStart_eq_ok {start : Option Statement} :
    forStart s = .ok start s' ↔ ReadsStart s start s' := by
  unfold forStart
  rw [at?_ite_eq_ok (by decide), here_bind, peekKind?_bind]
  constructor
  · rintro (⟨hsemicolon, h⟩ | ⟨-, h⟩)
    · obtain ⟨rfl, rfl⟩ := pure_eq_ok.1 h
      exact .none hsemicolon
    · by_cases hvariable : startsVariable s.kind? = true
      · rw [if_pos hvariable] at h
        obtain ⟨⟨word, ds⟩, s₁, hds, h⟩ := bind_eq_ok.1 h
        replace h := nodeFrom_bind.symm.trans h
        obtain ⟨rfl, rfl⟩ := pure_eq_ok.1 h
        exact .declared ((variableDeclaration_eq_ok hvariable).1 hds)
      · rw [if_neg hvariable] at h
        obtain ⟨e, s₁, he, h⟩ := bind_eq_ok.1 h
        replace h := nodeFrom_bind.symm.trans h
        obtain ⟨rfl, rfl⟩ := pure_eq_ok.1 h
        exact .expression (expression_eq_ok.1 he)
  · intro h
    cases h with
    | none hsemicolon => exact Or.inl ⟨hsemicolon, rfl⟩
    | declared h =>
      have hvariable : startsVariable s.kind? = true := by
        rw [h.kind?]
        exact startsVariable_keyword _
      have hsemicolon : s.kind? ≠ some (.symbol .semicolon) := by
        intro hsemicolon
        rw [hsemicolon] at hvariable
        cases hvariable
      refine Or.inr ⟨hsemicolon, ?_⟩
      rw [if_pos hvariable, bind_of_ok ((variableDeclaration_eq_ok hvariable).2 h)]
      rfl
    | expression h =>
      obtain ⟨k, hk, hstart⟩ := startsExpression_of_assignment h
      have hsemicolon : some k ≠ some (.symbol .semicolon) := by
        rintro ⟨⟩
        cases hstart
      rw [hk]
      refine Or.inr ⟨hsemicolon, ?_⟩
      rw [not_startsVariable hstart, if_neg (by decide), bind_of_ok (expression_eq_ok.2 h)]
      rfl

theorem expressionBefore_eq_ok {close : Symbol} {e : Option Expression} :
    expressionBefore close s = .ok e s' ↔ ReadsBefore close s e s' := by
  unfold expressionBefore
  rw [at?_ite_eq_ok (by simp)]
  constructor
  · rintro (⟨hclose, h⟩ | ⟨hclose, h⟩)
    · obtain ⟨rfl, rfl⟩ := pure_eq_ok.1 h
      exact .none hclose
    · obtain ⟨e', s₁, he, h⟩ := bind_eq_ok.1 h
      obtain ⟨rfl, rfl⟩ := pure_eq_ok.1 h
      exact .some hclose (expression_eq_ok.1 he)
  · intro h
    cases h with
    | none hclose => exact Or.inl ⟨hclose, rfl⟩
    | some hclose h =>
      refine Or.inr ⟨hclose, ?_⟩
      rw [bind_of_ok (expression_eq_ok.2 h)]
      rfl

/-- What is returned, as a reader of its own. -/
theorem returned_bind_eq_ok {β : Type} {f : Option Expression → Parse β} {b : β} :
    (peek? >>= fun next =>
      if returnsNothing next = true then pure none >>= f
      else expression >>= fun e => pure (some e) >>= f) s = .ok b s' ↔
        ∃ e s₁, ReadsReturned s e s₁ ∧ f e s₁ = .ok b s' := by
  rw [peek?_bind]
  by_cases hend : returnsNothing s.tokens.head? = true
  · rw [if_pos hend]
    constructor
    · intro h
      exact ⟨none, s, .none hend, h⟩
    · rintro ⟨e, s₁, h, hf⟩
      cases h with
      | none => exact hf
      | some hend' => rw [hend] at hend'; cases hend'
  · rw [if_neg hend]
    constructor
    · intro h
      obtain ⟨e, s₁, he, h⟩ := bind_eq_ok.1 h
      exact ⟨some e, s₁, .some (Bool.eq_false_iff.2 hend) (expression_eq_ok.1 he), h⟩
    · rintro ⟨e, s₁, h, hf⟩
      cases h with
      | none hend' => exact absurd hend' hend
      | some _ h =>
        rw [bind_of_ok (expression_eq_ok.2 h)]
        exact hf

/-! ## Statements -/

mutual

/-- A statement at the front of a queue. -/
inductive ReadsStatement : ParserState → Statement → ParserState → Prop
  | imports {s s' : ParserState} {d : ImportDeclaration} (h : ReadsImport s d s') :
      ReadsStatement s (.imports (s'.nodeFrom s.here) d) s'.grown
  | exports {s s₁ s' : ParserState} {inner : Statement}
      (hexport : s.Takes (.keyword .exportWord) s₁) (h : ReadsStatement s₁ inner s')
      (hinner : inner.isDeclaration = true) :
      ReadsStatement s (.exports (s'.nodeFrom s.here) inner) s'.grown
  | declared {s s₁ s' : ParserState} {word : DeclarationWord} {ds : List Declarator}
      (h : ReadsVariable s word ds s₁) (hend : EndsStatement s₁ s') :
      ReadsStatement s (.variable (s'.nodeFrom s.here) word ds) s'.grown
  | function {s s₁ s₂ s₃ s₄ s₅ s₆ s₇ s₈ s' : ParserState} {name : String} {ps : List Parameter}
      {result : Option String} {body : List Statement}
      (hfunction : s.Takes (.keyword .functionWord) s₁) (hname : s₁.Takes (.identifier name) s₂)
      (hopen : s₂.Takes (.symbol .leftParen) s₃) (hparameters : ReadsParameters s₃ ps s₄)
      (hclose : s₄.Takes (.symbol .rightParen) s₅) (hresult : ReadsAscribed s₅ result s₆)
      (hbrace : s₆.Takes (.symbol .leftBrace) s₇) (hbody : ReadsBody s₇ body s₈)
      (hend : s₈.Takes (.symbol .rightBrace) s') :
      ReadsStatement s (.function (s'.nodeFrom s.here) name ps result body) s'.grown
  | returns {s s₁ s₂ s' : ParserState} {value : Option Expression}
      (hreturn : s.Takes (.keyword .returnWord) s₁) (h : ReadsReturned s₁ value s₂)
      (hend : EndsStatement s₂ s') :
      ReadsStatement s (.returns (s'.nodeFrom s.here) value) s'.grown
  | branch {s s₁ s₂ s₃ s₄ s' : ParserState} {condition : Expression} {yes : Statement}
      (hif : s.Takes (.keyword .ifWord) s₁) (hopen : s₁.Takes (.symbol .leftParen) s₂)
      (hcondition : Reads .assignment s₂ condition s₃) (hclose : s₃.Takes (.symbol .rightParen) s₄)
      (hyes : ReadsStatement s₄ yes s') (helse : s'.kind? ≠ some (.keyword .elseWord)) :
      ReadsStatement s (.branch (s'.nodeFrom s.here) condition yes none) s'.grown
  | branch_else {s s₁ s₂ s₃ s₄ s₅ s₆ s' : ParserState} {condition : Expression}
      {yes no : Statement} (hif : s.Takes (.keyword .ifWord) s₁)
      (hopen : s₁.Takes (.symbol .leftParen) s₂) (hcondition : Reads .assignment s₂ condition s₃)
      (hclose : s₃.Takes (.symbol .rightParen) s₄) (hyes : ReadsStatement s₄ yes s₅)
      (helse : s₅.Takes (.keyword .elseWord) s₆) (hno : ReadsStatement s₆ no s') :
      ReadsStatement s (.branch (s'.nodeFrom s.here) condition yes (some no)) s'.grown
  | whileLoop {s s₁ s₂ s₃ s₄ s' : ParserState} {condition : Expression} {body : Statement}
      (hwhile : s.Takes (.keyword .whileWord) s₁) (hopen : s₁.Takes (.symbol .leftParen) s₂)
      (hcondition : Reads .assignment s₂ condition s₃) (hclose : s₃.Takes (.symbol .rightParen) s₄)
      (hbody : ReadsStatement s₄ body s') :
      ReadsStatement s (.whileLoop (s'.nodeFrom s.here) condition body) s'.grown
  | forLoop {s s₁ s₂ s₃ s₄ s₅ s₆ s₇ s₈ s' : ParserState} {start : Option Statement}
      {condition update : Option Expression} {body : Statement}
      (hfor : s.Takes (.keyword .forWord) s₁) (hopen : s₁.Takes (.symbol .leftParen) s₂)
      (hstart : ReadsStart s₂ start s₃) (hfirst : s₃.Takes (.symbol .semicolon) s₄)
      (hcondition : ReadsBefore .semicolon s₄ condition s₅)
      (hsecond : s₅.Takes (.symbol .semicolon) s₆) (hupdate : ReadsBefore .rightParen s₆ update s₇)
      (hclose : s₇.Takes (.symbol .rightParen) s₈) (hbody : ReadsStatement s₈ body s') :
      ReadsStatement s (.forLoop (s'.nodeFrom s.here) start condition update body) s'.grown
  | block {s s₁ s₂ s' : ParserState} {body : List Statement}
      (hbrace : s.Takes (.symbol .leftBrace) s₁) (hbody : ReadsBody s₁ body s₂)
      (hend : s₂.Takes (.symbol .rightBrace) s') :
      ReadsStatement s (.block (s'.nodeFrom s.here) body) s'.grown
  | empty {s s' : ParserState} (h : s.Takes (.symbol .semicolon) s') :
      ReadsStatement s (.empty (s'.nodeFrom s.here)) s'.grown
  | expression {s s₁ s' : ParserState} {e : Expression} (h : Reads .assignment s e s₁)
      (hend : EndsStatement s₁ s') :
      ReadsStatement s (.expression (s'.nodeFrom s.here) e) s'.grown

/-- Statements up to a closing brace, which stays in the queue. -/
inductive ReadsBody : ParserState → List Statement → ParserState → Prop
  | close {s : ParserState} (hbrace : s.kind? = some (.symbol .rightBrace)) : ReadsBody s [] s
  | more {s s₁ s' : ParserState} {first : Statement} {rest : List Statement}
      (h : ReadsStatement s first s₁) (hrest : ReadsBody s₁ rest s') :
      ReadsBody s (first :: rest) s'

end

/-- Statements up to the end of file, which stays in the queue. -/
inductive ReadsFile : ParserState → List Statement → ParserState → Prop
  | stop {s : ParserState} (hend : s.isAt .endOfFile = true) : ReadsFile s [] s
  | more {s s₁ s' : ParserState} {first : Statement} {rest : List Statement}
      (h : ReadsStatement s first s₁) (hrest : ReadsFile s₁ rest s') :
      ReadsFile s (first :: rest) s'

mutual

/-- Every statement takes a token. -/
theorem ReadsStatement.consumes {s s' : ParserState} {st : Statement} :
    ReadsStatement s st s' → s.Consumes s'
  | .imports h => h.consumes.andLeads (.grown .refl)
  | .exports hexport h _ => hexport.consumes h.consumes.leads.andGrown
  | .declared h hend => h.consumes.andLeads hend.skips.leads.andGrown
  | .function hfunction hname hopen hparameters hclose hresult hbrace hbody hend =>
    hfunction.consumes (hname.leads.trans (hopen.leads.trans (hparameters.skips.leads.trans
      (hclose.leads.trans (hresult.skips.leads.trans (hbrace.leads.trans (hbody.leads.trans
        hend.leads.andGrown)))))))
  | .returns hreturn h hend => hreturn.consumes (h.leads.trans hend.skips.leads.andGrown)
  | .branch hif hopen hcondition hclose hyes _ =>
    hif.consumes (hopen.leads.trans (hcondition.leads.trans (hclose.leads.trans
      hyes.consumes.leads.andGrown)))
  | .branch_else hif hopen hcondition hclose hyes helse hno =>
    hif.consumes (hopen.leads.trans (hcondition.leads.trans (hclose.leads.trans
      (hyes.consumes.leads.trans (helse.leads.trans hno.consumes.leads.andGrown)))))
  | .whileLoop hwhile hopen hcondition hclose hbody =>
    hwhile.consumes (hopen.leads.trans (hcondition.leads.trans (hclose.leads.trans
      hbody.consumes.leads.andGrown)))
  | .forLoop hfor hopen hstart hfirst hcondition hsecond hupdate hclose hbody =>
    hfor.consumes (hopen.leads.trans (hstart.leads.trans (hfirst.leads.trans
      (hcondition.leads.trans (hsecond.leads.trans (hupdate.leads.trans (hclose.leads.trans
        hbody.consumes.leads.andGrown)))))))
  | .block hbrace hbody hend => hbrace.consumes (hbody.leads.trans hend.leads.andGrown)
  | .empty h => h.consumes (.grown .refl)
  | .expression h hend => h.consumes.andLeads hend.skips.leads.andGrown

theorem ReadsBody.leads {s s' : ParserState} {ss : List Statement} :
    ReadsBody s ss s' → s.Leads s'
  | .close _ => .refl
  | .more h hrest => h.consumes.leads.trans hrest.leads

end

/-! ## What the readers return is derived -/

theorem statementLevel_succ (n : Nat) (s : ParserState) :
    statementLevel (n + 1) s = form (statementLevel n) (blockLevel n) s.kind? s := rfl

/-- What the readers return with `n` steps is derived. -/
structure SoundStatement (n : Nat) : Prop where
  statement : ∀ {s s' : ParserState} {st : Statement},
    statementLevel n s = .ok st s' → ReadsStatement s st s'
  block : ∀ {s s' : ParserState} {ss : List Statement}, blockLevel n s = .ok ss s' →
    ∃ s₁ s₂, s.Takes (.symbol .leftBrace) s₁ ∧ ReadsBody s₁ ss s₂ ∧
      s₂.Takes (.symbol .rightBrace) s'
  body : ∀ {s s' : ParserState} {ss : List Statement},
    blockBody n s = .ok ss s' → ReadsBody s ss s'

section Sound

variable {n : Nat} {st : Statement}

theorem exports_of_ok (ih : SoundStatement n) (hk : s.kind? = some (.keyword .exportWord))
    (h : exportForm (statementLevel n) s = .ok st s') : ReadsStatement s st s' := by
  obtain ⟨s₁, hexport⟩ := takes_of_kind? hk
  unfold exportForm at h
  rw [here_bind, skip_bind hexport] at h
  obtain ⟨inner, s₂, hinner, h⟩ := bind_eq_ok.1 h
  by_cases hdeclaration : inner.isDeclaration = true
  · rw [if_pos hdeclaration] at h
    replace h := nodeFrom_bind.symm.trans h
    obtain ⟨rfl, rfl⟩ := pure_eq_ok.1 h
    exact .exports hexport (ih.statement hinner) hdeclaration
  · rw [if_neg hdeclaration] at h
    exact absurd h throw_ne_ok

theorem declared_of_ok (hk : startsVariable s.kind? = true) (h : variableForm s = .ok st s') :
    ReadsStatement s st s' := by
  unfold variableForm at h
  rw [here_bind] at h
  obtain ⟨⟨word, ds⟩, s₁, hds, h⟩ := bind_eq_ok.1 h
  obtain ⟨_, s₂, hend, h⟩ := bind_eq_ok.1 h
  replace h := nodeFrom_bind.symm.trans h
  obtain ⟨rfl, rfl⟩ := pure_eq_ok.1 h
  exact .declared ((variableDeclaration_eq_ok hk).1 hds) (endStatement_eq_ok.1 hend)

theorem function_of_ok (ih : SoundStatement n)
    (h : functionForm (blockLevel n) s = .ok st s') : ReadsStatement s st s' := by
  unfold functionForm at h
  rw [here_bind] at h
  obtain ⟨s₁, hfunction, h⟩ := (expect_bind_takes (by decide)).1 h
  obtain ⟨name, s₂, hname, h⟩ := expectIdentifier_bind_takes.1 h
  obtain ⟨s₃, hopen, h⟩ := (expect_bind_takes (by decide)).1 h
  obtain ⟨ps, s₄, hparameters, h⟩ := bind_eq_ok.1 h
  obtain ⟨s₅, hclose, h⟩ := (expect_bind_takes (by decide)).1 h
  obtain ⟨result, s₆, hresult, h⟩ := bind_eq_ok.1 h
  obtain ⟨body, s₇, hbody, h⟩ := bind_eq_ok.1 h
  replace h := nodeFrom_bind.symm.trans h
  obtain ⟨rfl, rfl⟩ := pure_eq_ok.1 h
  obtain ⟨s₈, s₉, hbrace, hbody, hend⟩ := ih.block hbody
  exact .function hfunction hname hopen (parameters_eq_ok.1 hparameters) hclose
    (ascription?_eq_ok.1 hresult) hbrace hbody hend

theorem returns_of_ok (hk : s.kind? = some (.keyword .returnWord))
    (h : returnForm s = .ok st s') : ReadsStatement s st s' := by
  obtain ⟨s₁, hreturn⟩ := takes_of_kind? hk
  unfold returnForm at h
  rw [here_bind, skip_bind hreturn] at h
  obtain ⟨value, s₂, hvalue, h⟩ := returned_bind_eq_ok.1 h
  obtain ⟨_, s₃, hend, h⟩ := bind_eq_ok.1 h
  replace h := nodeFrom_bind.symm.trans h
  obtain ⟨rfl, rfl⟩ := pure_eq_ok.1 h
  exact .returns hreturn hvalue (endStatement_eq_ok.1 hend)

theorem branch_of_ok (ih : SoundStatement n)
    (h : branchForm (statementLevel n) s = .ok st s') : ReadsStatement s st s' := by
  unfold branchForm at h
  rw [here_bind] at h
  obtain ⟨s₁, hif, h⟩ := (expect_bind_takes (by decide)).1 h
  obtain ⟨s₂, hopen, h⟩ := (expect_bind_takes (by decide)).1 h
  obtain ⟨condition, s₃, hcondition, h⟩ := bind_eq_ok.1 h
  obtain ⟨s₄, hclose, h⟩ := (expect_bind_takes (by decide)).1 h
  obtain ⟨yes, s₅, hyes, h⟩ := bind_eq_ok.1 h
  rcases (accept_bind_takes (by decide)).1 h with ⟨helse, h⟩ | ⟨s₆, helse, h⟩
  · rw [if_neg (by decide), pure_bind] at h
    replace h := nodeFrom_bind.symm.trans h
    obtain ⟨rfl, rfl⟩ := pure_eq_ok.1 h
    exact .branch hif hopen (expression_eq_ok.1 hcondition) hclose (ih.statement hyes) helse
  · rw [if_pos rfl] at h
    obtain ⟨no, s₇, hno, h⟩ := bind_eq_ok.1 h
    rw [pure_bind] at h
    replace h := nodeFrom_bind.symm.trans h
    obtain ⟨rfl, rfl⟩ := pure_eq_ok.1 h
    exact .branch_else hif hopen (expression_eq_ok.1 hcondition) hclose (ih.statement hyes) helse
      (ih.statement hno)

theorem whileLoop_of_ok (ih : SoundStatement n) (hk : s.kind? = some (.keyword .whileWord))
    (h : whileForm (statementLevel n) s = .ok st s') : ReadsStatement s st s' := by
  obtain ⟨s₁, hwhile⟩ := takes_of_kind? hk
  unfold whileForm at h
  rw [here_bind, skip_bind hwhile] at h
  obtain ⟨s₂, hopen, h⟩ := (expect_bind_takes (by decide)).1 h
  obtain ⟨condition, s₃, hcondition, h⟩ := bind_eq_ok.1 h
  obtain ⟨s₄, hclose, h⟩ := (expect_bind_takes (by decide)).1 h
  obtain ⟨body, s₅, hbody, h⟩ := bind_eq_ok.1 h
  replace h := nodeFrom_bind.symm.trans h
  obtain ⟨rfl, rfl⟩ := pure_eq_ok.1 h
  exact .whileLoop hwhile hopen (expression_eq_ok.1 hcondition) hclose (ih.statement hbody)

theorem forLoop_of_ok (ih : SoundStatement n)
    (h : forForm (statementLevel n) s = .ok st s') : ReadsStatement s st s' := by
  unfold forForm at h
  rw [here_bind] at h
  obtain ⟨s₁, hfor, h⟩ := (expect_bind_takes (by decide)).1 h
  obtain ⟨s₂, hopen, h⟩ := (expect_bind_takes (by decide)).1 h
  obtain ⟨start, s₃, hstart, h⟩ := bind_eq_ok.1 h
  obtain ⟨s₄, hfirst, h⟩ := (expect_bind_takes (by decide)).1 h
  obtain ⟨condition, s₅, hcondition, h⟩ := bind_eq_ok.1 h
  obtain ⟨s₆, hsecond, h⟩ := (expect_bind_takes (by decide)).1 h
  obtain ⟨update, s₇, hupdate, h⟩ := bind_eq_ok.1 h
  obtain ⟨s₈, hclose, h⟩ := (expect_bind_takes (by decide)).1 h
  obtain ⟨body, s₉, hbody, h⟩ := bind_eq_ok.1 h
  replace h := nodeFrom_bind.symm.trans h
  obtain ⟨rfl, rfl⟩ := pure_eq_ok.1 h
  exact .forLoop hfor hopen (forStart_eq_ok.1 hstart) hfirst (expressionBefore_eq_ok.1 hcondition)
    hsecond (expressionBefore_eq_ok.1 hupdate) hclose (ih.statement hbody)

theorem imports_of_ok (h : importForm s = .ok st s') : ReadsStatement s st s' := by
  unfold importForm at h
  rw [here_bind] at h
  obtain ⟨d, s₁, hd, h⟩ := bind_eq_ok.1 h
  replace h := nodeFrom_bind.symm.trans h
  obtain ⟨rfl, rfl⟩ := pure_eq_ok.1 h
  exact .imports (importDeclaration_eq_ok.1 hd)

theorem block_of_ok (ih : SoundStatement n) (h : blockForm (blockLevel n) s = .ok st s') :
    ReadsStatement s st s' := by
  unfold blockForm at h
  rw [here_bind] at h
  obtain ⟨body, s₁, hbody, h⟩ := bind_eq_ok.1 h
  replace h := nodeFrom_bind.symm.trans h
  obtain ⟨rfl, rfl⟩ := pure_eq_ok.1 h
  obtain ⟨s₂, s₃, hbrace, hbody, hend⟩ := ih.block hbody
  exact .block hbrace hbody hend

theorem empty_of_ok (hk : s.kind? = some (.symbol .semicolon)) (h : emptyForm s = .ok st s') :
    ReadsStatement s st s' := by
  obtain ⟨s₁, hsemicolon⟩ := takes_of_kind? hk
  unfold emptyForm at h
  rw [here_bind, skip_bind hsemicolon] at h
  replace h := nodeFrom_bind.symm.trans h
  obtain ⟨rfl, rfl⟩ := pure_eq_ok.1 h
  exact .empty hsemicolon

theorem expression_of_ok (h : expressionForm s = .ok st s') : ReadsStatement s st s' := by
  unfold expressionForm at h
  rw [here_bind] at h
  obtain ⟨e, s₁, he, h⟩ := bind_eq_ok.1 h
  obtain ⟨_, s₂, hend, h⟩ := bind_eq_ok.1 h
  replace h := nodeFrom_bind.symm.trans h
  obtain ⟨rfl, rfl⟩ := pure_eq_ok.1 h
  exact .expression (expression_eq_ok.1 he) (endStatement_eq_ok.1 hend)

theorem statement_of_ok (ih : SoundStatement n) (h : statementLevel (n + 1) s = .ok st s') :
    ReadsStatement s st s' := by
  rw [statementLevel_succ] at h
  cases hk : s.kind? with
  | none =>
    rw [hk] at h
    exact expression_of_ok h
  | some k =>
    rw [hk] at h
    cases k with
    | keyword word =>
      cases word with
      | importWord => exact imports_of_ok h
      | exportWord => exact exports_of_ok ih hk h
      | letWord | constWord | varWord => exact declared_of_ok (by rw [hk]; rfl) h
      | functionWord => exact function_of_ok ih h
      | returnWord => exact returns_of_ok hk h
      | ifWord => exact branch_of_ok ih h
      | whileWord => exact whileLoop_of_ok ih hk h
      | forWord => exact forLoop_of_ok ih h
      | _ => exact expression_of_ok h
    | symbol mark =>
      cases mark with
      | leftBrace => exact block_of_ok ih h
      | semicolon => exact empty_of_ok hk h
      | _ => exact expression_of_ok h
    | _ => exact expression_of_ok h

theorem body_of_ok {ss : List Statement} (ih : SoundStatement n)
    (h : blockBody (n + 1) s = .ok ss s') : ReadsBody s ss s' := by
  unfold blockBody at h
  rcases (at?_ite_eq_ok (by decide)).1 h with ⟨hbrace, h⟩ | ⟨-, h⟩
  · obtain ⟨rfl, rfl⟩ := pure_eq_ok.1 h
    exact .close hbrace
  · rw [at?_bind] at h
    split at h
    · rw [here_bind] at h
      exact absurd h throw_ne_ok
    · obtain ⟨first, s₁, hfirst, h⟩ := bind_eq_ok.1 h
      obtain ⟨rest, s₂, hrest, h⟩ := bind_eq_ok.1 h
      obtain ⟨rfl, rfl⟩ := pure_eq_ok.1 h
      exact .more (ih.statement hfirst) (ih.body hrest)

theorem soundStatement : ∀ n, SoundStatement n
  | 0 =>
    { statement := fun h => absurd h outOfSteps_ne_ok
      block := fun h => absurd h outOfSteps_ne_ok
      body := fun h => absurd h outOfSteps_ne_ok }
  | n + 1 =>
    { statement := statement_of_ok (soundStatement n)
      block := by
        intro s s' ss h
        unfold blockLevel at h
        obtain ⟨s₁, hbrace, h⟩ := (expect_bind_takes (by decide)).1 h
        obtain ⟨inner, s₂, hinner, h⟩ := bind_eq_ok.1 h
        obtain ⟨s₃, hend, h⟩ := (expect_bind_takes (by decide)).1 h
        obtain ⟨rfl, rfl⟩ := pure_eq_ok.1 h
        exact ⟨s₁, s₂, hbrace, (soundStatement n).body hinner, hend⟩
      body := body_of_ok (soundStatement n) }

end Sound

/-! ## The relation is followed -/

theorem ReadsStatement.starts {st : Statement} (h : ReadsStatement s st s') :
    ∃ k, s.kind? = some k ∧ k.startsStatement = true := by
  cases h with
  | imports h =>
    cases h with
    | bare himport | bound himport => exact ⟨_, himport.kind?, rfl⟩
  | exports h | function h | returns h | branch h | branch_else h | whileLoop h | forLoop h
  | block h | empty h => exact ⟨_, h.kind?, rfl⟩
  | declared h =>
    rename_i word _ _
    obtain ⟨hword, -⟩ := h
    exact ⟨_, hword.kind?, by cases word <;> rfl⟩
  | expression h =>
    obtain ⟨k, hk, hstart⟩ := startsExpression_of_assignment h
    refine ⟨k, hk, ?_⟩
    cases k with
    | keyword word => simp [TokenKind.startsStatement, hstart]
    | symbol mark => simp [TokenKind.startsStatement, hstart]
    | _ => exact hstart

section Run

variable {inner : Parse Statement} {block : Parse (List Statement)} {n : Nat}
  {s₁ s₂ s₃ s₄ s₅ s₆ s₇ s₈ : ParserState}

theorem run_imports {d : ImportDeclaration} (h : ReadsImport s d s') :
    importForm s = .ok (.imports (s'.nodeFrom s.here) d) s'.grown := by
  unfold importForm
  rw [here_bind, bind_of_ok (importDeclaration_eq_ok.2 h)]
  rfl

theorem run_exports {exported : Statement} (hexport : s.Takes (.keyword .exportWord) s₁)
    (h : inner s₁ = .ok exported s') (hinner : exported.isDeclaration = true) :
    exportForm inner s = .ok (.exports (s'.nodeFrom s.here) exported) s'.grown := by
  unfold exportForm
  rw [here_bind, skip_bind hexport, bind_of_ok h, if_pos hinner]
  rfl

theorem run_declared {word : DeclarationWord} {ds : List Declarator}
    (h : ReadsVariable s word ds s₁) (hend : EndsStatement s₁ s') :
    variableForm s = .ok (.variable (s'.nodeFrom s.here) word ds) s'.grown := by
  have hk : startsVariable s.kind? = true := by
    rw [h.kind?]
    exact startsVariable_keyword word
  unfold variableForm
  rw [here_bind, bind_of_ok ((variableDeclaration_eq_ok hk).2 h)]
  refine (bind_of_ok (endStatement_eq_ok.2 hend)).trans ?_
  rfl

theorem run_function {name : String} {ps : List Parameter} {result : Option String}
    {body : List Statement} (hfunction : s.Takes (.keyword .functionWord) s₁)
    (hname : s₁.Takes (.identifier name) s₂) (hopen : s₂.Takes (.symbol .leftParen) s₃)
    (hparameters : ReadsParameters s₃ ps s₄) (hclose : s₄.Takes (.symbol .rightParen) s₅)
    (hresult : ReadsAscribed s₅ result s₆) (hbody : block s₆ = .ok body s') :
    functionForm block s = .ok (.function (s'.nodeFrom s.here) name ps result body) s'.grown := by
  unfold functionForm
  rw [here_bind]
  refine (expect_bind_takes (by decide)).2 ⟨_, hfunction, ?_⟩
  refine expectIdentifier_bind_takes.2 ⟨_, _, hname, ?_⟩
  refine (expect_bind_takes (by decide)).2 ⟨_, hopen, ?_⟩
  rw [bind_of_ok (parameters_eq_ok.2 hparameters)]
  refine (expect_bind_takes (by decide)).2 ⟨_, hclose, ?_⟩
  rw [bind_of_ok (ascription?_eq_ok.2 hresult), bind_of_ok hbody]
  rfl

theorem run_returns {value : Option Expression} (hreturn : s.Takes (.keyword .returnWord) s₁)
    (h : ReadsReturned s₁ value s₂) (hend : EndsStatement s₂ s') :
    returnForm s = .ok (.returns (s'.nodeFrom s.here) value) s'.grown := by
  unfold returnForm
  rw [here_bind, skip_bind hreturn]
  refine returned_bind_eq_ok.2 ⟨_, _, h, ?_⟩
  refine (bind_of_ok (endStatement_eq_ok.2 hend)).trans ?_
  rfl

theorem run_branch {condition : Expression} {yes : Statement}
    (hif : s.Takes (.keyword .ifWord) s₁) (hopen : s₁.Takes (.symbol .leftParen) s₂)
    (hcondition : Reads .assignment s₂ condition s₃) (hclose : s₃.Takes (.symbol .rightParen) s₄)
    (hyes : inner s₄ = .ok yes s') (helse : s'.kind? ≠ some (.keyword .elseWord)) :
    branchForm inner s = .ok (.branch (s'.nodeFrom s.here) condition yes none) s'.grown := by
  unfold branchForm
  rw [here_bind]
  refine (expect_bind_takes (by decide)).2 ⟨_, hif, ?_⟩
  refine (expect_bind_takes (by decide)).2 ⟨_, hopen, ?_⟩
  rw [bind_of_ok (expression_eq_ok.2 hcondition)]
  refine (expect_bind_takes (by decide)).2 ⟨_, hclose, ?_⟩
  rw [bind_of_ok hyes]
  exact (accept_bind_takes (by decide)).2 (Or.inl ⟨helse, rfl⟩)

theorem run_branch_else {condition : Expression} {yes no : Statement}
    (hif : s.Takes (.keyword .ifWord) s₁) (hopen : s₁.Takes (.symbol .leftParen) s₂)
    (hcondition : Reads .assignment s₂ condition s₃) (hclose : s₃.Takes (.symbol .rightParen) s₄)
    (hyes : inner s₄ = .ok yes s₅) (helse : s₅.Takes (.keyword .elseWord) s₆)
    (hno : inner s₆ = .ok no s') : branchForm inner s =
      .ok (.branch (s'.nodeFrom s.here) condition yes (some no)) s'.grown := by
  unfold branchForm
  rw [here_bind]
  refine (expect_bind_takes (by decide)).2 ⟨_, hif, ?_⟩
  refine (expect_bind_takes (by decide)).2 ⟨_, hopen, ?_⟩
  rw [bind_of_ok (expression_eq_ok.2 hcondition)]
  refine (expect_bind_takes (by decide)).2 ⟨_, hclose, ?_⟩
  rw [bind_of_ok hyes]
  refine (accept_bind_takes (by decide)).2 (Or.inr ⟨_, helse, ?_⟩)
  rw [if_pos rfl, bind_of_ok hno]
  rfl

theorem run_whileLoop {condition : Expression} {body : Statement}
    (hwhile : s.Takes (.keyword .whileWord) s₁) (hopen : s₁.Takes (.symbol .leftParen) s₂)
    (hcondition : Reads .assignment s₂ condition s₃) (hclose : s₃.Takes (.symbol .rightParen) s₄)
    (hbody : inner s₄ = .ok body s') : whileForm inner s =
      .ok (.whileLoop (s'.nodeFrom s.here) condition body) s'.grown := by
  unfold whileForm
  rw [here_bind, skip_bind hwhile]
  refine (expect_bind_takes (by decide)).2 ⟨_, hopen, ?_⟩
  rw [bind_of_ok (expression_eq_ok.2 hcondition)]
  refine (expect_bind_takes (by decide)).2 ⟨_, hclose, ?_⟩
  rw [bind_of_ok hbody]
  rfl

theorem run_forLoop {start : Option Statement} {condition update : Option Expression}
    {body : Statement} (hfor : s.Takes (.keyword .forWord) s₁)
    (hopen : s₁.Takes (.symbol .leftParen) s₂) (hstart : ReadsStart s₂ start s₃)
    (hfirst : s₃.Takes (.symbol .semicolon) s₄)
    (hcondition : ReadsBefore .semicolon s₄ condition s₅)
    (hsecond : s₅.Takes (.symbol .semicolon) s₆) (hupdate : ReadsBefore .rightParen s₆ update s₇)
    (hclose : s₇.Takes (.symbol .rightParen) s₈) (hbody : inner s₈ = .ok body s') :
    forForm inner s =
      .ok (.forLoop (s'.nodeFrom s.here) start condition update body) s'.grown := by
  unfold forForm
  rw [here_bind]
  refine (expect_bind_takes (by decide)).2 ⟨_, hfor, ?_⟩
  refine (expect_bind_takes (by decide)).2 ⟨_, hopen, ?_⟩
  rw [bind_of_ok (forStart_eq_ok.2 hstart)]
  refine (expect_bind_takes (by decide)).2 ⟨_, hfirst, ?_⟩
  rw [bind_of_ok (expressionBefore_eq_ok.2 hcondition)]
  refine (expect_bind_takes (by decide)).2 ⟨_, hsecond, ?_⟩
  rw [bind_of_ok (expressionBefore_eq_ok.2 hupdate)]
  refine (expect_bind_takes (by decide)).2 ⟨_, hclose, ?_⟩
  rw [bind_of_ok hbody]
  rfl

theorem run_block {body : List Statement} (hbody : block s = .ok body s') :
    blockForm block s = .ok (.block (s'.nodeFrom s.here) body) s'.grown := by
  unfold blockForm
  rw [here_bind, bind_of_ok hbody]
  rfl

theorem run_empty (h : s.Takes (.symbol .semicolon) s') :
    emptyForm s = .ok (.empty (s'.nodeFrom s.here)) s'.grown := by
  unfold emptyForm
  rw [here_bind, skip_bind h]
  rfl

theorem run_expression {e : Expression} (h : Reads .assignment s e s₁)
    (hend : EndsStatement s₁ s') :
    expressionForm s = .ok (.expression (s'.nodeFrom s.here) e) s'.grown := by
  unfold expressionForm
  rw [here_bind, bind_of_ok (expression_eq_ok.2 h)]
  refine (bind_of_ok (endStatement_eq_ok.2 hend)).trans ?_
  rfl

theorem form_keyword (word : DeclarationWord) :
    form inner block (some (.keyword word.keyword)) = variableForm := by
  cases word <;> rfl

/-- The words and symbols with statements of their own start no expression. -/
theorem form_of_startsExpression {k : TokenKind} (h : k.startsExpression = true) :
    form inner block (some k) = expressionForm := by
  cases k with
  | keyword word => cases word <;> first | (cases h; done) | rfl
  | symbol mark => cases mark <;> first | (cases h; done) | rfl
  | _ => rfl

theorem run_blockLevel {body : List Statement} (hbrace : s.Takes (.symbol .leftBrace) s₁)
    (hbody : blockBody n s₁ = .ok body s₂) (hend : s₂.Takes (.symbol .rightBrace) s') :
    blockLevel (n + 1) s = .ok body s' := by
  unfold blockLevel
  refine (expect_bind_takes (by decide)).2 ⟨_, hbrace, ?_⟩
  rw [bind_of_ok hbody]
  exact (expect_bind_takes (by decide)).2 ⟨_, hend, rfl⟩

theorem isAt_end_of_starts {st : Statement} (h : ReadsStatement s st s₁) :
    s.isAt .endOfFile = false := by
  obtain ⟨k, hk, hstart⟩ := h.starts
  obtain ⟨t, ts, ht, rfl⟩ := ParserState.exists_of_kind? hk
  unfold ParserState.isAt
  rw [ht]
  refine decide_eq_false ?_
  intro hend
  rw [hend] at hstart
  cases hstart

end Run

mutual

/-- With sixteen steps for each token taken, and two more, a statement is read. -/
theorem ReadsStatement.run {s s' : ParserState} {st : Statement} : ReadsStatement s st s' → ∀ n,
    16 * s.tokens.length + 2 ≤ n + 1 + 16 * s'.tokens.length →
      statementLevel (n + 1) s = .ok st s'
  | .imports h, n, _ => by
    rw [statementLevel_succ, h.kind?]
    exact run_imports h
  | .declared h hend, n, _ => by
    rw [statementLevel_succ, h.kind?, form_keyword]
    exact run_declared h hend
  | .returns hreturn h hend, n, _ => by
    rw [statementLevel_succ, hreturn.kind?]
    exact run_returns hreturn h hend
  | .empty h, n, _ => by
    rw [statementLevel_succ, h.kind?]
    exact run_empty h
  | .expression h hend, n, _ => by
    obtain ⟨k, hk, hstart⟩ := startsExpression_of_assignment h
    rw [statementLevel_succ, hk, form_of_startsExpression hstart]
    exact run_expression h hend
  | .exports hexport h hinner, n, hn => by
    have l₁ := hexport.length
    have l₂ := h.consumes.length
    simp only [ParserState.grown_tokens] at hn
    obtain ⟨m, rfl⟩ : ∃ m, n = m + 1 := ⟨n - 1, by omega⟩
    rw [statementLevel_succ, hexport.kind?]
    exact run_exports hexport (h.run m (by omega)) hinner
  | .function hfunction hname hopen hparameters hclose hresult hbrace hbody hend, n, hn => by
    have l₁ := hfunction.length
    have l₂ := (hname.leads.trans (hopen.leads.trans
      (hparameters.skips.leads.trans (hclose.leads.trans hresult.skips.leads)))).length
    have l₃ := hbrace.length
    have l₄ := hbody.leads.length
    have l₅ := hend.length
    simp only [ParserState.grown_tokens] at hn
    obtain ⟨m, rfl⟩ : ∃ m, n = m + 1 + 1 := ⟨n - 2, by omega⟩
    rw [statementLevel_succ, hfunction.kind?]
    exact run_function hfunction hname hopen hparameters hclose hresult
      (run_blockLevel hbrace (hbody.run m (by omega)) hend)
  | .branch hif hopen hcondition hclose hyes helse, n, hn => by
    have l₁ := hif.length
    have l₂ := (hopen.leads.trans (hcondition.leads.trans hclose.leads)).length
    have l₃ := hyes.consumes.length
    simp only [ParserState.grown_tokens] at hn
    obtain ⟨m, rfl⟩ : ∃ m, n = m + 1 := ⟨n - 1, by omega⟩
    rw [statementLevel_succ, hif.kind?]
    exact run_branch hif hopen hcondition hclose (hyes.run m (by omega)) helse
  | .branch_else hif hopen hcondition hclose hyes helse hno, n, hn => by
    have l₁ := hif.length
    have l₂ := (hopen.leads.trans (hcondition.leads.trans hclose.leads)).length
    have l₃ := hyes.consumes.length
    have l₄ := helse.length
    have l₅ := hno.consumes.length
    simp only [ParserState.grown_tokens] at hn
    obtain ⟨m, rfl⟩ : ∃ m, n = m + 1 := ⟨n - 1, by omega⟩
    rw [statementLevel_succ, hif.kind?]
    exact run_branch_else hif hopen hcondition hclose (hyes.run m (by omega)) helse
      (hno.run m (by omega))
  | .whileLoop hwhile hopen hcondition hclose hbody, n, hn => by
    have l₁ := hwhile.length
    have l₂ := (hopen.leads.trans (hcondition.leads.trans hclose.leads)).length
    have l₃ := hbody.consumes.length
    simp only [ParserState.grown_tokens] at hn
    obtain ⟨m, rfl⟩ : ∃ m, n = m + 1 := ⟨n - 1, by omega⟩
    rw [statementLevel_succ, hwhile.kind?]
    exact run_whileLoop hwhile hopen hcondition hclose (hbody.run m (by omega))
  | .forLoop hfor hopen hstart hfirst hcondition hsecond hupdate hclose hbody, n, hn => by
    have l₁ := hfor.length
    have l₂ := (hopen.leads.trans (hstart.leads.trans (hfirst.leads.trans (hcondition.leads.trans
      (hsecond.leads.trans (hupdate.leads.trans hclose.leads)))))).length
    have l₃ := hbody.consumes.length
    simp only [ParserState.grown_tokens] at hn
    obtain ⟨m, rfl⟩ : ∃ m, n = m + 1 := ⟨n - 1, by omega⟩
    rw [statementLevel_succ, hfor.kind?]
    exact run_forLoop hfor hopen hstart hfirst hcondition hsecond hupdate hclose
      (hbody.run m (by omega))
  | .block hbrace hbody hend, n, hn => by
    have l₁ := hbrace.length
    have l₂ := hbody.leads.length
    have l₃ := hend.length
    simp only [ParserState.grown_tokens] at hn
    obtain ⟨m, rfl⟩ : ∃ m, n = m + 1 + 1 := ⟨n - 2, by omega⟩
    rw [statementLevel_succ, hbrace.kind?]
    exact run_block (run_blockLevel hbrace (hbody.run m (by omega)) hend)

theorem ReadsBody.run {s s' : ParserState} {ss : List Statement} : ReadsBody s ss s' → ∀ n,
    16 * s.tokens.length + 3 ≤ n + 1 + 16 * s'.tokens.length →
      blockBody (n + 1) s = .ok ss s'
  | .close hbrace, n, _ => by
    unfold blockBody
    exact (at?_ite_eq_ok (by decide)).2 (Or.inl ⟨hbrace, rfl⟩)
  | .more h hrest, n, hn => by
    have l₁ := h.consumes.length
    have l₂ := hrest.leads.length
    obtain ⟨m, rfl⟩ : ∃ m, n = m + 1 := ⟨n - 1, by omega⟩
    have hbrace : s.kind? ≠ some (.symbol .rightBrace) := by
      obtain ⟨k, hk, hstart⟩ := h.starts
      rw [hk]
      rintro ⟨⟩
      cases hstart
    unfold blockBody
    refine (at?_ite_eq_ok (by decide)).2 (Or.inr ⟨hbrace, ?_⟩)
    rw [at?_bind, isAt_end_of_starts h, if_neg (by decide), bind_of_ok (h.run m (by omega)),
      bind_of_ok (hrest.run m (by omega))]
    rfl

end

/-- **`Parse.statement` is the relation.** The steps it allows are always enough. -/
theorem statement_eq_ok {st : Statement} : statement s = .ok st s' ↔ ReadsStatement s st s' := by
  constructor
  · intro h
    exact (soundStatement _).statement h
  · intro h
    exact h.run (16 * s.tokens.length + 15) (by omega)

theorem readsFile_of_ok {ss : List Statement} :
    ∀ (n : Nat) {s : ParserState}, statements n s = .ok ss s' → ReadsFile s ss s' := by
  intro n
  induction n generalizing ss with
  | zero =>
    intro s h
    exact absurd h outOfSteps_ne_ok
  | succ n ih =>
    intro s h
    unfold statements at h
    rw [at?_bind] at h
    split at h
    · rename_i hend
      obtain ⟨rfl, rfl⟩ := pure_eq_ok.1 h
      exact .stop hend
    · obtain ⟨first, s₁, hfirst, h⟩ := bind_eq_ok.1 h
      obtain ⟨rest, s₂, hrest, h⟩ := bind_eq_ok.1 h
      obtain ⟨rfl, rfl⟩ := pure_eq_ok.1 h
      exact .more (statement_eq_ok.1 hfirst) (ih hrest)

theorem ReadsFile.run {ss : List Statement} (h : ReadsFile s ss s') :
    ∀ n, s.tokens.length < n → statements n s = .ok ss s' := by
  induction h with
  | stop hend =>
    intro n hn
    obtain ⟨m, rfl⟩ : ∃ m, n = m + 1 := ⟨n - 1, by omega⟩
    unfold statements
    rw [at?_bind, if_pos hend]
    rfl
  | more h hrest ih =>
    intro n hn
    have l := h.consumes.length
    obtain ⟨m, rfl⟩ : ∃ m, n = m + 1 := ⟨n - 1, by omega⟩
    unfold statements
    rw [at?_bind, isAt_end_of_starts h, if_neg (by decide)]
    refine (bind_of_ok (statement_eq_ok.2 h)).trans ?_
    rw [bind_of_ok (ih m (by omega))]
    rfl

theorem ReadsFile.leads {ss : List Statement} (h : ReadsFile s ss s') : s.Leads s' := by
  induction h with
  | stop => exact .refl
  | more h _ ih => exact h.consumes.leads.trans ih

theorem ReadsFile.isAt {ss : List Statement} (h : ReadsFile s ss s') :
    s'.isAt .endOfFile = true := by
  induction h with
  | stop hend => exact hend
  | more _ _ ih => exact ih

/-- **`Parse.program` is the relation.** -/
theorem program_eq_ok {p : Program} : program s = .ok p s' ↔ ∃ ss s₁, ReadsFile s ss s₁ ∧
    p = ⟨s₁.nodeFrom s.here, s.file, ss, s₁.nextId + 1⟩ ∧ s' = s₁.grown := by
  have hfile : ∀ {ss s₁}, withSteps statements s = .ok ss s₁ ↔ ReadsFile s ss s₁ := by
    intro ss s₁
    constructor
    · intro h
      exact readsFile_of_ok _ h
    · intro h
      exact h.run _ (by unfold steps; omega)
  unfold program
  rw [here_bind, bind_eq_ok]
  constructor
  · rintro ⟨ss, s₁, hss, h⟩
    replace h := nodeFrom_bind.symm.trans h
    obtain ⟨rfl, rfl⟩ := pure_eq_ok.1 h
    have hss := hfile.1 hss
    refine ⟨ss, s₁, hss, ?_, rfl⟩
    rw [← hss.leads.file]
    rfl
  · rintro ⟨ss, s₁, hss, rfl, rfl⟩
    refine ⟨ss, s₁, hfile.2 hss, ?_⟩
    rw [← hss.leads.file]
    rfl

end Parse

/-- **Reading a text**: it is split into tokens, and statements are read up to the end of file. -/
theorem Program.parse_eq_ok {source file : String} {p : Program} :
    Program.parse source file = .ok p ↔ ∃ ts ss s', tokenize source file = .ok ts ∧
      Parse.ReadsFile (.ofTokens ts file) ss s' ∧
      p = ⟨s'.nodeFrom (ParserState.ofTokens ts file).here, file, ss, s'.nextId + 1⟩ := by
  unfold Program.parse ParserState.ofSource
  cases hts : tokenize source file with
  | error e =>
    constructor
    · intro h
      cases h
    · rintro ⟨ts, _, _, ⟨⟩, -⟩
  | ok ts =>
    show Parse.program.value (.ofTokens ts file) = .ok p ↔ _
    unfold Parse.value
    constructor
    · intro h
      cases hprogram : Parse.program (.ofTokens ts file) with
      | error e s' =>
        rw [hprogram] at h
        cases h
      | ok q s' =>
        rw [hprogram] at h
        cases h
        obtain ⟨ss, s₁, hread, hp, -⟩ := Parse.program_eq_ok.1 hprogram
        exact ⟨ts, ss, s₁, rfl, hread, hp⟩
    · rintro ⟨_, ss, s', ⟨⟩, hread, hp⟩
      rw [Parse.program_eq_ok.2 ⟨ss, s', hread, hp, rfl⟩]

end DecimalLift
