import DecimalLift.Parse.Statement
import DecimalLift.Proofs.Parse.Ascription
import DecimalLift.Proofs.Parse.Expression

/-!
# The grammar of declarations

The lists inside statements: names of an import, variables of a declaration, parameters of a
function. Each of their readers is described by a relation, and is that relation.

* `ReadsAscribed`, `ReadsInitial`, `EndsStatement` — the optional parts.
* `GoesOn` — where an item of a list ends, and what the readers of all lists do there.
* `ReadsSpecifiers`, `ReadsDeclarators`, `ReadsParameters` — the lists.
* `ReadsImport`, `ReadsVariable` — the declarations made of them.
* `importDeclaration_eq_ok`, `variableDeclaration_eq_ok`, … — the readers are the relations.
-/

set_option autoImplicit false

namespace DecimalLift.Parse

open ParserState (Takes Leads takes_of_kind? isAt_eq_true isAt_eq_false)

variable {s s' : ParserState}

/-! ## Optional parts -/

/-- An ascription behind a colon, if there is a colon. -/
inductive ReadsAscribed : ParserState → Option String → ParserState → Prop
  | none {s : ParserState} (hcolon : s.kind? ≠ some (.symbol .colon)) : ReadsAscribed s none s
  | some {s s₁ s' : ParserState} {text : String} (hcolon : s.Takes (.symbol .colon) s₁)
      (h : ReadsType .union s₁ text s') : ReadsAscribed s (some text) s'

/-- An initial value behind an equals sign, if there is one. -/
inductive ReadsInitial : ParserState → Option Expression → ParserState → Prop
  | none {s : ParserState} (hequal : s.kind? ≠ some (.symbol .equal)) : ReadsInitial s none s
  | some {s s₁ s' : ParserState} {e : Expression} (hequal : s.Takes (.symbol .equal) s₁)
      (h : Reads .assignment s₁ e s') : ReadsInitial s (some e) s'

/-- A semicolon, or a place where one is not needed. -/
inductive EndsStatement : ParserState → ParserState → Prop
  | semicolon {s s' : ParserState} (h : s.Takes (.symbol .semicolon) s') : EndsStatement s s'
  | implied {s : ParserState} (hsemicolon : s.kind? ≠ some (.symbol .semicolon))
      (h : ∀ t ∈ s.tokens.head?,
        t.afterBreak = true ∨ t.kind = .symbol .rightBrace ∨ t.kind = .endOfFile) :
      EndsStatement s s

theorem ReadsAscribed.skips {type : Option String} (h : ReadsAscribed s type s') : s.Skips s' := by
  cases h with
  | none => exact .refl
  | some hcolon h => exact hcolon.skips.trans h.skips

theorem ReadsInitial.leads {initial : Option Expression} (h : ReadsInitial s initial s') :
    s.Leads s' := by
  cases h with
  | none => exact .refl
  | some hequal h => exact hequal.leads.trans h.leads

theorem EndsStatement.skips (h : EndsStatement s s') : s.Skips s' := by
  cases h with
  | semicolon h => exact h.skips
  | implied => exact .refl

theorem ascription?_eq_ok {type : Option String} :
    ascription? s = .ok type s' ↔ ReadsAscribed s type s' := by
  unfold ascription?
  rw [accept_bind_takes (by decide)]
  constructor
  · rintro (⟨hcolon, h⟩ | ⟨s₁, hcolon, h⟩)
    · obtain ⟨rfl, rfl⟩ := pure_eq_ok.1 h
      exact .none hcolon
    · obtain ⟨text, s₂, htext, h⟩ := bind_eq_ok.1 h
      obtain ⟨rfl, rfl⟩ := pure_eq_ok.1 h
      exact .some hcolon (ascription_eq_ok.1 htext)
  · intro h
    cases h with
    | none hcolon => exact Or.inl ⟨hcolon, rfl⟩
    | some hcolon h =>
      refine Or.inr ⟨_, hcolon, ?_⟩
      rw [if_pos rfl, bind_of_ok (ascription_eq_ok.2 h)]
      rfl

/-- The optional initial value, as a reader of its own. -/
theorem initial_bind_eq_ok {β : Type} {f : Option Expression → Parse β} {b : β} :
    (accept (.symbol .equal) >>= fun found =>
      if found = true then expression >>= fun e => pure (some e) >>= f else pure none >>= f) s
        = .ok b s' ↔ ∃ initial s₁, ReadsInitial s initial s₁ ∧ f initial s₁ = .ok b s' := by
  rw [accept_bind_takes (by decide)]
  constructor
  · rintro (⟨hequal, h⟩ | ⟨s₁, hequal, h⟩)
    · exact ⟨none, s, .none hequal, h⟩
    · rw [if_pos rfl] at h
      obtain ⟨e, s₂, he, h⟩ := bind_eq_ok.1 h
      exact ⟨some e, s₂, .some hequal (expression_eq_ok.1 he), h⟩
  · rintro ⟨initial, s₁, h, hf⟩
    cases h with
    | none hequal => exact Or.inl ⟨hequal, hf⟩
    | some hequal h =>
      refine Or.inr ⟨_, hequal, ?_⟩
      rw [if_pos rfl, bind_of_ok (expression_eq_ok.2 h)]
      exact hf

theorem endStatement_eq_ok {context : String} :
    endStatement context s = .ok () s' ↔ EndsStatement s s' := by
  unfold endStatement
  rw [accept_bind_takes (by decide)]
  constructor
  · rintro (⟨hsemicolon, h⟩ | ⟨s₁, hsemicolon, h⟩)
    · rw [if_neg (by decide), peek?_bind] at h
      cases hhead : s.tokens.head? with
      | none =>
        rw [hhead] at h
        obtain ⟨-, rfl⟩ := pure_eq_ok.1 h
        exact .implied hsemicolon (by rw [hhead]; simp)
      | some t =>
        rw [hhead] at h
        simp only at h
        split at h
        · rename_i hends
          obtain ⟨-, rfl⟩ := pure_eq_ok.1 h
          refine .implied hsemicolon ?_
          rw [hhead]
          intro t' ht'
          cases ht'
          simpa [or_assoc] using hends
        · obtain ⟨t', ts, ht, hkind, -⟩ := (expect_eq_ok (by decide)).1 h
          rw [ParserState.kind?_of_tokens ht, hkind] at hsemicolon
          exact absurd rfl hsemicolon
    · obtain ⟨-, rfl⟩ := pure_eq_ok.1 h
      exact .semicolon hsemicolon
  · intro h
    cases h with
    | semicolon h => exact Or.inr ⟨_, h, rfl⟩
    | implied hsemicolon h =>
      refine Or.inl ⟨hsemicolon, ?_⟩
      rw [if_neg (by decide), peek?_bind]
      cases hhead : s.tokens.head? with
      | none => rfl
      | some t =>
        simp only
        rw [if_pos (by simpa [or_assoc] using h t hhead)]
        rfl

/-! ## Lists -/

section Lists

variable {α : Type} {x : α} {xs : List α} {more : Parse (List α)}

/-- The end of the item `x` of a list: the reader `more` takes the items behind a comma, if there is
one. -/
inductive GoesOn (more : Parse (List α)) (x : α) : ParserState → List α → ParserState → Prop
  | last {s : ParserState} (hcomma : s.kind? ≠ some (.symbol .comma)) : GoesOn more x s [x] s
  | more {s s₁ s' : ParserState} {rest : List α} (hcomma : s.Takes (.symbol .comma) s₁)
      (h : more s₁ = .ok rest s') : GoesOn more x s (x :: rest) s'

theorem goesOn_of_ok (h : (accept (.symbol .comma) >>= fun found =>
      if found = true then more >>= fun rest => pure (x :: rest) else pure [x]) s = .ok xs s') :
    GoesOn more x s xs s' := by
  rcases (accept_bind_takes (by decide)).1 h with ⟨hcomma, h⟩ | ⟨s₁, hcomma, h⟩
  · obtain ⟨rfl, rfl⟩ := pure_eq_ok.1 h
    exact .last hcomma
  · obtain ⟨rest, s₂, hrest, h⟩ := bind_eq_ok.1 h
    obtain ⟨rfl, rfl⟩ := pure_eq_ok.1 h
    exact .more hcomma hrest

theorem GoesOn.run (h : GoesOn more x s xs s') :
    (accept (.symbol .comma) >>= fun found =>
      if found = true then more >>= fun rest => pure (x :: rest) else pure [x]) s = .ok xs s' := by
  cases h with
  | last hcomma => exact (accept_bind_takes (by decide)).2 (Or.inl ⟨hcomma, rfl⟩)
  | more hcomma h =>
    refine (accept_bind_takes (by decide)).2 (Or.inr ⟨_, hcomma, ?_⟩)
    rw [if_pos rfl, bind_of_ok h]
    rfl

end Lists

/-! ## Imports -/

/-- The name that an import gets here: the one behind `as`, or its own. -/
inductive ReadsRenamed (imported : String) : ParserState → String → ParserState → Prop
  | same {s : ParserState} (has : s.kind? ≠ some (.identifier "as")) :
      ReadsRenamed imported s imported s
  | renamed {s s₁ s' : ParserState} {bound : String} (has : s.Takes (.identifier "as") s₁)
      (hbound : s₁.Takes (.identifier bound) s') : ReadsRenamed imported s bound s'

/-- The names between the braces of an import, up to the closing brace. -/
inductive ReadsSpecifiers : ParserState → List ImportSpecifier → ParserState → Prop
  | close {s : ParserState} (hbrace : s.kind? = some (.symbol .rightBrace)) :
      ReadsSpecifiers s [] s
  | last {s s₁ s' : ParserState} {imported bound : String}
      (himported : s.Takes (.identifier imported) s₁) (hbound : ReadsRenamed imported s₁ bound s')
      (hcomma : s'.kind? ≠ some (.symbol .comma)) : ReadsSpecifiers s [⟨imported, bound⟩] s'
  | more {s s₁ s₂ s₃ s' : ParserState} {imported bound : String} {rest : List ImportSpecifier}
      (himported : s.Takes (.identifier imported) s₁) (hbound : ReadsRenamed imported s₁ bound s₂)
      (hcomma : s₂.Takes (.symbol .comma) s₃) (hrest : ReadsSpecifiers s₃ rest s') :
      ReadsSpecifiers s (⟨imported, bound⟩ :: rest) s'

/-- A namespace or names between braces, added to the declaration `d`. -/
inductive ReadsClause (d : ImportDeclaration) :
    ParserState → ImportDeclaration → ParserState → Prop
  | scope {s s₁ s₂ s' : ParserState} {name : String} (hstar : s.Takes (.symbol .star) s₁)
      (has : s₁.Takes (.identifier "as") s₂) (hname : s₂.Takes (.identifier name) s') :
      ReadsClause d s { d with namespaceBinding := some name } s'
  | named {s s₁ s₂ s' : ParserState} {named : List ImportSpecifier}
      (hopen : s.Takes (.symbol .leftBrace) s₁) (h : ReadsSpecifiers s₁ named s₂)
      (hclose : s₂.Takes (.symbol .rightBrace) s') : ReadsClause d s { d with named := named } s'

/-- What is bound by an import, and the word `from`. -/
inductive ReadsBindings (d : ImportDeclaration) :
    ParserState → ImportDeclaration → ParserState → Prop
  | default {s s₁ s' : ParserState} {name : String} (hname : s.Takes (.identifier name) s₁)
      (hfrom : s₁.Takes (.identifier "from") s') :
      ReadsBindings d s { d with defaultBinding := some name } s'
  | both {s s₁ s₂ s₃ s' : ParserState} {name : String} {d' : ImportDeclaration}
      (hname : s.Takes (.identifier name) s₁) (hcomma : s₁.Takes (.symbol .comma) s₂)
      (h : ReadsClause { d with defaultBinding := some name } s₂ d' s₃)
      (hfrom : s₃.Takes (.identifier "from") s') : ReadsBindings d s d' s'
  | clause {s s₁ s' : ParserState} {d' : ImportDeclaration} (h : ReadsClause d s d' s₁)
      (hfrom : s₁.Takes (.identifier "from") s') : ReadsBindings d s d' s'

/-- A declaration that binds nothing yet and names no module. -/
def noImport : ImportDeclaration := ⟨none, none, [], "", .double, none⟩

/-- A whole import declaration. -/
inductive ReadsImport : ParserState → ImportDeclaration → ParserState → Prop
  | bare {s s₁ s₂ s' : ParserState} {value raw : String} {quote : Quote}
      (himport : s.Takes (.keyword .importWord) s₁) (hname : s₁.Takes (.string value quote raw) s₂)
      (hend : EndsStatement s₂ s') :
      ReadsImport s
        { noImport with moduleName := value, quote := quote, rawName := some raw } s'
  | bound {s s₁ s₂ s₃ s' : ParserState} {d : ImportDeclaration} {value raw : String} {quote : Quote}
      (himport : s.Takes (.keyword .importWord) s₁) (h : ReadsBindings noImport s₁ d s₂)
      (hname : s₂.Takes (.string value quote raw) s₃) (hend : EndsStatement s₃ s') :
      ReadsImport s { d with moduleName := value, quote := quote, rawName := some raw } s'

theorem ReadsRenamed.skips {imported bound : String} (h : ReadsRenamed imported s bound s') :
    s.Skips s' := by
  cases h with
  | same => exact .refl
  | renamed has hbound => exact has.skips.trans hbound.skips

theorem ReadsSpecifiers.skips {named : List ImportSpecifier} (h : ReadsSpecifiers s named s') :
    s.Skips s' := by
  induction h with
  | close => exact .refl
  | last himported hbound _ => exact himported.skips.trans hbound.skips
  | more himported hbound hcomma _ ih =>
    exact himported.skips.trans (hbound.skips.trans (hcomma.skips.trans ih))

theorem ReadsClause.skips {d d' : ImportDeclaration} (h : ReadsClause d s d' s') : s.Skips s' := by
  cases h with
  | scope hstar has hname => exact hstar.skips.trans (has.skips.trans hname.skips)
  | named hopen h hclose => exact hopen.skips.trans (h.skips.trans hclose.skips)

theorem ReadsBindings.skips {d d' : ImportDeclaration} (h : ReadsBindings d s d' s') :
    s.Skips s' := by
  cases h with
  | default hname hfrom => exact hname.skips.trans hfrom.skips
  | both hname hcomma h hfrom =>
    exact hname.skips.trans (hcomma.skips.trans (h.skips.trans hfrom.skips))
  | clause h hfrom => exact h.skips.trans hfrom.skips

theorem ReadsImport.kind? {d : ImportDeclaration} (h : ReadsImport s d s') :
    s.kind? = some (.keyword .importWord) := by
  cases h with
  | bare himport | bound himport => exact himport.kind?

theorem ReadsImport.consumes {d : ImportDeclaration} (h : ReadsImport s d s') : s.Consumes s' := by
  cases h with
  | bare himport hname hend => exact himport.consumes (hname.leads.trans hend.skips.leads)
  | bound himport h hname hend =>
    exact himport.consumes (h.skips.leads.trans (hname.leads.trans hend.skips.leads))

/-- The optional new name, as a reader of its own. -/
theorem renamed_bind_eq_ok {β : Type} {imported : String} {f : String → Parse β} {b : β} :
    (atWord? "as" >>= fun found =>
      if found = true then advance? >>= fun _ => expectIdentifier "import specifier" >>= f
      else pure imported >>= f) s = .ok b s' ↔
        ∃ bound s₁, ReadsRenamed imported s bound s₁ ∧ f bound s₁ = .ok b s' := by
  unfold atWord?
  rw [at?_ite_eq_ok (by decide)]
  constructor
  · rintro (⟨has, h⟩ | ⟨has, h⟩)
    · obtain ⟨s₁, htakes⟩ := takes_of_kind? has
      rw [skip_bind htakes] at h
      obtain ⟨bound, s₂, hbound, h⟩ := expectIdentifier_bind_takes.1 h
      exact ⟨bound, s₂, .renamed htakes hbound, h⟩
    · exact ⟨imported, s, .same has, h⟩
  · rintro ⟨bound, s₁, h, hf⟩
    cases h with
    | same has => exact Or.inr ⟨has, hf⟩
    | renamed has hbound =>
      refine Or.inl ⟨has.kind?, ?_⟩
      rw [skip_bind has]
      exact expectIdentifier_bind_takes.2 ⟨bound, _, hbound, hf⟩

/-- One round of the reader. -/
theorem specifiers_succ_eq_ok {n : Nat} {named : List ImportSpecifier} :
    specifiers (n + 1) s = .ok named s' ↔
      s.kind? = some (.symbol .rightBrace) ∧ named = [] ∧ s' = s ∨
      ∃ imported bound s₁ s₂, s.Takes (.identifier imported) s₁ ∧
        ReadsRenamed imported s₁ bound s₂ ∧
        GoesOn (specifiers n) ⟨imported, bound⟩ s₂ named s' := by
  rw [specifiers, at?_ite_eq_ok (by decide)]
  constructor
  · rintro (⟨hbrace, h⟩ | ⟨-, h⟩)
    · obtain ⟨rfl, rfl⟩ := pure_eq_ok.1 h
      exact Or.inl ⟨hbrace, rfl, rfl⟩
    · obtain ⟨imported, s₁, himported, h⟩ := expectIdentifier_bind_takes.1 h
      obtain ⟨bound, s₂, hbound, h⟩ := renamed_bind_eq_ok.1 h
      exact Or.inr ⟨imported, bound, s₁, s₂, himported, hbound, goesOn_of_ok h⟩
  · rintro (⟨hbrace, rfl, rfl⟩ | ⟨imported, bound, s₁, s₂, himported, hbound, h⟩)
    · exact Or.inl ⟨hbrace, rfl⟩
    · refine Or.inr ⟨by rw [himported.kind?]; simp, ?_⟩
      refine expectIdentifier_bind_takes.2 ⟨imported, s₁, himported, ?_⟩
      exact renamed_bind_eq_ok.2 ⟨bound, s₂, hbound, h.run⟩

theorem readsSpecifiers_of_ok {named : List ImportSpecifier} :
    ∀ (n : Nat) {s : ParserState}, specifiers n s = .ok named s' → ReadsSpecifiers s named s' := by
  intro n
  induction n generalizing named with
  | zero =>
    intro s h
    exact absurd h outOfSteps_ne_ok
  | succ n ih =>
    intro s h
    rcases specifiers_succ_eq_ok.1 h with
      ⟨hbrace, rfl, rfl⟩ | ⟨imported, bound, s₁, s₂, himported, hbound, h⟩
    · exact .close hbrace
    · cases h with
      | last hcomma => exact .last himported hbound hcomma
      | more hcomma h => exact .more himported hbound hcomma (ih h)

theorem ReadsSpecifiers.run {named : List ImportSpecifier} (h : ReadsSpecifiers s named s') :
    ∀ n, s.tokens.length < n → specifiers n s = .ok named s' := by
  induction h with
  | close hbrace =>
    intro n hn
    obtain ⟨m, rfl⟩ : ∃ m, n = m + 1 := ⟨n - 1, by omega⟩
    exact specifiers_succ_eq_ok.2 (Or.inl ⟨hbrace, rfl, rfl⟩)
  | last himported hbound hcomma =>
    intro n hn
    obtain ⟨m, rfl⟩ : ∃ m, n = m + 1 := ⟨n - 1, by omega⟩
    exact specifiers_succ_eq_ok.2 (Or.inr ⟨_, _, _, _, himported, hbound, .last hcomma⟩)
  | more himported hbound hcomma hrest ih =>
    intro n hn
    have l₁ := himported.length
    have l₂ := hbound.skips.leads.length
    have l₃ := hcomma.length
    obtain ⟨m, rfl⟩ : ∃ m, n = m + 1 := ⟨n - 1, by omega⟩
    exact specifiers_succ_eq_ok.2
      (Or.inr ⟨_, _, _, _, himported, hbound, .more hcomma (ih m (by omega))⟩)

theorem specifiers_eq_ok {named : List ImportSpecifier} :
    withSteps specifiers s = .ok named s' ↔ ReadsSpecifiers s named s' := by
  constructor
  · intro h
    exact readsSpecifiers_of_ok _ h
  · intro h
    exact h.run _ (by unfold steps; omega)

theorem importClause_eq_ok {d d' : ImportDeclaration} :
    importClause d s = .ok d' s' ↔ ReadsClause d s d' s' := by
  unfold importClause
  rw [accept_bind_takes (by decide)]
  constructor
  · rintro (⟨-, h⟩ | ⟨s₁, hstar, h⟩)
    · rw [if_neg (by decide)] at h
      obtain ⟨s₁, hopen, h⟩ := (expect_bind_takes (by decide)).1 h
      obtain ⟨named, s₂, hnamed, h⟩ := bind_eq_ok.1 h
      obtain ⟨s₃, hclose, h⟩ := (expect_bind_takes (by decide)).1 h
      obtain ⟨rfl, rfl⟩ := pure_eq_ok.1 h
      exact .named hopen (specifiers_eq_ok.1 hnamed) hclose
    · rw [if_pos rfl] at h
      obtain ⟨s₂, has, h⟩ := expectWord_bind_takes.1 h
      obtain ⟨name, s₃, hname, h⟩ := expectIdentifier_bind_takes.1 h
      obtain ⟨rfl, rfl⟩ := pure_eq_ok.1 h
      exact .scope hstar has hname
  · intro h
    cases h with
    | scope hstar has hname =>
      refine Or.inr ⟨_, hstar, ?_⟩
      rw [if_pos rfl]
      refine expectWord_bind_takes.2 ⟨_, has, ?_⟩
      exact expectIdentifier_bind_takes.2 ⟨_, _, hname, rfl⟩
    | named hopen h hclose =>
      refine Or.inl ⟨by rw [hopen.kind?]; simp, ?_⟩
      rw [if_neg (by decide)]
      refine (expect_bind_takes (by decide)).2 ⟨_, hopen, ?_⟩
      rw [bind_of_ok (specifiers_eq_ok.2 h)]
      exact (expect_bind_takes (by decide)).2 ⟨_, hclose, rfl⟩

/-- A clause starts with a star or a brace, never with a name. -/
theorem ReadsClause.kind? {d d' : ImportDeclaration} (h : ReadsClause d s d' s') :
    s.kind? = some (.symbol .star) ∨ s.kind? = some (.symbol .leftBrace) := by
  cases h with
  | scope hstar => exact Or.inl hstar.kind?
  | named hopen => exact Or.inr hopen.kind?

theorem importBindings_of_clause {d d' : ImportDeclaration}
    (hname : ∀ name, s.kind? ≠ some (.identifier name)) :
    importBindings d s = .ok d' s' ↔
      ∃ s₁, ReadsClause d s d' s₁ ∧ s₁.Takes (.identifier "from") s' := by
  have hclause : importBindings d s = (importClause d >>= fun d =>
      expectWord "from" "import declaration" >>= fun _ => pure d) s := by
    unfold importBindings
    rw [peekKind?_bind]
    cases hk : s.kind? with
    | none => rfl
    | some k =>
      cases k with
      | identifier name => exact absurd hk (hname name)
      | _ => rfl
  rw [hclause, bind_eq_ok]
  constructor
  · rintro ⟨d₁, s₁, h, hrest⟩
    obtain ⟨s₂, hfrom, hd⟩ := expectWord_bind_takes.1 hrest
    obtain ⟨rfl, rfl⟩ := pure_eq_ok.1 hd
    exact ⟨s₁, importClause_eq_ok.1 h, hfrom⟩
  · rintro ⟨s₁, h, hfrom⟩
    exact ⟨d', s₁, importClause_eq_ok.2 h, expectWord_bind_takes.2 ⟨s', hfrom, rfl⟩⟩

theorem importBindings_of_name {d d' : ImportDeclaration} {name : String} {s₁ : ParserState}
    (hname : s.Takes (.identifier name) s₁) : importBindings d s = .ok d' s' ↔
      (d' = { d with defaultBinding := some name } ∧ s₁.Takes (.identifier "from") s') ∨
      ∃ s₂ s₃, s₁.Takes (.symbol .comma) s₂ ∧
        ReadsClause { d with defaultBinding := some name } s₂ d' s₃ ∧
        s₃.Takes (.identifier "from") s' := by
  unfold importBindings
  rw [peekKind?_bind, hname.kind?]
  obtain ⟨t, ts, ht, hk, rfl⟩ := hname
  simp only
  rw [expectIdentifier_bind ht hk, accept_bind_takes (by decide)]
  constructor
  · rintro (⟨-, h⟩ | ⟨s₂, hcomma, h⟩)
    · obtain ⟨s₂, hfrom, h⟩ := expectWord_bind_takes.1 h
      obtain ⟨rfl, rfl⟩ := pure_eq_ok.1 h
      exact Or.inl ⟨rfl, hfrom⟩
    · obtain ⟨d₁, s₃, hclause, h⟩ := bind_eq_ok.1 h
      obtain ⟨s₄, hfrom, h⟩ := expectWord_bind_takes.1 h
      obtain ⟨rfl, rfl⟩ := pure_eq_ok.1 h
      exact Or.inr ⟨s₂, s₃, hcomma, importClause_eq_ok.1 hclause, hfrom⟩
  · rintro (⟨rfl, hfrom⟩ | ⟨s₂, s₃, hcomma, hclause, hfrom⟩)
    · refine Or.inl ⟨by rw [hfrom.kind?]; simp, ?_⟩
      exact expectWord_bind_takes.2 ⟨s', hfrom, rfl⟩
    · refine Or.inr ⟨s₂, hcomma, ?_⟩
      rw [if_pos rfl, bind_of_ok (importClause_eq_ok.2 hclause)]
      exact expectWord_bind_takes.2 ⟨s', hfrom, rfl⟩

theorem importBindings_eq_ok {d d' : ImportDeclaration} :
    importBindings d s = .ok d' s' ↔ ReadsBindings d s d' s' := by
  constructor
  · intro h
    by_cases hname : ∃ name, s.kind? = some (.identifier name)
    · obtain ⟨name, hname⟩ := hname
      obtain ⟨s₁, hname⟩ := takes_of_kind? hname
      rcases (importBindings_of_name hname).1 h with ⟨rfl, hfrom⟩ | ⟨s₂, s₃, hcomma, h, hfrom⟩
      · exact .default hname hfrom
      · exact .both hname hcomma h hfrom
    · obtain ⟨s₁, hclause, hfrom⟩ :=
        (importBindings_of_clause fun name hk => hname ⟨name, hk⟩).1 h
      exact .clause hclause hfrom
  · intro h
    cases h with
    | default hname hfrom => exact (importBindings_of_name hname).2 (Or.inl ⟨rfl, hfrom⟩)
    | both hname hcomma h hfrom =>
      exact (importBindings_of_name hname).2 (Or.inr ⟨_, _, hcomma, h, hfrom⟩)
    | clause h hfrom =>
      refine (importBindings_of_clause ?_).2 ⟨_, h, hfrom⟩
      intro name
      rcases h.kind? with hk | hk
      · rw [hk]; simp
      · rw [hk]; simp

theorem ReadsBindings.kind? {d d' : ImportDeclaration} (h : ReadsBindings d s d' s')
    (value : String) (quote : Quote) (raw : String) : s.kind? ≠ some (.string value quote raw) := by
  cases h with
  | default hname _ | both hname _ _ _ =>
    rw [hname.kind?]
    simp
  | clause h _ =>
    rcases h.kind? with hk | hk
    · rw [hk]; simp
    · rw [hk]; simp

theorem moduleName_bind_eq_ok {β : Type} {d : ImportDeclaration} {f : ImportDeclaration → Parse β}
    {b : β} : (moduleName d >>= f) s = .ok b s' ↔
      ∃ value quote raw s₁, s.Takes (.string value quote raw) s₁ ∧
        f { d with moduleName := value, quote := quote, rawName := some raw } s₁ = .ok b s' := by
  rw [bind_eq_ok]
  unfold moduleName
  constructor
  · rintro ⟨d', s₁, h, hf⟩
    cases hs : s.tokens with
    | nil =>
      have : advance? s = .ok none s := by unfold advance?; rw [hs]
      rw [bind_of_ok this] at h
      cases h
    | cons t ts =>
      rw [advance?_bind hs] at h
      simp only at h
      cases hk : t.kind with
      | string value quote raw =>
        rw [hk] at h
        obtain ⟨rfl, rfl⟩ := pure_eq_ok.1 h
        exact ⟨value, quote, raw, _, ⟨t, ts, hs, hk, rfl⟩, hf⟩
      | _ =>
        rw [hk] at h
        exact absurd h throw_ne_ok
  · rintro ⟨value, quote, raw, _, ⟨t, ts, ht, hk, rfl⟩, hf⟩
    refine ⟨_, _, ?_, hf⟩
    rw [advance?_bind ht]
    simp only [hk]
    rfl

/-- The end of an import: the module's name and a semicolon. -/
theorem importEnd_eq_ok {d d' : ImportDeclaration} :
    (moduleName d >>= fun d => endStatement "import declaration" >>= fun _ => pure d) s =
        .ok d' s' ↔
      ∃ value quote raw s₁, s.Takes (.string value quote raw) s₁ ∧ EndsStatement s₁ s' ∧
        d' = { d with moduleName := value, quote := quote, rawName := some raw } := by
  rw [moduleName_bind_eq_ok]
  constructor
  · rintro ⟨value, quote, raw, s₁, hname, h⟩
    obtain ⟨_, s₂, hend, h⟩ := bind_eq_ok.1 h
    obtain ⟨rfl, rfl⟩ := pure_eq_ok.1 h
    exact ⟨value, quote, raw, s₁, hname, endStatement_eq_ok.1 hend, rfl⟩
  · rintro ⟨value, quote, raw, s₁, hname, hend, rfl⟩
    refine ⟨value, quote, raw, s₁, hname, ?_⟩
    rw [bind_of_ok (endStatement_eq_ok.2 hend)]
    rfl

theorem importDeclaration_eq_ok {d : ImportDeclaration} :
    importDeclaration s = .ok d s' ↔ ReadsImport s d s' := by
  unfold importDeclaration
  rw [expect_bind_takes (by decide)]
  constructor
  · rintro ⟨s₁, himport, h⟩
    have bound : (importBindings noImport >>= fun d => moduleName d >>= fun d =>
        endStatement "import declaration" >>= fun _ => pure d) s₁ = .ok d s' →
          ReadsImport s d s' := by
      intro h
      obtain ⟨d', s₂, hbindings, h⟩ := bind_eq_ok.1 h
      obtain ⟨value, quote, raw, s₃, hname, hend, rfl⟩ := importEnd_eq_ok.1 h
      exact .bound himport (importBindings_eq_ok.1 hbindings) hname hend
    rw [peekKind?_bind] at h
    cases hk : s₁.kind? with
    | none =>
      rw [hk] at h
      exact bound h
    | some k =>
      rw [hk] at h
      cases k with
      | string =>
        obtain ⟨value, quote, raw, s₂, hname, hend, rfl⟩ := importEnd_eq_ok.1 h
        exact .bare himport hname hend
      | _ => exact bound h
  · intro h
    cases h with
    | bare himport hname hend =>
      refine ⟨_, himport, ?_⟩
      rw [peekKind?_bind, hname.kind?]
      exact importEnd_eq_ok.2 ⟨_, _, _, _, hname, hend, rfl⟩
    | bound himport h hname hend =>
      rename_i s₁ s₂ s₃ d₁ value raw quote
      refine ⟨s₁, himport, ?_⟩
      have hread : (importBindings noImport >>= fun d => moduleName d >>= fun d =>
          endStatement "import declaration" >>= fun _ => pure d) s₁ =
            .ok { d₁ with moduleName := value, quote := quote, rawName := some raw } s' := by
        rw [bind_of_ok (importBindings_eq_ok.2 h)]
        exact importEnd_eq_ok.2 ⟨_, _, _, _, hname, hend, rfl⟩
      rw [peekKind?_bind]
      cases hk : s₁.kind? with
      | none => exact hread
      | some k =>
        cases k with
        | string value quote raw => exact absurd hk (h.kind? value quote raw)
        | _ => exact hread

/-! ## Variables and parameters -/

/-- The variables of a declaration. -/
inductive ReadsDeclarators : ParserState → List Declarator → ParserState → Prop
  | last {s s₁ s₂ s₃ : ParserState} {name : String} {type : Option String}
      {initial : Option Expression} (hname : s.Takes (.identifier name) s₁)
      (htype : ReadsAscribed s₁ type s₂) (hinitial : ReadsInitial s₂ initial s₃)
      (hcomma : s₃.kind? ≠ some (.symbol .comma)) :
      ReadsDeclarators s [⟨s₃.nodeFrom s.here, name, type, initial⟩] s₃.grown
  | more {s s₁ s₂ s₃ s₄ s' : ParserState} {name : String} {type : Option String}
      {initial : Option Expression} {rest : List Declarator}
      (hname : s.Takes (.identifier name) s₁) (htype : ReadsAscribed s₁ type s₂)
      (hinitial : ReadsInitial s₂ initial s₃) (hcomma : s₃.grown.Takes (.symbol .comma) s₄)
      (hrest : ReadsDeclarators s₄ rest s') :
      ReadsDeclarators s (⟨s₃.nodeFrom s.here, name, type, initial⟩ :: rest) s'

/-- A word and the variables that it declares. -/
inductive ReadsVariable : ParserState → DeclarationWord → List Declarator → ParserState → Prop
  | mk {s s₁ s' : ParserState} {word : DeclarationWord} {ds : List Declarator}
      (hword : s.Takes (.keyword word.keyword) s₁) (h : ReadsDeclarators s₁ ds s') :
      ReadsVariable s word ds s'

/-- The parameters of a function, up to the closing parenthesis. -/
inductive ReadsParameters : ParserState → List Parameter → ParserState → Prop
  | close {s : ParserState} (hparen : s.kind? = some (.symbol .rightParen)) :
      ReadsParameters s [] s
  | last {s s₁ s' : ParserState} {name : String} {type : Option String}
      (hname : s.Takes (.identifier name) s₁) (htype : ReadsAscribed s₁ type s')
      (hcomma : s'.kind? ≠ some (.symbol .comma)) : ReadsParameters s [⟨name, type⟩] s'
  | more {s s₁ s₂ s₃ s' : ParserState} {name : String} {type : Option String}
      {rest : List Parameter} (hname : s.Takes (.identifier name) s₁)
      (htype : ReadsAscribed s₁ type s₂) (hcomma : s₂.Takes (.symbol .comma) s₃)
      (hrest : ReadsParameters s₃ rest s') : ReadsParameters s (⟨name, type⟩ :: rest) s'

theorem ReadsDeclarators.leads {ds : List Declarator} (h : ReadsDeclarators s ds s') :
    s.Leads s' := by
  induction h with
  | last hname htype hinitial _ =>
    exact hname.leads.trans (htype.skips.leads.trans hinitial.leads.andGrown)
  | more hname htype hinitial hcomma _ ih =>
    exact hname.leads.trans
      (htype.skips.leads.trans (hinitial.leads.andGrown.trans (hcomma.leads.trans ih)))

theorem ReadsVariable.kind? {word : DeclarationWord} {ds : List Declarator}
    (h : ReadsVariable s word ds s') : s.kind? = some (.keyword word.keyword) := by
  cases h with
  | mk hword _ => exact hword.kind?

theorem ReadsVariable.consumes {word : DeclarationWord} {ds : List Declarator}
    (h : ReadsVariable s word ds s') : s.Consumes s' := by
  cases h with
  | mk hword h => exact hword.consumes h.leads

theorem ReadsParameters.skips {ps : List Parameter} (h : ReadsParameters s ps s') :
    s.Skips s' := by
  induction h with
  | close => exact .refl
  | last hname htype _ => exact hname.skips.trans htype.skips
  | more hname htype hcomma _ ih =>
    exact hname.skips.trans (htype.skips.trans (hcomma.skips.trans ih))

/-- One round of the reader. -/
theorem declarators_succ_eq_ok {n : Nat} {ds : List Declarator} :
    declarators (n + 1) s = .ok ds s' ↔
      ∃ name type initial s₁ s₂ s₃, s.Takes (.identifier name) s₁ ∧ ReadsAscribed s₁ type s₂ ∧
        ReadsInitial s₂ initial s₃ ∧
        GoesOn (declarators n) ⟨s₃.nodeFrom s.here, name, type, initial⟩ s₃.grown ds s' := by
  rw [declarators, here_bind]
  constructor
  · intro h
    obtain ⟨name, s₁, hname, h⟩ := expectIdentifier_bind_takes.1 h
    obtain ⟨type, s₂, htype, h⟩ := bind_eq_ok.1 h
    obtain ⟨initial, s₃, hinitial, h⟩ := initial_bind_eq_ok.1 h
    replace h := nodeFrom_bind.symm.trans h
    exact ⟨name, type, initial, s₁, s₂, s₃, hname, ascription?_eq_ok.1 htype, hinitial,
      goesOn_of_ok h⟩
  · rintro ⟨name, type, initial, s₁, s₂, s₃, hname, htype, hinitial, h⟩
    refine expectIdentifier_bind_takes.2 ⟨name, s₁, hname, ?_⟩
    rw [bind_of_ok (ascription?_eq_ok.2 htype)]
    refine initial_bind_eq_ok.2 ⟨initial, s₃, hinitial, ?_⟩
    exact nodeFrom_bind.trans h.run

theorem readsDeclarators_of_ok {ds : List Declarator} :
    ∀ (n : Nat) {s : ParserState}, declarators n s = .ok ds s' → ReadsDeclarators s ds s' := by
  intro n
  induction n generalizing ds with
  | zero =>
    intro s h
    exact absurd h outOfSteps_ne_ok
  | succ n ih =>
    intro s h
    obtain ⟨name, type, initial, s₁, s₂, s₃, hname, htype, hinitial, h⟩ :=
      declarators_succ_eq_ok.1 h
    cases h with
    | last hcomma => exact .last hname htype hinitial hcomma
    | more hcomma h => exact .more hname htype hinitial hcomma (ih h)

theorem ReadsDeclarators.run {ds : List Declarator} (h : ReadsDeclarators s ds s') :
    ∀ n, s.tokens.length < n → declarators n s = .ok ds s' := by
  induction h with
  | last hname htype hinitial hcomma =>
    intro n hn
    obtain ⟨m, rfl⟩ : ∃ m, n = m + 1 := ⟨n - 1, by omega⟩
    exact declarators_succ_eq_ok.2
      ⟨_, _, _, _, _, _, hname, htype, hinitial, .last hcomma⟩
  | more hname htype hinitial hcomma hrest ih =>
    intro n hn
    have l₁ := hname.length
    have l₂ := htype.skips.leads.length
    have l₃ := hinitial.leads.andGrown.length
    have l₄ := hcomma.length
    obtain ⟨m, rfl⟩ : ∃ m, n = m + 1 := ⟨n - 1, by omega⟩
    exact declarators_succ_eq_ok.2
      ⟨_, _, _, _, _, _, hname, htype, hinitial, .more hcomma (ih m (by omega))⟩

theorem declarators_eq_ok {ds : List Declarator} :
    withSteps declarators s = .ok ds s' ↔ ReadsDeclarators s ds s' := by
  constructor
  · intro h
    exact readsDeclarators_of_ok _ h
  · intro h
    exact h.run _ (by unfold steps; omega)

theorem startsVariable_keyword (word : DeclarationWord) :
    startsVariable (some (.keyword word.keyword)) = true := by
  cases word <;> rfl

theorem exists_of_startsVariable {k : Option TokenKind} (h : startsVariable k = true) :
    ∃ word : DeclarationWord, k = some (.keyword word.keyword) := by
  unfold startsVariable at h
  split at h
  · exact ⟨.letWord, rfl⟩
  · exact ⟨.constWord, rfl⟩
  · exact ⟨.varWord, rfl⟩
  · cases h

theorem variableDeclaration_of_takes {word word' : DeclarationWord} {ds : List Declarator}
    {s₁ : ParserState} (hword : s.Takes (.keyword word.keyword) s₁) :
    variableDeclaration s = .ok (word', ds) s' ↔ word = word' ∧ ReadsDeclarators s₁ ds s' := by
  obtain ⟨t, ts, ht, hk, rfl⟩ := hword
  unfold variableDeclaration
  rw [advanceKind?_bind ht, hk, bind_eq_ok]
  constructor
  · rintro ⟨ds', s₁, hds, h⟩
    obtain ⟨heq, rfl⟩ := pure_eq_ok.1 h
    cases word <;> cases heq <;> exact ⟨rfl, declarators_eq_ok.1 hds⟩
  · rintro ⟨rfl, hds⟩
    refine ⟨ds, s', declarators_eq_ok.2 hds, ?_⟩
    cases word <;> rfl

theorem variableDeclaration_eq_ok {word : DeclarationWord} {ds : List Declarator}
    (hstart : startsVariable s.kind? = true) :
    variableDeclaration s = .ok (word, ds) s' ↔ ReadsVariable s word ds s' := by
  constructor
  · intro h
    obtain ⟨word', hword'⟩ := exists_of_startsVariable hstart
    obtain ⟨s₁, hword'⟩ := takes_of_kind? hword'
    obtain ⟨rfl, hds⟩ := (variableDeclaration_of_takes hword').1 h
    exact .mk hword' hds
  · rintro ⟨hword, h⟩
    exact (variableDeclaration_of_takes hword).2 ⟨rfl, h⟩

/-- One round of the reader. -/
theorem parameters_succ_eq_ok {n : Nat} {ps : List Parameter} :
    parameters (n + 1) s = .ok ps s' ↔
      s.kind? = some (.symbol .rightParen) ∧ ps = [] ∧ s' = s ∨
      ∃ name type s₁ s₂, s.Takes (.identifier name) s₁ ∧ ReadsAscribed s₁ type s₂ ∧
        GoesOn (parameters n) ⟨name, type⟩ s₂ ps s' := by
  rw [parameters, at?_ite_eq_ok (by decide)]
  constructor
  · rintro (⟨hparen, h⟩ | ⟨-, h⟩)
    · obtain ⟨rfl, rfl⟩ := pure_eq_ok.1 h
      exact Or.inl ⟨hparen, rfl, rfl⟩
    · obtain ⟨name, s₁, hname, h⟩ := expectIdentifier_bind_takes.1 h
      obtain ⟨type, s₂, htype, h⟩ := bind_eq_ok.1 h
      exact Or.inr ⟨name, type, s₁, s₂, hname, ascription?_eq_ok.1 htype, goesOn_of_ok h⟩
  · rintro (⟨hparen, rfl, rfl⟩ | ⟨name, type, s₁, s₂, hname, htype, h⟩)
    · exact Or.inl ⟨hparen, rfl⟩
    · refine Or.inr ⟨by rw [hname.kind?]; simp, ?_⟩
      refine expectIdentifier_bind_takes.2 ⟨name, s₁, hname, ?_⟩
      rw [bind_of_ok (ascription?_eq_ok.2 htype)]
      exact h.run

theorem readsParameters_of_ok {ps : List Parameter} :
    ∀ (n : Nat) {s : ParserState}, parameters n s = .ok ps s' → ReadsParameters s ps s' := by
  intro n
  induction n generalizing ps with
  | zero =>
    intro s h
    exact absurd h outOfSteps_ne_ok
  | succ n ih =>
    intro s h
    rcases parameters_succ_eq_ok.1 h with
      ⟨hparen, rfl, rfl⟩ | ⟨name, type, s₁, s₂, hname, htype, h⟩
    · exact .close hparen
    · cases h with
      | last hcomma => exact .last hname htype hcomma
      | more hcomma h => exact .more hname htype hcomma (ih h)

theorem ReadsParameters.run {ps : List Parameter} (h : ReadsParameters s ps s') :
    ∀ n, s.tokens.length < n → parameters n s = .ok ps s' := by
  induction h with
  | close hparen =>
    intro n hn
    obtain ⟨m, rfl⟩ : ∃ m, n = m + 1 := ⟨n - 1, by omega⟩
    exact parameters_succ_eq_ok.2 (Or.inl ⟨hparen, rfl, rfl⟩)
  | last hname htype hcomma =>
    intro n hn
    obtain ⟨m, rfl⟩ : ∃ m, n = m + 1 := ⟨n - 1, by omega⟩
    exact parameters_succ_eq_ok.2 (Or.inr ⟨_, _, _, _, hname, htype, .last hcomma⟩)
  | more hname htype hcomma hrest ih =>
    intro n hn
    have l₁ := hname.length
    have l₂ := htype.skips.leads.length
    have l₃ := hcomma.length
    obtain ⟨m, rfl⟩ : ∃ m, n = m + 1 := ⟨n - 1, by omega⟩
    exact parameters_succ_eq_ok.2
      (Or.inr ⟨_, _, _, _, hname, htype, .more hcomma (ih m (by omega))⟩)

theorem parameters_eq_ok {ps : List Parameter} :
    withSteps parameters s = .ok ps s' ↔ ReadsParameters s ps s' := by
  constructor
  · intro h
    exact readsParameters_of_ok _ h
  · intro h
    exact h.run _ (by unfold steps; omega)

end DecimalLift.Parse
