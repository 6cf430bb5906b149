import DecimalLift.Proofs.TokenSequence.Reading

/-!
# Declarations keep their tokens

A layout writes all that a declaration was read from, with two exceptions. An import that gives a
name the name it has already is written without the new name, and an import of an empty list alone
is written without the list and without the word behind it.

* `TokenKind.isIdleImport` — the import whose word stands before the tokens is one of the two.
* `TokenKind.hasIdleImport` — some import among the tokens is.
* `ParserState.Faithful` — the queue is spelt and has no such import; every reader keeps it so.
* `ReadsImport.core`, `ReadsDeclarators.core`, `ReadsParameters.core` — the readers of declarations.
-/

set_option autoImplicit false

namespace DecimalLift

open Piece (symbol keyword separated parenthesizedIf)
open TokenKind (coreOf)

/-! ## Imports that a layout shortens -/

namespace TokenKind

/-- The names of an import behind its opening brace, each with its new name if one is written. -/
def listedNames : List TokenKind → List (String × Option String)
  | .identifier x :: .identifier w :: .identifier y :: ks =>
    if w = "as" then (x, some y) :: listedNames ks
    else (x, none) :: listedNames (.identifier w :: .identifier y :: ks)
  | .identifier x :: ks => (x, none) :: listedNames ks
  | .symbol .comma :: ks => listedNames ks
  | _ => []

/-- Whether a name of the list gets the name that it has already. -/
def renamesIdly (ks : List TokenKind) : Bool := (listedNames ks).any fun x => x.2 == some x.1

/-- Whether the import whose word stands before the tokens has an empty list alone, or a name that
gets the name it has already. -/
def isIdleImport : List TokenKind → Bool
  | .symbol .leftBrace :: ks => (listedNames ks).isEmpty || renamesIdly ks
  | .identifier _ :: .symbol .comma :: .symbol .leftBrace :: ks => renamesIdly ks
  | _ => false

def hasIdleImport : List TokenKind → Bool
  | [] => false
  | k :: ks => k == .keyword .importWord && isIdleImport ks || hasIdleImport ks

theorem listedNames_comma (ks : List TokenKind) :
    listedNames (.symbol .comma :: ks) = listedNames ks := by
  rw [listedNames]

theorem listedNames_plain (x : String) (ks : List TokenKind) :
    listedNames (.identifier x :: .symbol .comma :: ks) = (x, none) :: listedNames ks := by
  rw [listedNames, listedNames_comma]
  simp

theorem listedNames_renamed (x y : String) (ks : List TokenKind) :
    listedNames (.identifier x :: .identifier "as" :: .identifier y :: ks) =
      (x, some y) :: listedNames ks := by
  rw [listedNames, if_pos rfl]

theorem hasIdleImport_of_cons {k : TokenKind} {ks : List TokenKind}
    (h : hasIdleImport (k :: ks) = false) : hasIdleImport ks = false :=
  (Bool.or_eq_false_iff.1 h).2

theorem isIdleImport_of_import {ks : List TokenKind}
    (h : hasIdleImport (.keyword .importWord :: ks) = false) : isIdleImport ks = false :=
  (Bool.or_eq_false_iff.1 h).1

end TokenKind

open TokenKind (listedNames renamesIdly isIdleImport hasIdleImport)

namespace ParserState

variable {s s' : ParserState}

/-- The queue is spelt, and a layout shortens none of its imports. -/
structure Faithful (s : ParserState) : Prop where
  spelt : s.Spelt
  shown : hasIdleImport s.kinds = false

/-- Readers keep a queue faithful. -/
theorem Leads.faithful (h : s.Leads s') (hs : s.Faithful) : s'.Faithful := by
  refine ⟨h.spelt hs.spelt, ?_⟩
  have hshown := hs.shown
  clear hs
  induction h with
  | refl => exact hshown
  | past ht _ ih =>
    refine ih ?_
    simp only [kinds, ht, List.map_cons] at hshown
    exact TokenKind.hasIdleImport_of_cons hshown
  | half ht _ _ ih =>
    refine ih ?_
    simp only [kinds, ht, List.map_cons] at hshown
    exact Bool.or_eq_false_iff.2 ⟨rfl, TokenKind.hasIdleImport_of_cons hshown⟩
  | grown _ ih => exact ih hshown

end ParserState

/-! ## Imports -/

/-- What is left of the clauses of an import. -/
theorem ImportDeclaration.core_clauses (d : ImportDeclaration) :
    d.clauses.flatMap Piece.core =
      d.defaultBinding.toList.map .identifier
        ++ d.namespaceBinding.toList.flatMap
          (fun name => [.symbol .star, .identifier "as", .identifier name])
        ++ d.named.flatMap fun x => Piece.core x.pieces := by
  obtain ⟨default, scope, named, _, _, _⟩ := d
  cases default <;> cases scope <;> cases named <;>
    simp [clauses, TokenKind.core, List.flatMap_map]

namespace Parse

open ParserState (Takes Faithful)

variable {s s₁ s' : ParserState}

/-- Where a list renames no name to itself, one name is written as it was read. -/
theorem core_specifier {imported bound : String} (himported : s.Takes (.identifier imported) s₁)
    (hbound : ReadsRenamed imported s₁ bound s') (hidle : renamesIdly s.kinds = false) :
    s.core = Piece.core (ImportSpecifier.pieces ⟨imported, bound⟩) ++ s'.core := by
  cases hbound with
  | same => simp [himported.core, ImportSpecifier.pieces]
  | renamed has hbound =>
    have hne : imported ≠ bound := by
      rintro rfl
      rw [himported.kinds, has.kinds, hbound.kinds, renamesIdly,
        TokenKind.listedNames_renamed] at hidle
      simp at hidle
    simp [himported.core, has.core, hbound.core, ImportSpecifier.pieces, hne]

/-- Behind a comma, the rest of a list renames no name to itself either. -/
theorem renamesIdly_rest {imported bound : String} {s₂ s₃ : ParserState}
    (himported : s.Takes (.identifier imported) s₁) (hbound : ReadsRenamed imported s₁ bound s₂)
    (hcomma : s₂.Takes (.symbol .comma) s₃) (hidle : renamesIdly s.kinds = false) :
    renamesIdly s₃.kinds = false := by
  unfold renamesIdly at hidle ⊢
  cases hbound with
  | same =>
    rw [himported.kinds, hcomma.kinds, TokenKind.listedNames_plain, List.any_cons,
      Bool.or_eq_false_iff] at hidle
    exact hidle.2
  | renamed has hbound =>
    rw [himported.kinds, has.kinds, hbound.kinds, TokenKind.listedNames_renamed, hcomma.kinds,
      TokenKind.listedNames_comma, List.any_cons, Bool.or_eq_false_iff] at hidle
    exact hidle.2

theorem ReadsSpecifiers.core {xs : List ImportSpecifier} (h : ReadsSpecifiers s xs s') :
    renamesIdly s.kinds = false →
      s.core = (xs.flatMap fun x => Piece.core x.pieces) ++ s'.core := by
  induction h with
  | close => exact fun _ => rfl
  | last himported hbound _ =>
    intro hidle
    rw [core_specifier himported hbound hidle, List.flatMap_cons, List.flatMap_nil,
      List.append_nil]
  | more himported hbound hcomma _ ih =>
    intro hidle
    have hrest := ih (renamesIdly_rest himported hbound hcomma hidle)
    rw [core_specifier himported hbound hidle, hcomma.core, hrest, List.flatMap_cons]
    simp [TokenKind.core]

/-- A list without names is empty. -/
theorem ReadsSpecifiers.listedNames_nil (h : ReadsSpecifiers s [] s') :
    listedNames s.kinds = [] := by
  cases h with
  | close hbrace =>
    obtain ⟨s₁, hclose⟩ := ParserState.takes_of_kind? hbrace
    rw [hclose.kinds, listedNames]
    all_goals simp

/-- A clause that is added to a declaration without one. -/
theorem ReadsClause.core {d d' : ImportDeclaration} (h : ReadsClause d s d' s')
    (hscope : d.namespaceBinding = none) (hnamed : d.named = [])
    (hidle : ∀ ks, s.kinds = .symbol .leftBrace :: ks → renamesIdly ks = false) :
    d'.defaultBinding.toList.map .identifier ++ s.core =
      d'.clauses.flatMap Piece.core ++ s'.core := by
  rw [ImportDeclaration.core_clauses]
  cases h with
  | scope hstar has hname =>
    simp [hstar.core, has.core, hname.core, hnamed, TokenKind.core]
  | named hopen h hclose =>
    have hnames := h.core (hidle _ hopen.kinds)
    simp [hopen.core, hnames, hclose.core, hscope, TokenKind.core]

theorem ReadsClause.defaultBinding {d d' : ImportDeclaration} (h : ReadsClause d s d' s') :
    d'.defaultBinding = d.defaultBinding := by
  cases h with
  | scope | named => rfl

/-- A clause that is no empty list is written. -/
theorem ReadsClause.clauses_ne_nil {d d' : ImportDeclaration} (h : ReadsClause d s d' s')
    (hidle : isIdleImport s.kinds = false) : d'.clauses ≠ [] := by
  cases h with
  | scope => simp [ImportDeclaration.clauses]
  | named hopen h _ =>
    rename_i named _
    cases named with
    | nil =>
      rw [hopen.kinds, isIdleImport, h.listedNames_nil] at hidle
      cases hidle
    | cons x xs => simp [ImportDeclaration.clauses]

/-- What an import binds is written, and the word `from` behind it. -/
theorem ReadsBindings.core {d : ImportDeclaration} (h : ReadsBindings noImport s d s')
    (hidle : isIdleImport s.kinds = false) :
    d.clauses ≠ [] ∧ s.core = d.clauses.flatMap Piece.core ++ .identifier "from" :: s'.core := by
  cases h with
  | default hname hfrom =>
    refine ⟨by simp [ImportDeclaration.clauses], ?_⟩
    simp [hname.core, hfrom.core, ImportDeclaration.core_clauses, noImport]
  | both hname hcomma h hfrom =>
    rw [hname.kinds, hcomma.kinds] at hidle
    have hclause := h.core rfl rfl fun ks hks => by
      rw [hks] at hidle
      exact hidle
    rw [h.defaultBinding, hfrom.core] at hclause
    refine ⟨?_, ?_⟩
    · intro hnil
      have hdefault := h.defaultBinding
      simp [ImportDeclaration.clauses, hdefault] at hnil
    · rw [hname.core, hcomma.core]
      exact hclause
  | clause h hfrom =>
    have hclause := h.core rfl rfl fun ks hks => by
      rw [hks] at hidle
      exact (Bool.or_eq_false_iff.1 hidle).2
    rw [h.defaultBinding, hfrom.core] at hclause
    exact ⟨h.clauses_ne_nil hidle, hclause⟩

theorem EndsStatement.core (h : EndsStatement s s') : s.core = s'.core := by
  cases h with
  | semicolon h => exact h.core
  | implied => rfl

/-- **A layout writes an import as it was read**, semicolons, braces and commas apart. -/
theorem ReadsImport.core {d : ImportDeclaration} (h : ReadsImport s d s') (hs : s.Faithful) :
    s.core = Piece.core d.pieces ++ s'.core := by
  cases h with
  | bare himport hname hend =>
    rw [himport.core, hname.core, hend.core]
    rfl
  | bound himport h hname hend =>
    rename_i d value raw quote
    have hshown := hs.shown
    rw [himport.kinds] at hshown
    obtain ⟨hne, hcore⟩ := h.core (TokenKind.isIdleImport_of_import hshown)
    have hclauses : ({ d with moduleName := value, quote := quote, rawName := some raw }
        : ImportDeclaration).clauses = d.clauses := rfl
    have hnonempty : d.clauses.isEmpty = false := by simpa using hne
    rw [himport.core, hcore, hname.core, hend.core, ImportDeclaration.pieces, hclauses, hnonempty]
    simp [Piece.string, TokenKind.core]

/-! ## Variables and parameters -/

variable (width : UInt64)

theorem ReadsAscribed.core {type : Option String} (h : ReadsAscribed s type s') (hs : s.Spelt) :
    s.core = Piece.core (LayoutOptions.ascriptionPieces ⟨true, width⟩ type) ++ s'.core := by
  cases h with
  | none => rfl
  | some hcolon h =>
    rw [hcolon.core, h.core_union (hcolon.leads.spelt hs)]
    simp [LayoutOptions.ascriptionPieces, TokenKind.core]

/-- What is left of an initial value. -/
theorem ReadsInitial.core {initial : Option Expression} (h : ReadsInitial s initial s') :
    s.core = (initial.toList.flatMap fun e => .symbol .equal :: e.core) ++ s'.core := by
  cases h with
  | none => rfl
  | some hequal h =>
    rw [hequal.core, h.core_assignment]
    simp [TokenKind.core]

theorem core_declarator (d : Declarator) :
    Piece.core (d.pieces ⟨true, width⟩) =
      .identifier d.name :: Piece.core (LayoutOptions.ascriptionPieces ⟨true, width⟩ d.ascription)
        ++ d.initial.toList.flatMap fun e => .symbol .equal :: e.core := by
  unfold Declarator.pieces
  cases d.initial <;> simp [TokenKind.core, Expression.core]

/-- One variable, up to its initial value. -/
theorem core_variable {name : String} {type : Option String} {initial : Option Expression}
    {s₂ : ParserState} (hname : s.Takes (.identifier name) s₁) (htype : ReadsAscribed s₁ type s₂)
    (hinitial : ReadsInitial s₂ initial s') (hs : s.Spelt) (n : Node) :
    s.core = Piece.core (Declarator.pieces ⟨true, width⟩ ⟨n, name, type, initial⟩) ++ s'.core := by
  rw [hname.core, htype.core width (hname.leads.spelt hs), hinitial.core, core_declarator]
  simp

theorem ReadsDeclarators.core {ds : List Declarator} (h : ReadsDeclarators s ds s') :
    s.Spelt →
      s.core = (ds.flatMap fun d => Piece.core (d.pieces ⟨true, width⟩)) ++ s'.core := by
  induction h with
  | last hname htype hinitial _ =>
    intro hs
    rw [core_variable width hname htype hinitial hs, List.flatMap_cons, List.flatMap_nil,
      List.append_nil, ParserState.core_grown]
  | more hname htype hinitial hcomma _ ih =>
    intro hs
    have hleads := hname.leads.trans (htype.skips.leads.trans (hinitial.leads.andGrown.trans
      hcomma.leads))
    rw [List.flatMap_cons, List.append_assoc, ← ih (hleads.spelt hs)]
    -- the comma leaves nothing
    exact (core_variable width hname htype hinitial hs _).trans (congrArg _ hcomma.core)

theorem ReadsVariable.core {word : DeclarationWord} {ds : List Declarator}
    (h : ReadsVariable s word ds s') (hs : s.Spelt) :
    s.core = Piece.core (Statement.variablePieces ⟨true, width⟩ word ds) ++ s'.core := by
  obtain ⟨hword, h⟩ := h
  rw [hword.core, h.core width (hword.leads.spelt hs)]
  simp [Statement.variablePieces, List.flatMap_map]

/-- One parameter. -/
theorem core_parameter {name : String} {type : Option String}
    (hname : s.Takes (.identifier name) s₁) (htype : ReadsAscribed s₁ type s') (hs : s.Spelt) :
    s.core = Piece.core (Parameter.pieces ⟨true, width⟩ ⟨name, type⟩) ++ s'.core := by
  rw [hname.core, htype.core width (hname.leads.spelt hs)]
  simp [Parameter.pieces]

theorem ReadsParameters.core {ps : List Parameter} (h : ReadsParameters s ps s') :
    s.Spelt →
      s.core = (ps.flatMap fun p => Piece.core (p.pieces ⟨true, width⟩)) ++ s'.core := by
  induction h with
  | close => exact fun _ => rfl
  | last hname htype _ =>
    intro hs
    rw [core_parameter width hname htype hs, List.flatMap_cons, List.flatMap_nil, List.append_nil]
  | more hname htype hcomma _ ih =>
    intro hs
    have hrest := ih ((hname.leads.trans (htype.skips.leads.trans hcomma.leads)).spelt hs)
    rw [core_parameter width hname htype hs, hcomma.core, hrest, List.flatMap_cons]
    simp [TokenKind.core]

end Parse

end DecimalLift
