import DecimalLift.Proofs.Lift.Policy
import DecimalLift.Proofs.RoundTrip.NormalForm

/-!
# Which rules leave text that can be read

The check of the rules is there to refuse rules whose results could not be written down. It asks for
names, and to the check a keyword is a name. To a reader it is none: it stands in no import as the
name of the type, and behind no dot as the name of a method.

* `Rules.StaysReadable` — what the check is there for: text that is read, and whose layout is read,
  is transformed to text that is read.
* `Parse.not_readsFile_import`, `Parse.not_readsFile_member` — no reading gets past a keyword in the
  place of a name; `not_parse_import` and `not_parse_call` say the same of texts.
* `exists_transform` — any program that can be written is the program of some text, which is
  transformed to the walk of that program behind an import.
* `staysReadable_iff` — rules that pass the check do what it is there for exactly if no keyword gets
  into a program.
-/

set_option autoImplicit false

namespace DecimalLift

open Piece (Spaced Settled spaced_append symbol keyword separated parenthesized parenthesizedIf)

/-- Text that is read, and whose layout is read, is transformed to text that is read. -/
def Rules.StaysReadable (rules : Rules) : Prop :=
  ∀ (policy : Policy) (source file text : String) (p q : Program),
    Program.parse source file = .ok p → Program.parse (p.render .typed) file = .ok q →
      transformSource ⟨rules, policy⟩ source file = .ok text →
        ∃ r, Program.parse text file = .ok r

/-! ## Names that can be written -/

/-- **Rules whose names can be written leave text that is read.** -/
theorem Rules.Written.staysReadable {rules : Rules} (h : rules.Written) : rules.StaysReadable := by
  intro policy source file text p q hp hq htext
  obtain ⟨p₁, p', report, hp₁, htransform, rfl⟩ := transformSource_eq_ok.1 htext
  obtain rfl := Except.ok.inj (hp.symm.trans hp₁)
  have honce := Program.trailsOnce_of_parse_render hp hq
  have hwritten : Statement.AllOf Statement.Written p'.statements :=
    Program.written_of_transform h htransform (Program.written hp honce)
  obtain ⟨r, hr, -⟩ := Program.exists_parse_render hwritten .typed file
  exact ⟨r, hr⟩

/-! ## Keywords in the place of names -/

namespace Parse

open ParserState (kind?_of_marks)

variable {s s' : ParserState} {w : Keyword} {b b₁ b₂ : Bool} {ms : List Mark}

theorem not_isAt_end {k : TokenKind} (hs : s.marks = (k, b) :: ms) (hk : k ≠ .endOfFile) :
    ¬s.isAt .endOfFile = true := by
  obtain ⟨t, ts, ht, rfl, -⟩ := ParserState.exists_of_marks hs
  simpa [ParserState.isAt, ht] using hk

/-- An import goes on with a string, a name, a star or a brace. -/
theorem not_readsImport {d : ImportDeclaration}
    (hs : s.marks = (.keyword .importWord, b) :: (.keyword w, b₁) :: ms) : ¬ReadsImport s d s' := by
  intro h
  cases h with
  | bare himport hname =>
    obtain ⟨heq, -⟩ := takes_marks hname (takes_marks himport hs).2
    cases heq
  | bound himport hbindings =>
    have hs₁ := (takes_marks himport hs).2
    cases hbindings with
    | default hname | both hname =>
      obtain ⟨heq, -⟩ := takes_marks hname hs₁
      cases heq
    | clause hclause =>
      cases hclause with
      | scope hstar =>
        obtain ⟨heq, -⟩ := takes_marks hstar hs₁
        cases heq
      | named hopen =>
        obtain ⟨heq, -⟩ := takes_marks hopen hs₁
        cases heq

/-- No chain goes on with a dot and a keyword, nor does it end before a dot. -/
theorem not_readsSuffixes {calls : Bool} {e f : Expression}
    (hs : s.marks = (.symbol .dot, b) :: (.keyword w, b₁) :: ms) :
    ¬Reads (.suffixes calls e) s f s' := by
  intro h
  cases h with
  | suffixes_stop hends => exact hends.1 (kind?_of_marks hs)
  | member ht _ hu =>
    have hnext := (head_of_marks (head_of_marks hs ht).2.2 rfl).1
    rw [hu] at hnext
    cases hnext
  | index ht hk | arguments ht hk =>
    rw [(head_of_marks hs ht).1] at hk
    cases hk

/-- An expression starts with an operand. -/
theorem exists_unary_of_assignment {e : Expression} (h : Reads .assignment s e s') :
    ∃ f s₁, Reads .unary s f s₁ := by
  have hbinary : ∀ {least : Nat} {g : Expression} {s₂ : ParserState},
      Reads (.binary least) s g s₂ → ∃ f s₁, Reads .unary s f s₁ := by
    intro least g s₂ h
    cases h with
    | binary h _ => exact ⟨_, _, h⟩
  have hconditional : ∀ {g : Expression} {s₂ : ParserState},
      Reads .conditional s g s₂ → ∃ f s₁, Reads .unary s f s₁ := by
    intro g s₂ h
    cases h with
    | conditional_plain h _ | conditional h => exact hbinary h
  cases h with
  | assignment_plain h _ | assignment h => exact hconditional h

/-- **No expression is read that starts with a chain and a keyword behind a dot.** -/
theorem not_readsAssignment {object e : Expression} (hlevel : Precedence.member ≤ object.precedence)
    (hs : s.marks = Piece.marks b object.pieces ++
      (.symbol .dot, b₁) :: (.keyword w, b₂) :: ms) : ¬Reads .assignment s e s' := by
  intro h
  obtain ⟨f, s₁, hunary⟩ := exists_unary_of_assignment h
  obtain ⟨-, e', g, s₂, s₃, hsuffixes, hs₂, -⟩ :=
    ((seamed object).chain hlevel true fun _ => rfl).operand hs hunary
  exact not_readsSuffixes hs₂ hsuffixes

theorem not_readsFile_import {ss : List Statement}
    (hs : s.marks = (.keyword .importWord, b) :: (.keyword w, b₁) :: ms) : ¬ReadsFile s ss s' := by
  intro h
  cases h with
  | stop hend => exact not_isAt_end hs (by decide) hend
  | more hread =>
    have hopens := hread.opensWith (kind?_of_marks hs)
    cases hread with
    | imports hread => exact not_readsImport hs hread
    | _ => cases hopens

/-- A declaration starts with a name, an ascription and an initial value, or parts of that. -/
theorem exists_of_declarators {ds : List Declarator} (h : ReadsDeclarators s ds s') :
    ∃ name type initial s₁ s₂ s₃, s.Takes (.identifier name) s₁ ∧ ReadsAscribed s₁ type s₂ ∧
      ReadsInitial s₂ initial s₃ := by
  cases h with
  | last hname htype hinitial | more hname htype hinitial =>
    exact ⟨_, _, _, _, _, _, hname, htype, hinitial⟩

/-- No variable has an initial value that starts with a chain and a keyword behind a dot. -/
theorem not_readsStatement_member {object : Expression}
    (hlevel : Precedence.member ≤ object.precedence) {name : String} {st : Statement}
    (hs : s.marks = (.keyword .letWord, b) :: (.identifier name, false) ::
      (.symbol .equal, false) :: (Piece.marks false object.pieces ++
        (.symbol .dot, false) :: (.keyword w, false) :: ms)) : ¬ReadsStatement s st s' := by
  intro h
  have hopens := h.opensWith (kind?_of_marks hs)
  cases h with
  | declared hvariable =>
    obtain ⟨hword, hdeclarators⟩ := hvariable
    obtain ⟨name', type, initial, s₁, s₂, s₃, hname, htype, hinitial⟩ :=
      exists_of_declarators hdeclarators
    have hs₁ := (takes_marks hname (takes_marks hword hs).2).2
    -- there is no ascription, so the equals sign comes next
    cases htype with
    | some hcolon =>
      obtain ⟨heq, -⟩ := takes_marks hcolon hs₁
      cases heq
    | none =>
      cases hinitial with
      | none hequal => exact hequal (kind?_of_marks hs₁)
      | some hequal hread => exact not_readsAssignment hlevel (takes_marks hequal hs₁).2 hread
  | _ => cases hopens

/-- **No file is read that has such a variable behind an import.** -/
theorem not_readsFile_member {d : ImportDeclaration} (hd : d.Written) {object : Expression}
    (hlevel : Precedence.member ≤ object.precedence) {name : String} {ss : List Statement}
    (hs : s.marks = Piece.marks b d.pieces ++ (.keyword .letWord, b₁) ::
      (.identifier name, false) :: (.symbol .equal, false) :: (Piece.marks false object.pieces ++
        (.symbol .dot, false) :: (.keyword w, false) :: ms)) : ¬ReadsFile s ss s' := by
  intro h
  cases h with
  | stop hend => exact not_isAt_end hs (by decide) hend
  | more hread hrest =>
    have himport : StatementEnds .typed 0 (.imports .blank d) := importsEnd hd
    unfold StatementEnds at himport
    rw [Statement.pieces] at himport
    have hs₁ := (himport hs (fun h => nomatch h) hread).2
    cases hrest with
    | stop hend => exact not_isAt_end hs₁ (by decide) hend
    | more hread => exact not_readsStatement_member hlevel hs₁ hread

end Parse

/-! ## Text with keywords in the place of names -/

/-- A name that is spelt like a keyword is written like it. -/
theorem Piece.render_keyword (ps qs : List Piece) (w : Keyword) :
    render (ps ++ .name w.text :: qs) = render (ps ++ keyword w :: qs) := by
  simp only [render, List.flatMap_append, List.flatMap_cons]
  rfl

/-- A dot may stand before a keyword. -/
theorem stands_dot_keyword (w : Keyword) (tail : List Char) :
    (symbol .dot).Stands ((keyword w).chars ++ tail) := by
  refine ⟨trivial, ?_⟩
  intro c hc
  cases w <;> (cases hc; decide)

/-- Text is not read if its tokens are not read. -/
theorem not_parse_of_marks {ps : List Piece} (h : Spaced ps []) {file : String}
    (hnot : ∀ {s s' : ParserState} {ss : List Statement} {b : Bool},
      s.marks = Piece.marks false ps ++ [(.endOfFile, b)] → ¬Parse.ReadsFile s ss s')
    (r : Program) : Program.parse (Piece.render ps) file ≠ .ok r := by
  intro hparse
  obtain ⟨ts, b, hts, hmarks⟩ := Piece.exists_tokenize_render h file
  obtain ⟨ts', ss, s', hts', hread, -⟩ := Program.parse_eq_ok.1 hparse
  obtain rfl := Except.ok.inj (hts.symm.trans hts')
  exact hnot hmarks hread

/-- An import of a type, with `name` in the place of its name. -/
def importPieces (moduleName : String) (name : Piece) : List Piece :=
  [keyword .importWord, .space] ++ name ::
    [.space, .name "from", .space, .string moduleName .double none, symbol .semicolon, .line 0]

theorem pieces_eq_importPieces {rules : Rules} {p : Program} {n : Node}
    (hp : p.statements = [.imports n rules.importDeclaration]) :
    p.pieces .typed = importPieces rules.moduleName (.name rules.typeName) := by
  simp [importPieces, Program.pieces, hp, Statement.pieces, ImportDeclaration.pieces,
    ImportDeclaration.clauses, Rules.importDeclaration, separated]

theorem spaced_importPieces (moduleName : String) (w : Keyword) :
    Spaced (importPieces moduleName (keyword w)) [] :=
  spaced_word .importWord ⟨⟨trivial, stops_isNamePart_space⟩, trivial,
    ⟨⟨rfl, rfl⟩, stops_isNamePart_space⟩, trivial,
    ⟨TokenKind.spelt_escape moduleName .double, fun _ _ => rfl⟩,
    ⟨trivial, stops_of_isFence rfl _⟩, trivial, trivial⟩

/-- **The import of a keyword is not read.** -/
theorem not_parse_import {rules : Rules} {w : Keyword} (hw : rules.typeName = w.text) {p : Program}
    {n : Node} (hp : p.statements = [.imports n rules.importDeclaration]) (file : String)
    (r : Program) : Program.parse (p.render .typed) file ≠ .ok r := by
  unfold Program.render
  rw [pieces_eq_importPieces hp, hw, importPieces, Piece.render_keyword]
  exact not_parse_of_marks (spaced_importPieces rules.moduleName w)
    (fun hs => Parse.not_readsFile_import hs) r

/-- The call of the method with a name, for an object that needs no parentheses. -/
inductive Expression.CallOf (name : String) : Expression → Prop
  | mk {n m : Node} {object : Expression} {arguments : List Expression}
      (hlevel : Precedence.member ≤ object.precedence) (hnumber : object.isNumber = false)
      (hobject : object.All Expression.Spelt)
      (harguments : Expression.AllOf Expression.Spelt arguments) :
      CallOf name (.call n (.member m object name) arguments)

/-- What stands behind the name of the method, up to the end of the line. -/
def callEnd (arguments : List Expression) : List Piece :=
  parenthesized (separated (Expression.listPieces arguments)) ++ [symbol .semicolon, .line 0]

/-- An import, and a variable whose value is the call of a method, with `method` in the place of its
name. -/
def callPieces (d : ImportDeclaration) (object : Expression) (arguments : List Expression)
    (method : Piece) : List Piece :=
  d.pieces ++ [.line 0, keyword .letWord, .space, .name "x", .space, symbol .equal, .space] ++
    object.pieces ++ [symbol .dot] ++ method :: callEnd arguments

section

variable {d : ImportDeclaration} {object : Expression} {arguments : List Expression}

theorem pieces_eq_callPieces (hlevel : Precedence.member ≤ object.precedence)
    (hnumber : object.isNumber = false) {name : String} {p : Program} {n n₁ n₂ n₃ n₄ : Node}
    (hp : p.statements = [.imports n d, .variable n₁ .letWord
      [⟨n₂, "x", none, some (.call n₃ (.member n₄ object name) arguments)⟩]]) :
    p.pieces .typed = callPieces d object arguments (.name name) := by
  have hplain : (object.isNumber || decide (object.precedence < Precedence.member)) = false := by
    simp [hnumber, Nat.not_lt.2 hlevel]
  have hmember : ¬(Expression.member n₄ object name).precedence < Precedence.member :=
    Nat.lt_irrefl _
  have hcall : ¬(Expression.call n₃ (.member n₄ object name) arguments).precedence <
      Precedence.assignment :=
    (by decide : ¬Precedence.member < Precedence.assignment)
  simp [callPieces, callEnd, Program.pieces, hp, Statement.pieces, Statement.variablePieces,
    Declarator.pieces, LayoutOptions.ascriptionPieces, DeclarationWord.keyword, Expression.pieces,
    separated, parenthesizedIf, hplain, hmember, hcall]

theorem spaced_callPieces (hd : d.Written) (hlevel : Precedence.member ≤ object.precedence)
    (hnumber : object.isNumber = false) (hobject : object.All Expression.Spelt)
    (harguments : Expression.AllOf Expression.Spelt arguments) (w : Keyword) :
    Spaced (callPieces d object arguments (keyword w)) [] := by
  have hend : Spaced (callEnd arguments) [] :=
    spaced_append.2 ⟨spaced_parenthesized (spaced_separated harguments (by decide) _),
      ⟨trivial, stops_of_isFence rfl _⟩, trivial, trivial⟩
  have hmethod : (keyword w).Stands ((callEnd arguments).flatMap Piece.chars ++ []) :=
    ⟨trivial, stops_cons.2 (by decide : Text.isNamePart '(' = false)⟩
  have hdot : (symbol .dot).Stands
      ((keyword w :: callEnd arguments).flatMap Piece.chars ++ []) := by
    rw [List.flatMap_cons, List.append_assoc]
    exact stands_dot_keyword w _
  unfold callPieces
  refine spaced_append.2 ⟨spaced_append.2 ⟨spaced_append.2 ⟨spaced_append.2 ⟨spaced_import hd,
    ?_⟩, ?_⟩, hdot, trivial⟩, hmethod, hend⟩
  · exact ⟨trivial, ⟨trivial, stops_isNamePart_space⟩, trivial,
      ⟨⟨rfl, rfl⟩, stops_isNamePart_space⟩, trivial,
      ⟨trivial, stops_cons.2 (by decide)⟩, trivial, trivial⟩
  · exact spaced_spelt hobject (stops_cons.2 (goesOn_eq_false.2 (Or.inr ⟨rfl, hnumber, hlevel⟩)))

/-- **The call of a keyword is not read.** -/
theorem not_parse_call (hd : d.Written) {w : Keyword} {e : Expression} (he : e.CallOf w.text)
    {p : Program} {n n₁ n₂ : Node}
    (hp : p.statements = [.imports n d, .variable n₁ .letWord [⟨n₂, "x", none, some e⟩]])
    (file : String) (r : Program) : Program.parse (p.render .typed) file ≠ .ok r := by
  obtain ⟨hlevel, hnumber, hobject, harguments⟩ := he
  unfold Program.render
  rw [pieces_eq_callPieces hlevel hnumber hp, callPieces, Piece.render_keyword]
  refine not_parse_of_marks (spaced_callPieces hd hlevel hnumber hobject harguments w) ?_ r
  intro s s' ss b hs
  have himport : Settled d.pieces := ((Piece.settled_symbol _).cons _).append_left _
  simp only [callPieces, List.append_assoc, List.cons_append, List.nil_append,
    Piece.marks_append_of_settled himport, Piece.marks_line, Piece.marks_keyword,
    Piece.marks_space, Piece.marks_name, Piece.marks_symbol,
    Piece.marks_append_of_settled (settled_pieces _)] at hs
  exact Parse.not_readsFile_member hd hlevel hs

end

/-! ## Programs and what they are transformed to -/

/-- **Any program that can be written is that of some text**, which the lenient policy transforms to
the walk of that program behind an import. -/
theorem exists_transform (rules : Rules) {p₀ : Program}
    (hwritten : Statement.AllOf Statement.Written p₀.statements)
    (hfree : p₀.statements.any (Statement.bindsName rules) = false) (file : String) :
    ∃ (p p' : Program) (n : Node), Program.parse (p₀.render .typed) file = .ok p ∧
      p.render .typed = p₀.render .typed ∧
      Statement.relabelAll .erase p.statements =
        Statement.relabelAll LayoutOptions.typed.shown p₀.statements ∧
      Walk.WalksStatements ⟨rules, .passthrough⟩
        (.imports n rules.importDeclaration :: p.statements) p'.statements ∧
      transformSource ⟨rules, .passthrough⟩ (p₀.render .typed) file = .ok (p'.render .typed) := by
  obtain ⟨p, hparse, -, hsame⟩ := Program.exists_parse_render hwritten .typed file
  have hrender : p.render .typed = p₀.render .typed :=
    Program.render_eq_of_relabel (Relabel.faithful_erase _) (LayoutOptions.faithful_shown _) hsame
  have hfree' : p.statements.any (Statement.bindsName rules) = false := by
    rw [← Statement.any_bindsName_relabelAll .erase, hsame, Statement.any_bindsName_relabelAll]
    exact hfree
  obtain ⟨walked, s', hstep⟩ := Walk.together_program rules
    (p.bindType rules p.nextId).2.1 (.start (p.bindType rules p.nextId).2.2)
  have htransform : p.transform ⟨rules, .passthrough⟩ =
      .ok ({ walked with nextId := s'.nextId }, ⟨(p.bindType rules p.nextId).1, s'.counts⟩) := by
    unfold Program.transform
    simp only [hstep.runs]
  have hwalks := Program.walks_of_transform htransform
  rw [Program.bindType_of_free hfree'] at hwalks
  exact ⟨p, _, _, hparse, hrender, hsame, hwalks,
    transformSource_eq_ok.2 ⟨p, _, _, hparse, htransform, rfl⟩⟩

/-- A variable with a value. -/
def Program.letting (e : Expression) : Program :=
  ⟨.blank, "", [.variable .blank .letWord [⟨.blank, "x", none, some e⟩]], 0⟩

theorem written_letting {e : Expression} (h : e.All Expression.Written) :
    Statement.AllOf Statement.Written (Program.letting e).statements := by
  refine ⟨⟨⟨List.cons_ne_nil _ _, ?_⟩, ?_⟩, trivial⟩
  · intro d hd
    obtain rfl := List.mem_singleton.1 hd
    exact ⟨(⟨by decide, by decide⟩ : WrittenName "x"), fun _ htype => nomatch htype⟩
  · intro e' he'
    obtain rfl := List.mem_singleton.1 he'
    exact h

/-- What differs from such a program in labels only is such a program. -/
theorem exists_of_relabel_letting {e : Expression} {ss : List Statement}
    (h : Statement.relabelAll .erase ss =
      Statement.relabelAll LayoutOptions.typed.shown (Program.letting e).statements) :
    ∃ n m e₁, ss = [.variable n .letWord [⟨m, "x", none, some e₁⟩]] ∧
      e₁.relabel .erase = e.relabel LayoutOptions.typed.shown := by
  rcases ss with _ | ⟨st, _ | ⟨st', ss⟩⟩
  · cases h
  · obtain ⟨hst, -⟩ := List.cons.inj h
    cases st with
    | «variable» n word ds =>
      simp only [Statement.relabel, Statement.variable.injEq, List.map_cons, List.map_nil] at hst
      obtain ⟨-, rfl, hds⟩ := hst
      obtain ⟨⟨m, name, type, initial⟩, rfl, hd⟩ := List.map_eq_singleton_iff.1 hds
      simp only [Declarator.relabel, Declarator.mk.injEq, Option.map_some,
        Option.map_eq_some_iff] at hd
      obtain ⟨-, rfl, rfl, e₁, rfl, he⟩ := hd
      exact ⟨n, m, e₁, rfl, he⟩
    | _ => cases hst
  · have hlength := (List.cons.inj h).2
    cases hlength

namespace Expression

/-- The sum, difference, product or quotient of one and one. -/
def ones (op : BinaryOp) : Expression := .binary .blank op (.number .blank "1") (.number .blank "1")

/-- The call of a method of a scope. -/
def scopeCall (scope method : String) : Expression :=
  .call .blank (.member .blank (.identifier .blank scope) method) []

theorem spelt_one : (TokenKind.number "1").Spelt := by
  have hdigits : ∀ c ∈ ['1'], c.isDigit = true := by
    intro c hc
    obtain rfl := List.mem_singleton.1 hc
    rfl
  have hone : Number.IsMantissa ['1'] := ⟨['1'], [], hdigits, by simp, by simp⟩
  exact .decimal hone .none

theorem written_ones {rules : Rules} {op : BinaryOp} {method : String}
    (h : rules.method? op = some method) : (ones op).All Written := by
  refine ⟨fun hassign => ?_, spelt_one, spelt_one⟩
  -- an operator has no method, or it is no assignment
  cases op <;> first | cases h | cases hassign

theorem written_scopeCall {scope method : String} (hscope : WrittenName scope)
    (hmethod : WrittenName method) : (scopeCall scope method).All Written :=
  ⟨trivial, ⟨hmethod, hscope⟩, trivial⟩

variable {e : Expression}

theorem exists_of_relabel_number {raw : String} (h : e.relabel .erase = .number .blank raw) :
    ∃ n, e = .number n raw := by
  cases e <;> cases h
  exact ⟨_, rfl⟩

theorem exists_of_relabel_ones {op : BinaryOp} (h : e.relabel .erase = ones op) :
    ∃ n n₁ n₂, e = .binary n op (.number n₁ "1") (.number n₂ "1") := by
  cases e with
  | binary n op' left right =>
    obtain ⟨-, rfl, hleft, hright⟩ := Expression.binary.inj h
    obtain ⟨n₁, rfl⟩ := exists_of_relabel_number hleft
    obtain ⟨n₂, rfl⟩ := exists_of_relabel_number hright
    exact ⟨n, n₁, n₂, rfl⟩
  | _ => cases h

theorem exists_of_relabel_scopeCall {scope method : String}
    (h : e.relabel .erase = scopeCall scope method) :
    ∃ n callee, e = .call n callee [] ∧ callee.scopedMethod? = some (scope, method) := by
  cases e with
  | call n callee arguments =>
    obtain ⟨-, hcallee, harguments⟩ := Expression.call.inj h
    cases arguments with
    | nil =>
      refine ⟨n, callee, rfl, ?_⟩
      rw [← scopedMethod?_relabel .erase, hcallee]
      rfl
    | cons => cases harguments
  | _ => cases h

end Expression

namespace Walk

section

variable {config : Config} {e e' : Expression}

theorem exists_of_walks_imports {n : Node} {d : ImportDeclaration} {ss ss' : List Statement}
    (h : WalksStatements config (.imports n d :: ss) ss') :
    ∃ ss₁, ss' = .imports n d :: ss₁ ∧ WalksStatements config ss ss₁ := by
  cases h with
  | cons hst hss =>
    cases hst
    exact ⟨_, rfl, hss⟩

theorem exists_of_walks_letting {n m : Node} {word : DeclarationWord} {name : String}
    {type : Option String} {ss' : List Statement}
    (h : WalksStatements config [.variable n word [⟨m, name, type, some e⟩]] ss') :
    ∃ e', ss' = [.variable n word [⟨m, name, type, some e'⟩]] ∧ Walks config true e e' := by
  cases h with
  | cons hst hss =>
    cases hss
    cases hst with
    | declared hds =>
      cases hds with
      | cons hinitial hds =>
        cases hds
        cases hinitial with
        | some h => exact ⟨_, rfl, h⟩

theorem eq_of_walks_number {held : Bool} {n : Node} {raw : String}
    (h : Walks config held (.number n raw) e') : e' = .number n raw := by
  obtain ⟨hretains, hinto⟩ := h
  cases hretains with
  | rests =>
    cases hinto
    rfl
  | lifted _ hfate => cases hfate

/-- In a slot, what is replaced is lifted. -/
theorem lifts_of_walks (h : Walks config true e e') (hfate : e.fate config.rules = .replaced) :
    ∃ r, Lifts config.rules e r ∧ Descends config r e' := by
  obtain ⟨hretains, hinto⟩ := h
  cases hretains with
  | rests hrests => cases hrests.dropped hfate
  | lifted hlifts => exact ⟨_, hlifts, hinto⟩

end

variable {rules : Rules} {policy : Policy} {e e' : Expression} {name : String}

/-- Arithmetic in a slot becomes the call of a method. -/
theorem callOf_of_walks_ones (htype : WrittenName rules.typeName) {op : BinaryOp}
    (hmethod : rules.method? op = some name) (he : e.relabel .erase = .ones op)
    (h : Walks ⟨rules, policy⟩ true e e') : e'.CallOf name := by
  obtain ⟨n, n₁, n₂, rfl⟩ := Expression.exists_of_relabel_ones he
  have hfate : (Expression.binary n op (.number n₁ "1") (.number n₂ "1")).fate rules =
      .replaced := by
    simp [Expression.fate, hmethod, Expression.liftable]
  obtain ⟨r, hlifts, hinto⟩ := lifts_of_walks h hfate
  cases hlifts with
  | binary hmethod' hleft hright =>
    obtain rfl := Option.some.inj (hmethod.symm.trans hmethod')
    cases hleft
    cases hright
    cases hinto with
    | call hcallee harguments =>
      cases hcallee.descends.2 with
      | member hobject =>
        cases hobject.descends.2 with
        | construct hname hvalues =>
          cases hname.descends.2
          cases hvalues with
          | cons hvalue hvalues =>
            cases hvalues
            obtain rfl := eq_of_walks_number hvalue
            cases harguments with
            | cons hargument harguments =>
              cases harguments
              obtain rfl := eq_of_walks_number hargument
              exact .mk (Nat.le_refl _) rfl ⟨trivial, htype, Expression.spelt_one, trivial⟩
                ⟨Expression.spelt_one, trivial⟩

/-- A call in a slot that is taken over becomes the call of the other method. -/
theorem callOf_of_walks_scopeCall (htype : WrittenName rules.typeName) {scope method : String}
    (htarget : rules.target? scope method = some name)
    (he : e.relabel .erase = .scopeCall scope method)
    (h : Walks ⟨rules, policy⟩ true e e') : e'.CallOf name := by
  obtain ⟨n, callee, rfl, hcallee⟩ := Expression.exists_of_relabel_scopeCall he
  have htargetOf : rules.targetOf? callee = some name := by
    unfold Rules.targetOf?
    rw [hcallee]
    exact htarget
  have hfate : (Expression.call n callee []).fate rules = .replaced := by
    simp [Expression.fate, htargetOf]
  obtain ⟨r, hlifts, hinto⟩ := lifts_of_walks h hfate
  cases hlifts with
  | call_kept hnone => cases htargetOf.symm.trans hnone
  | call hsome =>
    obtain rfl := Option.some.inj (htargetOf.symm.trans hsome)
    cases hinto with
    | call hcallee harguments =>
      cases harguments
      cases hcallee.descends.2 with
      | member hobject =>
        cases hobject.descends.2
        exact .mk (by decide : Precedence.member ≤ Precedence.primary) rfl htype trivial

end Walk

/-! ## Keywords among the names -/

/-- The text of no statement is transformed to the import. -/
theorem exists_transform_nil (rules : Rules) (file : String) :
    ∃ (p p' : Program) (n : Node), Program.parse "" file = .ok p ∧ p.render .typed = "" ∧
      p'.statements = [.imports n rules.importDeclaration] ∧
      transformSource ⟨rules, .passthrough⟩ "" file = .ok (p'.render .typed) := by
  have hnone : Statement.AllOf Statement.Written (⟨.blank, file, [], 0⟩ : Program).statements :=
    trivial
  obtain ⟨p, p', n, hparse, hrender, hsame, hwalks, htext⟩ :=
    exists_transform rules hnone rfl file
  have hp : p.statements = [] := by
    cases hss : p.statements with
    | nil => rfl
    | cons st ss =>
      rw [hss] at hsame
      cases hsame
  rw [hp] at hwalks
  obtain ⟨ss, hp', hss⟩ := Walk.exists_of_walks_imports hwalks
  cases hss
  exact ⟨p, p', n, hparse, hrender, hp', htext⟩

namespace Rules.StaysReadable

variable {rules : Rules}

theorem typeName (h : rules.StaysReadable) : Keyword.ofText? rules.typeName = none := by
  obtain ⟨p, p', n, hparse, hrender, hp', htext⟩ := exists_transform_nil rules ""
  obtain ⟨r, hr⟩ := h .passthrough "" "" _ p p hparse (by rw [hrender, hparse]) htext
  cases hw : Keyword.ofText? rules.typeName with
  | none => rfl
  | some w => exact absurd hr (not_parse_import (Keyword.text_of_ofText? hw).symm hp' "" r)

/-- No keyword is the name of a method that an expression in a slot becomes the call of. -/
theorem methodName (h : rules.StaysReadable) (htype : WrittenName rules.typeName) {e : Expression}
    (he : e.All Expression.Written) {name : String}
    (hcall : ∀ {e₁ e' : Expression}, e₁.relabel .erase = e.relabel LayoutOptions.typed.shown →
      Walk.Walks ⟨rules, .passthrough⟩ true e₁ e' → e'.CallOf name) :
    Keyword.ofText? name = none := by
  obtain ⟨p, p', n, hparse, hrender, hsame, hwalks, htext⟩ :=
    exists_transform rules (written_letting he) rfl ""
  obtain ⟨r, hr⟩ := h .passthrough _ "" _ p p hparse (by rw [hrender, hparse]) htext
  obtain ⟨m, m₁, e₁, hp, he₁⟩ := exists_of_relabel_letting hsame
  rw [hp] at hwalks
  obtain ⟨ss, hp', hss⟩ := Walk.exists_of_walks_imports hwalks
  obtain ⟨e', rfl, he'⟩ := Walk.exists_of_walks_letting hss
  cases hw : Keyword.ofText? name with
  | none => rfl
  | some w =>
    have hcallee := hcall he₁ he'
    rw [← Keyword.text_of_ofText? hw] at hcallee
    exact absurd hr (not_parse_call (Rules.written_importDeclaration htype) hcallee hp' "" r)

end Rules.StaysReadable

/-- **Rules that pass the check leave text that is read exactly if no keyword gets into a
program.** -/
theorem staysReadable_iff {rules : Rules} (hcheck : rules.check = .ok ()) :
    rules.StaysReadable ↔ rules.WritesNoKeyword := by
  obtain ⟨htypeName, -, hcalls⟩ := Rules.isName_of_check hcheck
  constructor
  · intro h
    have htype : WrittenName rules.typeName := ⟨htypeName, h.typeName⟩
    refine ⟨h.typeName, ?_, ?_⟩
    · intro op method hmethod
      exact h.methodName htype (Expression.written_ones hmethod) fun he =>
        Walk.callOf_of_walks_ones htype hmethod he
    · intro scope method target hscope hmethod htarget
      have hnames := hcalls _ (Rules.exists_of_target? htarget)
      exact h.methodName htype (Expression.written_scopeCall ⟨hnames scope (by simp), hscope⟩
        ⟨hnames method (by simp), hmethod⟩) fun he =>
          Walk.callOf_of_walks_scopeCall htype htarget he
  · intro h
    exact ((Rules.written_iff_of_check hcheck).2 h).staysReadable

/-- Rules with two keywords that never get into a program: the first rule for a call counts, and no
call is spelt with a keyword. -/
def Rules.shadowed : Rules :=
  { Rules.standard with
    calls := [⟨"Math", "sin", "sin"⟩, ⟨"Math", "sin", "new"⟩, ⟨"new", "cos", "let"⟩] }

theorem staysReadable_shadowed :
    Rules.shadowed.check = .ok () ∧ ¬Rules.shadowed.AvoidsKeywords ∧
      Rules.shadowed.StaysReadable := by
  refine ⟨rfl, fun h => ?_, (staysReadable_iff rfl).2 ⟨by decide, ?_, ?_⟩⟩
  · cases h.targets ⟨"Math", "sin", "new"⟩ (by decide)
  · intro op method hmethod
    obtain ⟨rule, hrule, rfl⟩ := Rules.exists_of_method? hmethod
    exact (by decide : ∀ r ∈ Rules.standard.operators, Keyword.ofText? r.method = none) rule hrule
  · intro scope method target hscope hmethod htarget
    have hrule : ⟨scope, method, target⟩ ∈ Rules.shadowed.calls := Rules.exists_of_target? htarget
    simp only [Rules.shadowed, List.mem_cons, List.not_mem_nil, or_false, CallRule.mk.injEq]
      at hrule
    obtain ⟨rfl, rfl, rfl⟩ | ⟨rfl, rfl, rfl⟩ | ⟨rfl, rfl, rfl⟩ := hrule
    · decide
    · exact absurd htarget (by decide)
    · exact absurd hscope (by decide)

/-- Rules with a keyword as the name of the type. -/
def Rules.reserved : Rules := { Rules.standard with typeName := "new" }

/-- Rules that pass the check, and a text that they transform to one that is not read. -/
theorem not_parse_reserved :
    Rules.reserved.check = .ok () ∧
      transformSource ⟨.reserved, .passthrough⟩ "" "m.ts" =
        .ok "import new from \"decimal.js\";\n" ∧
      ∀ file r, Program.parse "import new from \"decimal.js\";\n" file ≠ .ok r := by
  obtain ⟨p, p', n, -, -, hp', htext⟩ := exists_transform_nil .reserved "m.ts"
  have hrender : p'.render .typed = "import new from \"decimal.js\";\n" := by
    unfold Program.render
    rw [pieces_eq_importPieces hp']
    decide +kernel
  rw [← hrender]
  have hw : Rules.reserved.typeName = Keyword.text .newWord := rfl
  exact ⟨rfl, htext, not_parse_import hw hp'⟩

end DecimalLift
