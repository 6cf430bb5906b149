import DecimalLift.Proofs.Layout.Statement
import DecimalLift.Proofs.Parse.Declaration
import DecimalLift.Proofs.RoundTrip.Ascription
import DecimalLift.Proofs.RoundTrip.Expression

/-!
# Declarations are read back

* `LayoutOptions.shown` — what a layout shows of the labels of a tree: no ids or spans, every string
  with a spelling, and ascriptions if the options ask for them.
* `readsVariable_back`, `readsParameters_back`, `readsImport_back` — declarations are read back up
  to what their layout shows.
-/

set_option autoImplicit false

namespace DecimalLift

open Piece (Settled Unbroken symbol keyword comma separated parenthesized parenthesizedIf)

/-- What a layout shows of the labels of a tree. -/
def LayoutOptions.shown (o : LayoutOptions) : Relabel :=
  ⟨fun _ => .blank, fun value quote raw => some (raw.getD (Quoted.escape quote value)),
    fun type => if o.ascriptions then type else none⟩

theorem Expression.Copy.shown {e' e : Expression} (h : Copy e' e) (o : LayoutOptions) :
    e'.relabel .erase = e.relabel o.shown := by
  have hcopy : e'.relabel .erase = (e.relabel .spell).relabel .erase := h
  rw [hcopy, relabel_relabel]
  have halike : ∀ f : Expression, f.SpeltAlike (Relabel.spell.andThen .erase) o.shown := by
    intro f
    cases f <;> first | rfl | trivial
  have hnode : (Relabel.spell.andThen .erase).node = o.shown.node := rfl
  exact relabel_eq hnode (all_of_forall halike e)

/-! ## Ends of parts -/

section

variable {o : LayoutOptions}

theorem settled_items : ∀ {items : List (List Piece)}, items ≠ [] →
    (∀ item ∈ items, Settled item) → Settled (separated items)
  | [], hne, _ => absurd rfl hne
  | [item], _, h => h item List.mem_cons_self
  | _ :: item :: items, _, h =>
    (settled_items (List.cons_ne_nil item items)
      fun x hx => h x (List.mem_cons_of_mem _ hx)).append_left _

theorem unbroken_items {items : List (List Piece)} (h : ∀ item ∈ items, Settled item) :
    Unbroken (separated items) := by
  cases items with
  | nil => rfl
  | cons item items => exact (settled_items (List.cons_ne_nil _ _) h).unbroken

/-- A name and its ascription end with a token. -/
theorem settled_ascribed {type : Option String} (h : WrittenType type) (name : String) :
    Settled (.name name :: o.ascriptionPieces type) := by
  cases type with
  | none => exact Piece.settled_name name
  | some text =>
    unfold LayoutOptions.ascriptionPieces
    simp only
    split
    · exact (((settled_ascription (h text rfl)).cons _).cons _).cons _
    · exact Piece.settled_name name

theorem settled_declarator {d : Declarator} (h : WrittenType d.ascription) :
    Settled (d.pieces o) := by
  unfold Declarator.pieces
  cases d.initial with
  | none =>
    rw [List.append_nil]
    exact settled_ascribed h d.name
  | some e => exact ((settled_parenthesizedIf (settled_pieces e) _).append_left _).append_left _

theorem settled_specifier (x : ImportSpecifier) : Settled x.pieces := by
  unfold ImportSpecifier.pieces
  split
  · exact Piece.settled_name _
  · exact (Piece.settled_name _).append_left [_, _, _, _]

end

/-- Kinds of token that go on with a type, or are the start of one. -/
def TokenKind.extendsType : TokenKind → Bool :=
  isOneOf [.dot, .less, .leftBracket, .pipe, .colon]

namespace Parse

variable {o : LayoutOptions} {s : ParserState} {b : Bool} {rest : List Mark}

/-- An ascription is read back if it is shown, and none is read if not. -/
theorem readsAscribed_back {type : Option String} (h : WrittenType type)
    (hs : s.marks = Piece.marks false (o.ascriptionPieces type) ++ rest)
    (hrest : NotAt TokenKind.extendsType rest) :
    ∃ s', ReadsAscribed s (o.shown.ascription type) s' ∧ s'.marks = rest := by
  have none_back : s.marks = rest → ∃ s', ReadsAscribed s none s' ∧ s'.marks = rest := by
    intro hs
    rw [← hs] at hrest
    exact ⟨s, .none (kind?_ne_of_notAt hrest rfl), hs⟩
  cases type with
  | none =>
    have hnone : o.shown.ascription none = none := by
      unfold LayoutOptions.shown
      simp
    rw [hnone]
    exact none_back hs
  | some text =>
    unfold LayoutOptions.ascriptionPieces at hs
    simp only [LayoutOptions.shown] at hs ⊢
    split at hs
    · obtain ⟨s₁, hcolon, hs₁⟩ := takes_of_marks hs
      obtain ⟨s', hread, hs'⟩ := readsType_of_marks (h text rfl) hs₁
        (hrest.mono (TokenKind.isOneOf_mono (by simp)))
      rename_i hshown
      rw [if_pos hshown]
      exact ⟨s', .some hcolon hread, hs'⟩
    · rename_i hshown
      rw [if_neg hshown]
      exact none_back hs

/-- One variable is read back, in front of a comma or a semicolon. -/
theorem readsDeclarator_back {d : Declarator} (htype : WrittenType d.ascription)
    (hinitial : ∀ e ∈ d.initial, e.All Expression.Written) {y : Symbol}
    (hy : y = .comma ∨ y = .semicolon) {ms : List Mark}
    (hs : s.marks = Piece.marks false (d.pieces o) ++ (.symbol y, b) :: ms) :
    ∃ s₁ s₂ s₃ initial, s.Takes (.identifier d.name) s₁ ∧
      ReadsAscribed s₁ (o.shown.ascription d.ascription) s₂ ∧ ReadsInitial s₂ initial s₃ ∧
      s₃.marks = (.symbol y, b) :: ms ∧
      initial.map (Expression.relabel .erase) = d.initial.map (Expression.relabel o.shown) := by
  unfold Declarator.pieces at hs
  rw [Piece.marks_append_of_settled (settled_ascribed htype d.name), List.append_assoc,
    Piece.marks_name] at hs
  obtain ⟨s₁, hname, hs₁⟩ := takes_of_marks hs
  cases hd : d.initial with
  | none =>
    rw [hd] at hs₁
    obtain ⟨s₂, htype, hs₂⟩ := readsAscribed_back htype hs₁
      (notAt_cons.2 (by rcases hy with rfl | rfl <;> rfl))
    refine ⟨s₁, s₂, s₂, none, hname, htype, .none ?_, hs₂, rfl⟩
    rw [ParserState.kind?_of_marks hs₂]
    rcases hy with rfl | rfl <;> decide
  | some e =>
    rw [hd] at hs₁
    obtain ⟨s₂, htype, hs₂⟩ := readsAscribed_back htype hs₁ (notAt_cons.2 rfl)
    obtain ⟨s₃, hequal, hs₃⟩ := takes_of_marks hs₂
    obtain ⟨e', s₄, hread, hs₄, hcopy⟩ := (readable (hinitial e hd)).wholeOperand hs₃
      (notAt_cons.2 (by rcases hy with rfl | rfl <;> rfl))
    exact ⟨s₁, s₂, s₄, some e', hname, htype, .some hequal hread, hs₄,
      congrArg some (hcopy.shown o)⟩

/-- **The variables of a declaration are read back.** -/
theorem readsDeclarators_back {ms : List Mark} : ∀ {ds : List Declarator} {s : ParserState},
    ds ≠ [] →
    (∀ d ∈ ds, WrittenType d.ascription) →
    (∀ d ∈ ds, ∀ e ∈ d.initial, e.All Expression.Written) →
    s.marks = Piece.marks false (separated (ds.map (Declarator.pieces o))) ++
      (.symbol .semicolon, b) :: ms →
    ∃ ds' s', ReadsDeclarators s ds' s' ∧ s'.marks = (.symbol .semicolon, b) :: ms ∧
      ds'.map (Declarator.relabel .erase) = ds.map (Declarator.relabel o.shown)
  | [], _, hne, _, _, _ => absurd rfl hne
  | [d], s, _, htype, hinitial, hs => by
    obtain ⟨s₁, s₂, s₃, initial, hname, hread, hvalue, hs₃, hshown⟩ :=
      readsDeclarator_back (htype d List.mem_cons_self) (hinitial d List.mem_cons_self)
        (Or.inr rfl) hs
    refine ⟨_, s₃.grown, .last hname hread hvalue ?_, hs₃, ?_⟩
    · rw [ParserState.kind?_of_marks hs₃]
      decide
    · simp only [List.map_cons, List.map_nil, Declarator.relabel, hshown]
      rfl
  | d :: d' :: ds, s, _, htype, hinitial, hs => by
    have hmarks : Piece.marks false (separated ((d :: d' :: ds).map (Declarator.pieces o))) =
        Piece.marks false (d.pieces o) ++ (.symbol .comma, false) ::
          Piece.marks false (separated ((d' :: ds).map (Declarator.pieces o))) := by
      show Piece.marks false (d.pieces o ++ comma ++ separated _) = _
      rw [List.append_assoc,
        Piece.marks_append_of_settled (settled_declarator (htype d List.mem_cons_self))]
      rfl
    rw [hmarks, List.append_assoc] at hs
    obtain ⟨s₁, s₂, s₃, initial, hname, hread, hvalue, hs₃, hshown⟩ :=
      readsDeclarator_back (htype d List.mem_cons_self) (hinitial d List.mem_cons_self)
        (Or.inl rfl) hs
    obtain ⟨s₄, hcomma, hs₄⟩ := takes_of_marks (s := s₃.grown) hs₃
    obtain ⟨ds', s', hreads, hs', hshowns⟩ := readsDeclarators_back (List.cons_ne_nil d' ds)
      (fun x hx => htype x (List.mem_cons_of_mem _ hx))
      (fun x hx => hinitial x (List.mem_cons_of_mem _ hx)) hs₄
    refine ⟨_, s', .more hname hread hvalue hcomma hreads, hs', ?_⟩
    rw [List.map_cons, hshowns]
    simp only [List.map_cons, Declarator.relabel, hshown]
    rfl

theorem readsVariable_back {word : DeclarationWord} {ds : List Declarator} {ms : List Mark}
    {b' : Bool} (hne : ds ≠ []) (htype : ∀ d ∈ ds, WrittenType d.ascription)
    (hinitial : ∀ d ∈ ds, ∀ e ∈ d.initial, e.All Expression.Written)
    (hs : s.marks = Piece.marks b (Statement.variablePieces o word ds) ++
      (.symbol .semicolon, b') :: ms) :
    ∃ ds' s', ReadsVariable s word ds' s' ∧ s'.marks = (.symbol .semicolon, b') :: ms ∧
      ds'.map (Declarator.relabel .erase) = ds.map (Declarator.relabel o.shown) := by
  obtain ⟨s₁, hword, hs₁⟩ := takes_of_marks hs
  obtain ⟨ds', s', hread, hs', hshown⟩ := readsDeclarators_back hne htype hinitial hs₁
  exact ⟨ds', s', .mk hword hread, hs', hshown⟩

/-- The pieces of a declaration end with a token. -/
theorem settled_variable {word : DeclarationWord} {ds : List Declarator} (hne : ds ≠ [])
    (htype : ∀ d ∈ ds, WrittenType d.ascription) :
    Settled (Statement.variablePieces o word ds) := by
  unfold Statement.variablePieces
  refine (settled_items (by simpa using hne) fun item hitem => ?_).append_left _
  obtain ⟨d, hd, rfl⟩ := List.mem_map.1 hitem
  exact settled_declarator (htype d hd)

/-- **The parameters of a function are read back.** -/
theorem readsParameters_back {ms : List Mark} : ∀ {ps : List Parameter} {s : ParserState},
    (∀ p ∈ ps, WrittenType p.ascription) →
    s.marks = Piece.marks false (separated (ps.map (Parameter.pieces o))) ++
      (.symbol .rightParen, b) :: ms →
    ∃ s', ReadsParameters s (ps.map (Parameter.relabel o.shown)) s' ∧
      s'.marks = (.symbol .rightParen, b) :: ms
  | [], s, _, hs => ⟨s, .close (ParserState.kind?_of_marks hs), hs⟩
  | [p], s, htype, hs => by
    obtain ⟨s₁, hname, hs₁⟩ := takes_of_marks hs
    obtain ⟨s₂, hread, hs₂⟩ :=
      readsAscribed_back (htype p List.mem_cons_self) hs₁ (notAt_cons.2 rfl)
    refine ⟨s₂, .last hname hread ?_, hs₂⟩
    rw [ParserState.kind?_of_marks hs₂]
    decide
  | p :: p' :: ps, s, htype, hs => by
    have hmarks : Piece.marks false (separated ((p :: p' :: ps).map (Parameter.pieces o))) =
        (.identifier p.name, false) :: (Piece.marks false (o.ascriptionPieces p.ascription) ++
          (.symbol .comma, false) ::
            Piece.marks false (separated ((p' :: ps).map (Parameter.pieces o)))) := by
      show Piece.marks false (p.pieces o ++ comma ++ separated _) = _
      unfold Parameter.pieces
      rw [List.append_assoc, Piece.marks_append_of_settled
        (settled_ascribed (htype p List.mem_cons_self) p.name)]
      rfl
    rw [hmarks, List.cons_append, List.append_assoc] at hs
    obtain ⟨s₁, hname, hs₁⟩ := takes_of_marks hs
    obtain ⟨s₂, hread, hs₂⟩ :=
      readsAscribed_back (htype p List.mem_cons_self) hs₁ (notAt_cons.2 rfl)
    obtain ⟨s₃, hcomma, hs₃⟩ := takes_of_marks hs₂
    obtain ⟨s', hreads, hs'⟩ :=
      readsParameters_back (fun x hx => htype x (List.mem_cons_of_mem _ hx)) hs₃
    exact ⟨s', .more hname hread hcomma hreads, hs'⟩

/-! ## Imports -/

/-- One name of an import is read back, in front of a comma or a brace. -/
theorem readsSpecifier_back {x : ImportSpecifier} {y : Symbol} {ms : List Mark}
    (hs : s.marks = Piece.marks false x.pieces ++ (.symbol y, b) :: ms) :
    ∃ s₁ s₂, s.Takes (.identifier x.imported) s₁ ∧ ReadsRenamed x.imported s₁ x.bound s₂ ∧
      s₂.marks = (.symbol y, b) :: ms := by
  unfold ImportSpecifier.pieces at hs
  split at hs
  · rename_i heq
    obtain ⟨s₁, hname, hs₁⟩ := takes_of_marks hs
    rw [heq]
    refine ⟨s₁, s₁, hname, .same ?_, hs₁⟩
    rw [ParserState.kind?_of_marks hs₁]
    simp
  · obtain ⟨s₁, hname, hs₁⟩ := takes_of_marks hs
    obtain ⟨s₂, has, hs₂⟩ := takes_of_marks hs₁
    obtain ⟨s₃, hbound, hs₃⟩ := takes_of_marks hs₂
    exact ⟨s₁, s₃, hname, .renamed has hbound, hs₃⟩

theorem readsSpecifiers_back {ms : List Mark} : ∀ {xs : List ImportSpecifier} {s : ParserState},
    s.marks = Piece.marks false (separated (xs.map ImportSpecifier.pieces)) ++
      (.symbol .rightBrace, b) :: ms →
    ∃ s', ReadsSpecifiers s xs s' ∧ s'.marks = (.symbol .rightBrace, b) :: ms
  | [], s, hs => ⟨s, .close (ParserState.kind?_of_marks hs), hs⟩
  | [x], s, hs => by
    obtain ⟨s₁, s₂, hname, hbound, hs₂⟩ := readsSpecifier_back hs
    refine ⟨s₂, .last hname hbound ?_, hs₂⟩
    rw [ParserState.kind?_of_marks hs₂]
    decide
  | x :: x' :: xs, s, hs => by
    have hmarks : Piece.marks false (separated ((x :: x' :: xs).map ImportSpecifier.pieces)) =
        Piece.marks false x.pieces ++ (.symbol .comma, false) ::
          Piece.marks false (separated ((x' :: xs).map ImportSpecifier.pieces)) := by
      show Piece.marks false (x.pieces ++ comma ++ separated _) = _
      rw [List.append_assoc, Piece.marks_append_of_settled (settled_specifier x)]
      rfl
    rw [hmarks, List.append_assoc] at hs
    obtain ⟨s₁, s₂, hname, hbound, hs₂⟩ := readsSpecifier_back hs
    obtain ⟨s₃, hcomma, hs₃⟩ := takes_of_marks hs₂
    obtain ⟨s', hreads, hs'⟩ := readsSpecifiers_back hs₃
    exact ⟨s', .more hname hbound hcomma hreads, hs'⟩

/-- The layout `ps` of a clause is read back, and turns the declaration `d` into `d'`. -/
def ReadsClauseBack (ps : List Piece) (d d' : ImportDeclaration) : Prop :=
  Settled ps ∧ ∀ ⦃s : ParserState⦄ ⦃rest : List Mark⦄, s.marks = Piece.marks false ps ++ rest →
    ∃ s', ReadsClause d s d' s' ∧ s'.marks = rest

theorem readsScope_back (name : String) (d : ImportDeclaration) :
    ReadsClauseBack [symbol .star, .space, .name "as", .space, .name name] d
      { d with namespaceBinding := some name } := by
  refine ⟨(Piece.settled_name name).append_left [_, _, _, _], fun s rest hs => ?_⟩
  obtain ⟨s₁, hstar, hs₁⟩ := takes_of_marks hs
  obtain ⟨s₂, has, hs₂⟩ := takes_of_marks hs₁
  obtain ⟨s₃, hname, hs₃⟩ := takes_of_marks hs₂
  exact ⟨s₃, .scope hstar has hname, hs₃⟩

theorem readsNamed_back (xs : List ImportSpecifier) (d : ImportDeclaration) :
    ReadsClauseBack ([symbol .leftBrace, .space] ++ separated (xs.map ImportSpecifier.pieces) ++
      [.space, symbol .rightBrace]) d { d with named := xs } := by
  refine ⟨((Piece.settled_symbol _).cons _).append_left _, fun s rest hs => ?_⟩
  have hitems : Unbroken (separated (xs.map ImportSpecifier.pieces)) := by
    refine unbroken_items fun item hitem => ?_
    obtain ⟨x, -, rfl⟩ := List.mem_map.1 hitem
    exact settled_specifier x
  have hmarks : Piece.marks false ([symbol .leftBrace, .space] ++
      separated (xs.map ImportSpecifier.pieces) ++ [.space, symbol .rightBrace]) =
        (.symbol .leftBrace, false) ::
          (Piece.marks false (separated (xs.map ImportSpecifier.pieces)) ++
            [(.symbol .rightBrace, false)]) := by
    show (_ :: Piece.marks false (separated _ ++ [.space, symbol .rightBrace])) = _
    rw [Piece.marks_append_of_unbroken hitems]
    rfl
  rw [hmarks, List.cons_append, List.append_assoc] at hs
  obtain ⟨s₁, hopen, hs₁⟩ := takes_of_marks hs
  obtain ⟨s₂, hread, hs₂⟩ := readsSpecifiers_back hs₁
  obtain ⟨s₃, hclose, hs₃⟩ := takes_of_marks hs₂
  exact ⟨s₃, .named hopen hread hclose, hs₃⟩

/-- The clauses of an import and the word `from` are read back as those of `d`. -/
def ReadsBindingsBack (clauses : List (List Piece)) (d : ImportDeclaration) : Prop :=
  ∀ ⦃s : ParserState⦄ ⦃rest : List Mark⦄,
    s.marks = Piece.marks false (separated clauses ++ [.space, .name "from", .space]) ++ rest →
      ∃ s', ReadsBindings noImport s d s' ∧ s'.marks = rest

theorem readsDefault_back (name : String) :
    ReadsBindingsBack [[.name name]] { noImport with defaultBinding := some name } := by
  intro s rest hs
  obtain ⟨s₁, hname, hs₁⟩ := takes_of_marks hs
  obtain ⟨s₂, hfrom, hs₂⟩ := takes_of_marks hs₁
  exact ⟨s₂, .default hname hfrom, hs₂⟩

theorem ReadsClauseBack.bindings {ps : List Piece} {d : ImportDeclaration}
    (h : ReadsClauseBack ps noImport d) : ReadsBindingsBack [ps] d := by
  intro s rest hs
  rw [show separated [ps] = ps from rfl, Piece.marks_append_of_settled h.1, List.append_assoc] at hs
  obtain ⟨s₁, hread, hs₁⟩ := h.2 hs
  obtain ⟨s₂, hfrom, hs₂⟩ := takes_of_marks hs₁
  exact ⟨s₂, .clause hread hfrom, hs₂⟩

theorem ReadsClauseBack.both {ps : List Piece} {name : String} {d : ImportDeclaration}
    (h : ReadsClauseBack ps { noImport with defaultBinding := some name } d) :
    ReadsBindingsBack [[.name name], ps] d := by
  intro s rest hs
  have hmarks : Piece.marks false (separated [[.name name], ps] ++ [.space, .name "from", .space]) =
      (.identifier name, false) :: (.symbol .comma, false) ::
        (Piece.marks false ps ++ [(.identifier "from", false)]) := by
    show _ :: _ :: Piece.marks false (ps ++ [.space, .name "from", .space]) = _
    rw [Piece.marks_append_of_settled h.1]
    rfl
  rw [hmarks, List.cons_append, List.cons_append, List.append_assoc] at hs
  obtain ⟨s₁, hname, hs₁⟩ := takes_of_marks hs
  obtain ⟨s₂, hcomma, hs₂⟩ := takes_of_marks hs₁
  obtain ⟨s₃, hread, hs₃⟩ := h.2 hs₂
  obtain ⟨s₄, hfrom, hs₄⟩ := takes_of_marks hs₃
  exact ⟨s₄, .both hname hcomma hread hfrom, hs₄⟩

/-- The clauses that an import declaration can have are read back. -/
theorem readsBindings_back {d : ImportDeclaration} (h : d.Written) (hne : d.clauses ≠ []) :
    ReadsBindingsBack d.clauses
      { noImport with
        defaultBinding := d.defaultBinding
        namespaceBinding := d.namespaceBinding
        named := d.named } := by
  obtain ⟨default, scope, named, moduleName, quote, raw⟩ := d
  have hclause : scope = none ∨ named = [] := h.clause
  cases default with
  | none =>
    cases scope with
    | none =>
      cases named with
      | nil => exact absurd rfl hne
      | cons x xs => exact (readsNamed_back (x :: xs) noImport).bindings
    | some scope =>
      obtain rfl : named = [] := hclause.resolve_left (by simp)
      exact (readsScope_back scope noImport).bindings
  | some name =>
    cases scope with
    | none =>
      cases named with
      | nil => exact readsDefault_back name
      | cons x xs => exact (readsNamed_back (x :: xs) _).both
    | some scope =>
      obtain rfl : named = [] := hclause.resolve_left (by simp)
      exact (readsScope_back scope _).both

/-- **Import declarations are read back.** -/
theorem readsImport_back (o : LayoutOptions) {d : ImportDeclaration} (h : d.Written)
    (hs : s.marks = Piece.marks b d.pieces ++ rest) :
    ∃ s', ReadsImport s (d.relabel o.shown) s' ∧ s'.marks = rest := by
  unfold ImportDeclaration.pieces at hs
  rw [List.append_assoc] at hs
  by_cases hclauses : d.clauses = []
  · rw [hclauses] at hs
    obtain ⟨s₁, himport, hs₁⟩ := takes_of_marks hs
    obtain ⟨s₂, hname, hs₂⟩ := takes_of_marks hs₁
    obtain ⟨s₃, hend, hs₃⟩ := takes_of_marks hs₂
    obtain ⟨default, scope, named, moduleName, quote, raw⟩ := d
    obtain ⟨rfl, rfl, rfl⟩ : default = none ∧ scope = none ∧ named = [] := by
      cases default <;> cases scope <;> cases named <;>
        first | exact ⟨rfl, rfl, rfl⟩ | cases hclauses
    exact ⟨s₃, .bare himport hname (.semicolon hend), hs₃⟩
  · have hfrom : Settled (separated d.clauses ++ [.space, .name "from", .space]) :=
      Settled.append_left (fun _ => rfl) _
    rw [if_neg (by simpa using hclauses)] at hs
    obtain ⟨s₁, himport, hs₁⟩ := takes_of_marks hs
    replace hs₁ : s₁.marks = Piece.marks false ((separated d.clauses ++
        [.space, .name "from", .space]) ++
          [.string d.moduleName d.quote d.rawName, symbol .semicolon]) ++ rest := hs₁
    rw [Piece.marks_append_of_settled hfrom, List.append_assoc] at hs₁
    obtain ⟨s₂, hread, hs₂⟩ := readsBindings_back h hclauses hs₁
    obtain ⟨s₃, hname, hs₃⟩ := takes_of_marks hs₂
    obtain ⟨s₄, hend, hs₄⟩ := takes_of_marks hs₃
    have himported := ReadsImport.bound himport hread hname (.semicolon hend)
    exact ⟨s₄, himported, hs₄⟩

end Parse

end DecimalLift
