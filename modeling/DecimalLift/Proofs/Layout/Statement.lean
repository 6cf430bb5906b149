import DecimalLift.Proofs.Layout.Ascription
import DecimalLift.Proofs.Tree.Statement

/-!
# Statements as layouts

* `Statement.Written` — what one statement has to keep to if its text is to be read back. An `else`
  belongs to the nearest `if` that can take it, so no `else` may stand behind a first branch that is
  still open (`Statement.isOpen`).
* `Statement.Spelt` — what it has to keep to if its text is to have its tokens.
* `spaced_statement`, `Program.spaced` — no token of a spelt program runs into the next.
* `settled_statement` — every statement ends with a token.
-/

set_option autoImplicit false

namespace DecimalLift

open Piece (Spaced Settled spaced_append symbol keyword comma separated parenthesized
  parenthesizedIf)

/-! ## What can be written -/

/-- The ascription, if there is one, is the text of a type. -/
def WrittenType (type : Option String) : Prop := ∀ text ∈ type, IsAscription text

/-- The name is one that a scanner reads as a name. -/
abbrev WrittenName (name : String) : Prop := (TokenKind.identifier name).Spelt

structure ImportDeclaration.Written (d : ImportDeclaration) : Prop where
  default : ∀ name ∈ d.defaultBinding, WrittenName name
  scope : ∀ name ∈ d.namespaceBinding, WrittenName name
  named : ∀ x ∈ d.named, WrittenName x.imported ∧ WrittenName x.bound
  /-- There is one clause besides the default binding at most. -/
  clause : d.namespaceBinding = none ∨ d.named = []
  module :
    (TokenKind.string d.moduleName d.quote
      (d.rawName.getD (Quoted.escape d.quote d.moduleName))).Spelt

namespace Statement

/-- Whether an `else` that follows would be taken into the statement. -/
def isOpen : Statement → Bool
  | .branch _ _ _ none => true
  | .branch _ _ _ (some no) => no.isOpen
  | .whileLoop _ _ body | .forLoop _ _ _ _ body => body.isOpen
  | _ => false

/-- Whether a statement can stand at the start of the header of a `for` loop. -/
def isStart : Statement → Bool
  | .variable .. | .expression .. => true
  | _ => false

/-- What the words and names of one statement have to keep to. -/
def Shaped : Statement → Prop
  | .imports _ d => d.Written
  | .variable _ _ ds => ds ≠ [] ∧ ∀ d ∈ ds, WrittenName d.name ∧ WrittenType d.ascription
  | .function _ name ps result _ =>
    WrittenName name ∧ (∀ p ∈ ps, WrittenName p.name ∧ WrittenType p.ascription) ∧
      WrittenType result
  | .exports _ inner => inner.isDeclaration = true
  | .branch _ _ yes no => no.isSome = true → yes.isOpen = false
  | .forLoop _ start _ _ _ => ∀ first ∈ start, first.isStart = true
  | _ => True

/-- What one statement has to keep to if its text is to be read back. -/
def Written (s : Statement) : Prop := s.Shaped ∧ ∀ e ∈ s.own, e.All Expression.Written

/-- What one statement has to keep to if its text is to have its tokens. -/
def Spelt (s : Statement) : Prop := s.Shaped ∧ ∀ e ∈ s.own, e.All Expression.Spelt

theorem Written.spelt {s : Statement} (h : s.Written) : s.Spelt :=
  ⟨h.1, fun e he => (h.2 e he).mono fun _ => Expression.Written.spelt⟩

end Statement

/-! ## Parts of statements -/

section

variable {tail : List Char}

theorem spaced_name {name : String} (h : WrittenName name)
    (ht : Stops Text.isNamePart tail) : Spaced [.name name] tail :=
  spaced_token h ht

theorem not_isNamePart_of_mem_stops {c : Char} (hc : c ∈ Expression.stops) :
    Text.isNamePart c = false :=
  not_runsInto_of_mem_stops (k := .identifier "") rfl c hc

theorem stops_isNamePart_of_mayFollow (h : Expression.MayFollow tail) :
    Stops Text.isNamePart tail :=
  fun c hc => not_isNamePart_of_mem_stops (mem_stops_of_mayFollow h c hc)

theorem stops_isNamePart_space : Stops Text.isNamePart (' ' :: tail) := stops_cons.2 (by decide)

theorem spaced_expression {e : Expression} (h : e.All Expression.Spelt)
    (ht : Expression.MayFollow tail) : Spaced e.pieces tail :=
  spaced_spelt h (stops_goesOn_of_mayFollow ht)

/-- A word and a blank. -/
theorem spaced_word (k : Keyword) {ps : List Piece} (h : Spaced ps tail) :
    Spaced ([keyword k, .space] ++ ps) tail :=
  ⟨⟨trivial, stops_isNamePart_space⟩, trivial, h⟩

/-- Items between commas. -/
theorem spaced_items : ∀ {items : List (List Piece)},
    (∀ item ∈ items, ∀ {tail}, Expression.MayFollow tail → Spaced item tail) →
      Expression.MayFollow tail → Spaced (separated items) tail
  | [], _, _ => trivial
  | [item], h, ht => h item List.mem_cons_self ht
  | item :: item' :: items, h, ht => by
    show Spaced (item ++ comma ++ separated (item' :: items)) tail
    rw [List.append_assoc]
    refine spaced_append.2 ⟨?_, ⟨trivial, stops_of_isFence rfl _⟩, trivial, ?_⟩
    · exact h item List.mem_cons_self (mayFollow_cons (by decide) _)
    · exact spaced_items (fun x hx => h x (List.mem_cons_of_mem _ hx)) ht

theorem spaced_ascription {type : Option String} (h : WrittenType type) (o : LayoutOptions)
    (ht : Expression.MayFollow tail) : Spaced (o.ascriptionPieces type) tail := by
  cases type with
  | none => trivial
  | some text =>
    unfold LayoutOptions.ascriptionPieces
    simp only
    split
    · exact ⟨⟨trivial, stops_of_isFence rfl _⟩, trivial, stands_ascription (h text rfl) ht, trivial⟩
    · trivial

/-- A name may stand before an ascription, or before what may stand behind it. -/
theorem stops_isNamePart_ascription (type : Option String) (o : LayoutOptions)
    (ht : Stops Text.isNamePart tail) :
    Stops Text.isNamePart ((o.ascriptionPieces type).flatMap Piece.chars ++ tail) := by
  cases type with
  | none => exact ht
  | some text =>
    unfold LayoutOptions.ascriptionPieces
    simp only
    split
    · exact stops_cons.2 (by decide)
    · exact ht

theorem spaced_declarator {d : Declarator} (hname : WrittenName d.name)
    (htype : WrittenType d.ascription) (hinitial : ∀ e ∈ d.initial, e.All Expression.Spelt)
    (o : LayoutOptions) (ht : Expression.MayFollow tail) : Spaced (d.pieces o) tail := by
  unfold Declarator.pieces
  cases hd : d.initial with
  | none =>
    rw [List.append_nil]
    exact ⟨⟨hname, stops_isNamePart_ascription _ _ (stops_isNamePart_of_mayFollow ht)⟩,
      spaced_ascription htype o ht⟩
  | some e =>
    have he : Spaced ([.space, symbol .equal, .space] ++
        parenthesizedIf (e.precedence < Precedence.assignment) e.pieces) tail :=
      spaced_between (spaced_parenthesizedIf (spaced_spelt (hinitial e hd))
        fun _ => stops_goesOn_of_mayFollow ht)
    rw [List.cons_append]
    refine ⟨⟨hname, ?_⟩, spaced_append.2 ⟨spaced_ascription htype o ?_, he⟩⟩
    · rw [List.flatMap_append, List.append_assoc]
      exact stops_isNamePart_ascription _ _ (stops_cons.2 (by decide))
    · exact mayFollow_cons (by decide) _

theorem spaced_parameter {p : Parameter} (hname : WrittenName p.name)
    (htype : WrittenType p.ascription) (o : LayoutOptions) (ht : Expression.MayFollow tail) :
    Spaced (p.pieces o) tail :=
  ⟨⟨hname, stops_isNamePart_ascription _ _ (stops_isNamePart_of_mayFollow ht)⟩,
    spaced_ascription htype o ht⟩

theorem spaced_variable {word : DeclarationWord} {ds : List Declarator}
    (hds : ∀ d ∈ ds, WrittenName d.name ∧ WrittenType d.ascription)
    (hinitial : ∀ d ∈ ds, ∀ e ∈ d.initial, e.All Expression.Spelt) (o : LayoutOptions)
    (ht : Expression.MayFollow tail) : Spaced (Statement.variablePieces o word ds) tail := by
  unfold Statement.variablePieces
  refine spaced_word _ (spaced_items (fun item hitem => ?_) ht)
  obtain ⟨d, hd, rfl⟩ := List.mem_map.1 hitem
  exact spaced_declarator (hds d hd).1 (hds d hd).2 (hinitial d hd) o

theorem spaced_specifier {x : ImportSpecifier} (h : WrittenName x.imported ∧ WrittenName x.bound)
    (ht : Expression.MayFollow tail) : Spaced x.pieces tail := by
  have hbound := spaced_name h.2 (stops_isNamePart_of_mayFollow ht)
  unfold ImportSpecifier.pieces
  split
  · exact hbound
  · exact ⟨⟨h.1, stops_isNamePart_space⟩, trivial, ⟨⟨rfl, rfl⟩, stops_isNamePart_space⟩, trivial,
      hbound⟩

theorem spaced_clause {d : ImportDeclaration} (h : d.Written) :
    ∀ item ∈ d.clauses, ∀ {tail}, Expression.MayFollow tail → Spaced item tail := by
  intro item hitem tail ht
  have hname {name : String} (hname : WrittenName name) : Spaced [.name name] tail :=
    spaced_name hname (stops_isNamePart_of_mayFollow ht)
  simp only [ImportDeclaration.clauses, List.mem_append, Option.mem_toList,
    Option.map_eq_some_iff] at hitem
  rcases hitem with (⟨name, hdefault, rfl⟩ | ⟨name, hscope, rfl⟩) | hitem
  · exact hname (h.default name hdefault)
  · exact ⟨⟨trivial, stops_cons.2 (not_runsInto_space _)⟩, trivial,
      ⟨⟨rfl, rfl⟩, stops_isNamePart_space⟩, trivial, hname (h.scope name hscope)⟩
  · split at hitem
    · cases hitem
    · obtain rfl := List.mem_singleton.1 hitem
      refine spaced_append.2 ⟨⟨⟨trivial, stops_of_isFence rfl _⟩, trivial, ?_⟩, trivial,
        spaced_fence rfl⟩
      refine spaced_items (fun item hitem => ?_) (mayFollow_cons (by decide) _)
      obtain ⟨x, hx, rfl⟩ := List.mem_map.1 hitem
      exact spaced_specifier (h.named x hx)

theorem spaced_import {d : ImportDeclaration} (h : d.Written) : Spaced d.pieces tail := by
  have hmodule : Spaced [.string d.moduleName d.quote d.rawName, symbol .semicolon] tail :=
    ⟨⟨h.module, fun _ _ => rfl⟩, spaced_fence rfl⟩
  unfold ImportDeclaration.pieces
  rw [List.append_assoc]
  refine spaced_word .importWord (spaced_append.2 ⟨?_, hmodule⟩)
  split
  · trivial
  · refine spaced_append.2 ⟨spaced_items (spaced_clause h) (mayFollow_cons (by decide) _), trivial,
      ⟨⟨rfl, rfl⟩, stops_isNamePart_space⟩, trivial, trivial⟩

end

/-! ## Whole statements -/

namespace Statement

variable {o : LayoutOptions}

/-- What holds of a declaration's own expressions holds of its initial values. -/
theorem forall_initial_of_own {P : Expression → Prop} {n : Node} {word : DeclarationWord}
    {ds : List Declarator} (h : ∀ e ∈ (Statement.variable n word ds).own, P e) :
    ∀ d ∈ ds, ∀ e ∈ d.initial, P e :=
  fun d hd e he => h e (List.mem_filterMap.2 ⟨d, hd, he⟩)

theorem spaced_spacedPieces {e : Option Expression} (h : ∀ e' ∈ e, e'.All Expression.Spelt)
    {tail : List Char} (ht : Expression.MayFollow tail) : Spaced (spacedPieces e) tail := by
  cases e with
  | none => trivial
  | some e => exact ⟨trivial, spaced_expression (h e rfl) ht⟩

theorem spaced_startPieces {start : Option Statement} (h : AllOption Spelt start)
    {tail : List Char} (ht : Expression.MayFollow tail) : Spaced (startPieces o start) tail := by
  unfold startPieces
  split
  · rename_i n word ds
    have hself : (Statement.variable n word ds).Spelt := All.self h
    exact spaced_variable hself.1.2 (forall_initial_of_own hself.2) o ht
  · rename_i n e
    have hself : (Statement.expression n e).Spelt := All.self h
    exact spaced_expression (hself.2 e List.mem_cons_self) ht
  · trivial

/-- The condition of a control statement, its body or first branch, and what follows. -/
theorem spaced_controlled {k : Keyword} {header body rest : List Piece} {lead : Piece}
    {tail : List Char} (hheader : ∀ {tail}, Expression.MayFollow tail → Spaced header tail)
    (hlead : ∀ tail, lead.Stands tail) (hbody : ∀ {tail}, Spaced body tail)
    (hrest : Spaced rest tail) :
    Spaced ([keyword k, .space] ++ parenthesized header ++ lead :: body ++ rest) tail := by
  rw [List.append_assoc, List.append_assoc]
  refine spaced_word k (spaced_append.2 ⟨?_, hlead _, spaced_append.2 ⟨hbody, hrest⟩⟩)
  exact spaced_parenthesized (hheader (mayFollow_cons (by decide) _))

theorem stands_bodyLead (depth : Nat) (body : Statement) (tail : List Char) :
    (bodyLead o depth body).Stands tail := by
  unfold bodyLead
  split
  · trivial
  · trivial

theorem spaced_block {depth : Nat} {ss : List Statement} {tail : List Char}
    (h : ∀ {depth tail}, Spaced (linesPieces o depth ss) tail) :
    Spaced (blockPieces o depth ss) tail := by
  cases ss with
  | nil =>
    rw [blockPieces]
    exact ⟨⟨trivial, stops_of_isFence rfl _⟩, spaced_fence rfl⟩
  | cons s ss =>
    rw [blockPieces]
    exact ⟨⟨trivial, stops_of_isFence rfl _⟩, spaced_append.2 ⟨h, trivial, spaced_fence rfl⟩⟩

mutual

/-- **No token of a spelt statement runs into the next**, whatever stands behind it. -/
theorem spaced_statement : ∀ {s : Statement} {depth : Nat} {tail : List Char},
    s.All Spelt → Spaced (s.pieces o depth) tail
  | .imports _ d, depth, tail, h => by
    rw [pieces]
    exact spaced_import h.1
  | .variable _ word ds, depth, tail, h => by
    rw [pieces]
    exact spaced_append.2
      ⟨spaced_variable h.1.2 (forall_initial_of_own h.2) o (mayFollow_cons (by decide) _),
        spaced_fence rfl⟩
  | .function _ name ps result body, depth, tail, h => by
    obtain ⟨⟨⟨hname, hps, hresult⟩, -⟩, hbody⟩ := h
    rw [pieces]
    refine spaced_append.2
      ⟨spaced_append.2 ⟨spaced_append.2 ⟨spaced_append.2 ⟨?_, ?_⟩, ?_⟩, ?_⟩, ?_⟩
    · exact spaced_word _ (spaced_name hname (stops_cons.2 (by decide)))
    · refine spaced_parenthesized
        (spaced_items (fun item hitem => ?_) (mayFollow_cons (by decide) _))
      obtain ⟨p, hp, rfl⟩ := List.mem_map.1 hitem
      exact spaced_parameter (hps p hp).1 (hps p hp).2 o
    · exact spaced_ascription hresult o (mayFollow_cons (by decide) _)
    · exact ⟨trivial, trivial⟩
    · exact spaced_block (spaced_lines hbody)
  | .exports _ inner, depth, tail, h => by
    rw [pieces]
    exact spaced_word _ (spaced_statement h.2)
  | .expression _ e, depth, tail, h => by
    rw [pieces]
    exact spaced_append.2
      ⟨spaced_expression (h.2 e List.mem_cons_self) (mayFollow_cons (by decide) _),
        spaced_fence rfl⟩
  | .returns _ value, depth, tail, h => by
    rw [pieces]
    refine ⟨⟨trivial, ?_⟩, spaced_append.2 ⟨?_, spaced_fence rfl⟩⟩
    · cases value <;> exact stops_cons.2 (by decide : Text.isNamePart _ = false)
    · refine spaced_spacedPieces (fun e he => h.2 e ?_) (mayFollow_cons (by decide) _)
      exact Option.mem_toList.2 he
  | .branch _ condition yes no, depth, tail, h => by
    rw [pieces]
    exact spaced_controlled (spaced_expression (h.1.2 condition List.mem_cons_self))
      (stands_bodyLead depth yes) (spaced_statement h.2.1) (spaced_else h.2.2)
  | .whileLoop _ condition body, depth, tail, h => by
    rw [pieces, ← List.append_nil (_ ++ _ :: _)]
    exact spaced_controlled (spaced_expression (h.1.2 condition List.mem_cons_self))
      (stands_bodyLead depth body) (spaced_statement h.2) trivial
  | .forLoop _ start condition update body, depth, tail, h => by
    have hcondition : ∀ e ∈ condition, e.All Expression.Spelt := fun e he =>
      h.1.2 e (List.mem_append_left _ (Option.mem_toList.2 he))
    have hupdate : ∀ e ∈ update, e.All Expression.Spelt := fun e he =>
      h.1.2 e (List.mem_append_right _ (Option.mem_toList.2 he))
    rw [pieces, ← List.append_nil (_ ++ _ :: _)]
    refine spaced_controlled (fun ht => ?_) (stands_bodyLead depth body) (spaced_statement h.2.2)
      trivial
    rw [List.append_assoc]
    refine spaced_append.2 ⟨spaced_startPieces h.2.1 (mayFollow_cons (by decide) _),
      ⟨trivial, stops_of_isFence rfl _⟩,
      spaced_append.2 ⟨?_, ⟨trivial, stops_of_isFence rfl _⟩, ?_⟩⟩
    · exact spaced_spacedPieces hcondition (mayFollow_cons (by decide) _)
    · exact spaced_spacedPieces hupdate ht
  | .block _ statements, depth, tail, h => by
    rw [pieces]
    exact spaced_block (spaced_lines h.2)
  | .empty _, depth, tail, _ => by
    rw [pieces]
    exact spaced_fence rfl

theorem spaced_else : ∀ {no : Option Statement} {depth : Nat} {afterBlock : Bool}
    {tail : List Char}, AllOption Spelt no → Spaced (elsePieces o depth afterBlock no) tail
  | none, _, _, _, _ => by
    rw [elsePieces]
    trivial
  | some no, depth, afterBlock, tail, h => by
    rw [elsePieces]
    refine ⟨?_, ⟨trivial, ?_⟩, ?_⟩
    · cases afterBlock <;> trivial
    · split
      · exact stops_cons.2 (by decide)
      · unfold bodyLead
        split <;> exact stops_cons.2 (by decide)
    · split
      · exact ⟨trivial, spaced_statement h⟩
      · exact ⟨stands_bodyLead depth no _, spaced_statement h⟩

theorem spaced_lines : ∀ {ss : List Statement} {depth : Nat} {tail : List Char},
    AllOf Spelt ss → Spaced (linesPieces o depth ss) tail
  | [], _, _, _ => by
    rw [linesPieces]
    trivial
  | s :: ss, depth, tail, h => by
    rw [linesPieces]
    exact ⟨trivial, spaced_append.2 ⟨spaced_statement h.1, spaced_lines h.2⟩⟩

end

/-! ## The end of a statement -/

theorem settled_block (depth : Nat) (ss : List Statement) : Settled (blockPieces o depth ss) := by
  cases ss with
  | nil =>
    rw [blockPieces]
    exact (Piece.settled_symbol _).cons _
  | cons s ss =>
    rw [blockPieces]
    exact ((Piece.settled_symbol _).cons _).append_left _

/-- The layout of a statement ends with a token. -/
theorem settled_statement : ∀ (s : Statement) (depth : Nat), Settled (s.pieces o depth)
  | .imports .., _ => by
    rw [pieces]
    exact ((Piece.settled_symbol _).cons _).append_left _
  | .variable .., _ | .expression .., _ | .returns .., _ => by
    rw [pieces]
    exact (Piece.settled_symbol _).append_left _
  | .function _ _ _ _ body, depth => by
    rw [pieces]
    exact (settled_block depth body).append_left _
  | .exports _ inner, depth => by
    rw [pieces]
    exact (settled_statement inner depth).append_left _
  | .branch _ _ yes none, depth => by
    rw [pieces, elsePieces, List.append_nil]
    exact ((settled_statement yes _).cons _).append_left _
  | .branch _ _ yes (some no), depth => by
    rw [pieces, elsePieces]
    refine Settled.append_left (Settled.append_left ?_ _) _
    split
    · exact (settled_statement no _).cons _
    · exact (settled_statement no _).cons _
  | .whileLoop _ _ body, depth => by
    rw [pieces]
    exact ((settled_statement body _).cons _).append_left _
  | .forLoop _ _ _ _ body, depth => by
    rw [pieces]
    exact ((settled_statement body _).cons _).append_left _
  | .block _ statements, depth => by
    rw [pieces]
    exact settled_block depth statements
  | .empty _, _ => by
    rw [pieces]
    exact Piece.settled_symbol _

end Statement

/-- **No token of a spelt program runs into the next.** -/
theorem Program.spaced {o : LayoutOptions} {p : Program}
    (h : Statement.AllOf Statement.Spelt p.statements) : Spaced (p.pieces o) [] := by
  unfold Program.pieces
  generalize p.statements = ss at h
  induction ss with
  | nil => trivial
  | cons s ss ih =>
    rw [List.flatMap_cons]
    refine spaced_append.2 ⟨spaced_append.2 ⟨Statement.spaced_statement h.1, ?_⟩, ih h.2⟩
    exact ⟨trivial, trivial⟩

end DecimalLift
