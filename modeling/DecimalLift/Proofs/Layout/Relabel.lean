import DecimalLift.Proofs.Tree.Statement
import DecimalLift.Tree.Layout

/-!
# Labels that a layout does not show

* `Relabel.Faithful` — a change of labels that keeps the text of strings and of the ascriptions that
  are written.
* `Expression.pieces_relabel`, `Statement.pieces_relabel`, `Program.render_relabel` — such a change
  does not show in a layout.
-/

set_option autoImplicit false

namespace DecimalLift

/-- The change keeps what a layout shows. -/
structure Relabel.Faithful (o : LayoutOptions) (c : Relabel) : Prop where
  spelling : ∀ value quote raw,
    (c.spelling value quote raw).getD (Quoted.escape quote value) =
      raw.getD (Quoted.escape quote value)
  ascription : ∀ type, o.ascriptionPieces (c.ascription type) = o.ascriptionPieces type

/-! ## Expressions -/

namespace Expression

theorem isNumber_relabel (c : Relabel) (e : Expression) : (e.relabel c).isNumber = e.isNumber := by
  cases e <;> simp only [relabel, isNumber]

theorem startsWithCall_relabel (c : Relabel) :
    ∀ e : Expression, (e.relabel c).startsWithCall = e.startsWithCall
  | .member _ object _ | .index _ object _ => by
    simp only [relabel, startsWithCall, startsWithCall_relabel c object]
  | .number .. | .string .. | .boolean .. | .null .. | .identifier .. | .binary .. | .unary ..
  | .call .. | .construct .. | .conditional .. | .array .. => by
    simp only [relabel, startsWithCall]

theorem needsSpace_relabel (c : Relabel) (op : UnaryOp) (e : Expression) :
    needsSpace op (e.relabel c) = needsSpace op e := by
  cases op <;> cases e <;> simp only [relabel, needsSpace]

variable {o : LayoutOptions} {c : Relabel}

mutual

theorem pieces_relabel (hc : c.Faithful o) : ∀ e : Expression, (e.relabel c).pieces = e.pieces
  | .number .. | .boolean .. | .null .. | .identifier .. => by simp only [relabel, pieces]
  | .string _ value quote raw => by
    simp only [relabel, pieces, Piece.string, hc.spelling value quote raw]
  | .binary _ _ left right => by
    simp only [relabel, pieces, precedence_relabel, pieces_relabel hc left,
      pieces_relabel hc right]
  | .unary _ _ operand => by
    simp only [relabel, pieces, precedence_relabel, needsSpace_relabel, pieces_relabel hc operand]
  | .call _ callee arguments => by
    simp only [relabel, pieces, precedence_relabel, pieces_relabel hc callee,
      listPieces_relabel hc arguments]
  | .construct _ callee arguments => by
    simp only [relabel, pieces, precedence_relabel, startsWithCall_relabel,
      pieces_relabel hc callee, listPieces_relabel hc arguments]
  | .member _ object _ => by
    simp only [relabel, pieces, precedence_relabel, isNumber_relabel, pieces_relabel hc object]
  | .index _ object position => by
    simp only [relabel, pieces, precedence_relabel, pieces_relabel hc object,
      pieces_relabel hc position]
  | .conditional _ condition yes no => by
    simp only [relabel, pieces, precedence_relabel, pieces_relabel hc condition,
      pieces_relabel hc yes, pieces_relabel hc no]
  | .array _ elements => by simp only [relabel, pieces, listPieces_relabel hc elements]

theorem listPieces_relabel (hc : c.Faithful o) :
    ∀ es : List Expression, listPieces (relabelAll c es) = listPieces es
  | [] => rfl
  | e :: es => by
    simp only [relabelAll, listPieces, precedence_relabel, pieces_relabel hc e,
      listPieces_relabel hc es]

end

end Expression

/-! ## Statements and programs -/

section

variable {o : LayoutOptions} {c : Relabel}

theorem ImportDeclaration.pieces_relabel (hc : c.Faithful o) (d : ImportDeclaration) :
    (d.relabel c).pieces = d.pieces := by
  have hclauses : (d.relabel c).clauses = d.clauses := rfl
  have hname : Piece.string d.moduleName d.quote (d.relabel c).rawName =
      Piece.string d.moduleName d.quote d.rawName := by
    simp only [Piece.string, relabel, hc.spelling]
  unfold pieces
  rw [hclauses]
  show _ ++ [Piece.string d.moduleName d.quote (d.relabel c).rawName, _] = _
  rw [hname]

theorem Declarator.pieces_relabel (hc : c.Faithful o) (d : Declarator) :
    (d.relabel c).pieces o = d.pieces o := by
  obtain ⟨n, name, type, initial⟩ := d
  cases initial with
  | none => simp only [pieces, relabel, hc.ascription, Option.map_none]
  | some e =>
    simp only [pieces, relabel, hc.ascription, Option.map_some, Expression.precedence_relabel,
      Expression.pieces_relabel hc]

theorem Parameter.pieces_relabel (hc : c.Faithful o) (p : Parameter) :
    (p.relabel c).pieces o = p.pieces o := by
  simp only [pieces, relabel, hc.ascription]

namespace Statement

theorem isBlock_relabel (c : Relabel) (s : Statement) : (s.relabel c).isBlock = s.isBlock := by
  cases s <;> simp only [relabel, isBlock]

theorem isBranch_relabel (c : Relabel) (s : Statement) : (s.relabel c).isBranch = s.isBranch := by
  cases s <;> simp only [relabel, isBranch]

theorem variablePieces_relabel (hc : c.Faithful o) (word : DeclarationWord)
    (ds : List Declarator) :
    variablePieces o word (ds.map (Declarator.relabel c)) = variablePieces o word ds := by
  unfold variablePieces
  rw [List.map_map]
  congr 2
  exact List.map_congr_left fun d _ => Declarator.pieces_relabel hc d

theorem spacedPieces_relabel (hc : c.Faithful o) (e : Option Expression) :
    spacedPieces (e.map (Expression.relabel c)) = spacedPieces e := by
  cases e with
  | none => rfl
  | some e => simp only [Option.map_some, spacedPieces, Expression.pieces_relabel hc]

theorem startPieces_relabel (hc : c.Faithful o) (s : Option Statement) :
    startPieces o (relabelOption c s) = startPieces o s := by
  cases s with
  | none => rfl
  | some s =>
    cases s with
    | «variable» => simp only [relabelOption, relabel, startPieces, variablePieces_relabel hc]
    | expression =>
      simp only [relabelOption, relabel, startPieces, Expression.pieces_relabel hc]
    | _ => simp only [relabelOption, relabel, startPieces]

theorem bodyLead_relabel (c : Relabel) (depth : Nat) (s : Statement) :
    bodyLead o depth (s.relabel c) = bodyLead o depth s := by
  simp only [bodyLead, isBlock_relabel]

theorem bodyDepth_relabel (c : Relabel) (depth : Nat) (s : Statement) :
    bodyDepth depth (s.relabel c) = bodyDepth depth s := by
  simp only [bodyDepth, isBlock_relabel]

mutual

theorem pieces_relabel (hc : c.Faithful o) :
    ∀ (depth : Nat) (s : Statement), (s.relabel c).pieces o depth = s.pieces o depth
  | depth, .imports _ d => by
    simp only [relabel, pieces, ImportDeclaration.pieces_relabel hc]
  | depth, .variable .. => by simp only [relabel, pieces, variablePieces_relabel hc]
  | depth, .function _ _ ps result body => by
    have hps : (ps.map (Parameter.relabel c)).map (Parameter.pieces o) =
        ps.map (Parameter.pieces o) := by
      rw [List.map_map]
      exact List.map_congr_left fun p _ => Parameter.pieces_relabel hc p
    simp only [relabel, pieces, hps, hc.ascription, blockPieces_relabel hc depth body]
  | depth, .exports _ inner => by simp only [relabel, pieces, pieces_relabel hc depth inner]
  | depth, .expression _ e => by simp only [relabel, pieces, Expression.pieces_relabel hc]
  | depth, .returns _ value => by simp only [relabel, pieces, spacedPieces_relabel hc]
  | depth, .branch _ condition yes no => by
    simp only [relabel, pieces, Expression.pieces_relabel hc, bodyLead_relabel,
      bodyDepth_relabel, isBlock_relabel, pieces_relabel hc (bodyDepth depth yes) yes,
      elsePieces_relabel hc depth yes.isBlock no]
  | depth, .whileLoop _ condition body => by
    simp only [relabel, pieces, Expression.pieces_relabel hc, bodyLead_relabel,
      bodyDepth_relabel, pieces_relabel hc (bodyDepth depth body) body]
  | depth, .forLoop _ start condition update body => by
    simp only [relabel, pieces, startPieces_relabel hc, spacedPieces_relabel hc,
      bodyLead_relabel, bodyDepth_relabel, pieces_relabel hc (bodyDepth depth body) body]
  | depth, .block _ statements => by
    simp only [relabel, pieces, blockPieces_relabel hc depth statements]
  | depth, .empty _ => by simp only [relabel, pieces]

theorem elsePieces_relabel (hc : c.Faithful o) :
    ∀ (depth : Nat) (afterBlock : Bool) (s : Option Statement),
      elsePieces o depth afterBlock (relabelOption c s) = elsePieces o depth afterBlock s
  | _, _, none => by simp only [relabelOption]
  | depth, _, some s => by
    simp only [relabelOption, elsePieces, isBranch_relabel, bodyLead_relabel, bodyDepth_relabel,
      pieces_relabel hc depth s, pieces_relabel hc (bodyDepth depth s) s]

theorem blockPieces_relabel (hc : c.Faithful o) :
    ∀ (depth : Nat) (ss : List Statement),
      blockPieces o depth (relabelAll c ss) = blockPieces o depth ss
  | _, [] => by simp only [relabelAll]
  | depth, s :: ss => by
    have hlines := linesPieces_relabel hc (depth + 1) (s :: ss)
    simp only [relabelAll] at hlines
    simp only [relabelAll, blockPieces, hlines]

theorem linesPieces_relabel (hc : c.Faithful o) :
    ∀ (depth : Nat) (ss : List Statement),
      linesPieces o depth (relabelAll c ss) = linesPieces o depth ss
  | _, [] => by simp only [relabelAll]
  | depth, s :: ss => by
    simp only [relabelAll, linesPieces, pieces_relabel hc depth s,
      linesPieces_relabel hc depth ss]

end

end Statement

/-- **A layout does not show a faithful change of labels.** -/
theorem Program.render_relabel (hc : c.Faithful o) (p : Program) :
    (p.relabel c).render o = p.render o := by
  have hpieces : ∀ ss : List Statement,
      (Statement.relabelAll c ss).flatMap (fun s => s.pieces o 0 ++ [.line 0]) =
        ss.flatMap fun s => s.pieces o 0 ++ [.line 0] := by
    intro ss
    induction ss with
    | nil => rfl
    | cons s ss ih =>
      simp only [Statement.relabelAll, List.flatMap_cons, Statement.pieces_relabel hc, ih]
  simp only [render, pieces, relabel, hpieces]

end

end DecimalLift
