import DecimalLift.Proofs.Tree

/-!
# Statements and programs up to their labels

* `Statement.relabel`, `Program.relabel` — the change of labels, with the law `relabel_relabel`.
* `Statement.own` — the expressions that stand in a statement itself.
* `Statement.All` — a property of every statement in a tree.
* `Statement.mapExpressions` — a change of the expressions in a tree.
* `Program.AllExpressions` — a property of every expression in a program.
-/

set_option autoImplicit false

namespace DecimalLift

def ImportDeclaration.relabel (c : Relabel) (d : ImportDeclaration) : ImportDeclaration :=
  { d with rawName := c.spelling d.moduleName d.quote d.rawName }

def Declarator.relabel (c : Relabel) (d : Declarator) : Declarator :=
  ⟨c.node d.node, d.name, c.ascription d.ascription, d.initial.map (Expression.relabel c)⟩

def Parameter.relabel (c : Relabel) (p : Parameter) : Parameter :=
  ⟨p.name, c.ascription p.ascription⟩

theorem Expression.map_relabel_relabel (c d : Relabel) (e : Option Expression) :
    (e.map (Expression.relabel c)).map (Expression.relabel d) =
      e.map (Expression.relabel (c.andThen d)) := by
  cases e with
  | none => rfl
  | some e => exact congrArg some (Expression.relabel_relabel c d e)

theorem Declarator.relabel_relabel (c d : Relabel) (x : Declarator) :
    (x.relabel c).relabel d = x.relabel (c.andThen d) := by
  simp only [relabel, Expression.map_relabel_relabel]
  rfl

namespace Statement

mutual

def relabel (c : Relabel) : Statement → Statement
  | .imports n d => .imports (c.node n) (d.relabel c)
  | .variable n word ds => .variable (c.node n) word (ds.map (Declarator.relabel c))
  | .function n name ps result body =>
    .function (c.node n) name (ps.map (Parameter.relabel c)) (c.ascription result)
      (relabelAll c body)
  | .exports n inner => .exports (c.node n) (inner.relabel c)
  | .expression n e => .expression (c.node n) (e.relabel c)
  | .returns n value => .returns (c.node n) (value.map (Expression.relabel c))
  | .branch n condition yes no =>
    .branch (c.node n) (condition.relabel c) (yes.relabel c) (relabelOption c no)
  | .whileLoop n condition body => .whileLoop (c.node n) (condition.relabel c) (body.relabel c)
  | .forLoop n start condition update body =>
    .forLoop (c.node n) (relabelOption c start) (condition.map (Expression.relabel c))
      (update.map (Expression.relabel c)) (body.relabel c)
  | .block n statements => .block (c.node n) (relabelAll c statements)
  | .empty n => .empty (c.node n)

def relabelOption (c : Relabel) : Option Statement → Option Statement
  | none => none
  | some s => some (s.relabel c)

def relabelAll (c : Relabel) : List Statement → List Statement
  | [] => []
  | s :: ss => s.relabel c :: relabelAll c ss

end

mutual

/-- Two changes of labels, one after the other. -/
theorem relabel_relabel (c d : Relabel) :
    ∀ s : Statement, (s.relabel c).relabel d = s.relabel (c.andThen d)
  | .imports .. | .empty _ => rfl
  | .variable _ _ ds => by
    have hds : (ds.map (Declarator.relabel c)).map (Declarator.relabel d) =
        ds.map (Declarator.relabel (c.andThen d)) := by
      rw [List.map_map]
      exact List.map_congr_left fun x _ => Declarator.relabel_relabel c d x
    simp only [relabel, hds]
    rfl
  | .function _ _ ps _ body => by
    simp only [relabel, List.map_map, relabelAll_relabelAll c d body]
    rfl
  | .exports _ inner => by
    simp only [relabel, relabel_relabel c d inner]
    rfl
  | .expression _ e => by
    simp only [relabel, Expression.relabel_relabel c d e]
    rfl
  | .returns _ value => by
    simp only [relabel, Expression.map_relabel_relabel]
    rfl
  | .branch _ condition yes no => by
    simp only [relabel, Expression.relabel_relabel c d condition, relabel_relabel c d yes,
      relabelOption_relabelOption c d no]
    rfl
  | .whileLoop _ condition body => by
    simp only [relabel, Expression.relabel_relabel c d condition, relabel_relabel c d body]
    rfl
  | .forLoop _ start condition update body => by
    simp only [relabel, Expression.map_relabel_relabel, relabelOption_relabelOption c d start,
      relabel_relabel c d body]
    rfl
  | .block _ statements => by
    simp only [relabel, relabelAll_relabelAll c d statements]
    rfl

theorem relabelOption_relabelOption (c d : Relabel) :
    ∀ s : Option Statement,
      relabelOption d (relabelOption c s) = relabelOption (c.andThen d) s
  | none => rfl
  | some s => by simp only [relabelOption, relabel_relabel c d s]

theorem relabelAll_relabelAll (c d : Relabel) :
    ∀ ss : List Statement, relabelAll d (relabelAll c ss) = relabelAll (c.andThen d) ss
  | [] => rfl
  | s :: ss => by
    simp only [relabelAll, relabel_relabel c d s, relabelAll_relabelAll c d ss]

end

theorem isDeclaration_relabel (c : Relabel) (s : Statement) :
    (s.relabel c).isDeclaration = s.isDeclaration := by
  cases s <;> simp only [relabel, isDeclaration]

/-- The expressions that stand in a statement, but not in a statement inside it. -/
def own : Statement → List Expression
  | .variable _ _ ds => ds.filterMap (·.initial)
  | .expression _ e => [e]
  | .returns _ value => value.toList
  | .branch _ condition _ _ | .whileLoop _ condition _ => [condition]
  | .forLoop _ _ condition update _ => condition.toList ++ update.toList
  | .imports .. | .function .. | .exports .. | .block .. | .empty _ => []

theorem own_relabel (c : Relabel) (s : Statement) :
    (s.relabel c).own = s.own.map (Expression.relabel c) := by
  have hoption : ∀ e : Option Expression,
      (e.map (Expression.relabel c)).toList = e.toList.map (Expression.relabel c) := by
    intro e
    cases e <;> rfl
  cases s with
  | «variable» n word ds =>
    simp only [relabel, own, List.filterMap_map, List.map_filterMap]
    rfl
  | returns => simp only [relabel, own, hoption]
  | forLoop => simp only [relabel, own, hoption, List.map_append]
  | _ => simp only [relabel, own, List.map_nil, List.map_cons]

mutual

/-- `Q` holds of the statement and of all statements in it. -/
def All (Q : Statement → Prop) : Statement → Prop
  | .function n name ps result body => Q (.function n name ps result body) ∧ AllOf Q body
  | .exports n inner => Q (.exports n inner) ∧ inner.All Q
  | .branch n condition yes no => Q (.branch n condition yes no) ∧ yes.All Q ∧ AllOption Q no
  | .whileLoop n condition body => Q (.whileLoop n condition body) ∧ body.All Q
  | .forLoop n start condition update body =>
    Q (.forLoop n start condition update body) ∧ AllOption Q start ∧ body.All Q
  | .block n statements => Q (.block n statements) ∧ AllOf Q statements
  | s => Q s

def AllOption (Q : Statement → Prop) : Option Statement → Prop
  | none => True
  | some s => s.All Q

def AllOf (Q : Statement → Prop) : List Statement → Prop
  | [] => True
  | s :: ss => s.All Q ∧ AllOf Q ss

end

mutual

/-- The property can be tested in a whole tree if it can be tested at each statement. -/
def decideAll (Q : Statement → Prop) [DecidablePred Q] : ∀ s : Statement, Decidable (s.All Q)
  | .imports .. | .variable .. | .expression .. | .returns .. | .empty _ =>
    inferInstanceAs (Decidable (Q _))
  | .function _ _ _ _ body | .block _ body =>
    have := decideAllOf Q body
    inferInstanceAs (Decidable (Q _ ∧ _))
  | .exports _ inner | .whileLoop _ _ inner =>
    have := decideAll Q inner
    inferInstanceAs (Decidable (Q _ ∧ _))
  | .branch _ _ yes no =>
    have := decideAll Q yes
    have := decideAllOption Q no
    inferInstanceAs (Decidable (Q _ ∧ _ ∧ _))
  | .forLoop _ start _ _ body =>
    have := decideAllOption Q start
    have := decideAll Q body
    inferInstanceAs (Decidable (Q _ ∧ _ ∧ _))

def decideAllOption (Q : Statement → Prop) [DecidablePred Q] :
    ∀ s : Option Statement, Decidable (AllOption Q s)
  | none => isTrue trivial
  | some s => decideAll Q s

def decideAllOf (Q : Statement → Prop) [DecidablePred Q] :
    ∀ ss : List Statement, Decidable (AllOf Q ss)
  | [] => isTrue trivial
  | s :: ss =>
    have := decideAll Q s
    have := decideAllOf Q ss
    inferInstanceAs (Decidable (s.All Q ∧ AllOf Q ss))

end

theorem All.self {Q : Statement → Prop} {s : Statement} (h : s.All Q) : Q s := by
  cases s with
  | imports | «variable» | expression | returns | empty => exact h
  | _ => exact h.1

mutual

theorem all_of_forall {Q : Statement → Prop} (h : ∀ s, Q s) : ∀ s : Statement, s.All Q
  | .imports .. | .variable .. | .expression .. | .returns .. | .empty _ => h _
  | .function _ _ _ _ body | .block _ body => ⟨h _, allOf_of_forall h body⟩
  | .exports _ inner | .whileLoop _ _ inner => ⟨h _, all_of_forall h inner⟩
  | .branch _ _ yes no => ⟨h _, all_of_forall h yes, allOption_of_forall h no⟩
  | .forLoop _ start _ _ body => ⟨h _, allOption_of_forall h start, all_of_forall h body⟩

theorem allOption_of_forall {Q : Statement → Prop} (h : ∀ s, Q s) :
    ∀ s : Option Statement, AllOption Q s
  | none => trivial
  | some s => all_of_forall h s

theorem allOf_of_forall {Q : Statement → Prop} (h : ∀ s, Q s) : ∀ ss : List Statement, AllOf Q ss
  | [] => trivial
  | s :: ss => ⟨all_of_forall h s, allOf_of_forall h ss⟩

end

mutual

/-- What follows from two properties at each statement follows in all of a tree. -/
theorem All.imp₂ {P Q R : Statement → Prop} (hR : ∀ s, P s → Q s → R s) :
    ∀ {s : Statement}, s.All P → s.All Q → s.All R
  | .imports .., h, h' | .variable .., h, h' | .expression .., h, h' | .returns .., h, h'
  | .empty _, h, h' => hR _ h h'
  | .function .., h, h' | .block .., h, h' => ⟨hR _ h.1 h'.1, AllOf.imp₂ hR h.2 h'.2⟩
  | .exports .., h, h' | .whileLoop .., h, h' => ⟨hR _ h.1 h'.1, All.imp₂ hR h.2 h'.2⟩
  | .branch .., h, h' =>
    ⟨hR _ h.1 h'.1, All.imp₂ hR h.2.1 h'.2.1, AllOption.imp₂ hR h.2.2 h'.2.2⟩
  | .forLoop .., h, h' =>
    ⟨hR _ h.1 h'.1, AllOption.imp₂ hR h.2.1 h'.2.1, All.imp₂ hR h.2.2 h'.2.2⟩

theorem AllOption.imp₂ {P Q R : Statement → Prop} (hR : ∀ s, P s → Q s → R s) :
    ∀ {s : Option Statement}, AllOption P s → AllOption Q s → AllOption R s
  | none, _, _ => trivial
  | some _, h, h' => All.imp₂ hR h h'

theorem AllOf.imp₂ {P Q R : Statement → Prop} (hR : ∀ s, P s → Q s → R s) :
    ∀ {ss : List Statement}, AllOf P ss → AllOf Q ss → AllOf R ss
  | [], _, _ => trivial
  | _ :: _, h, h' => ⟨All.imp₂ hR h.1 h'.1, AllOf.imp₂ hR h.2 h'.2⟩

end

mutual

/-- A property that no label plays a part in. -/
theorem all_relabel {Q : Statement → Prop} {c : Relabel} (hQ : ∀ s, Q (s.relabel c) ↔ Q s) :
    ∀ {s : Statement}, (s.relabel c).All Q ↔ s.All Q
  | .imports .. | .variable .. | .expression .. | .returns .. | .empty _ => hQ _
  | .function n name ps result body =>
    and_congr (hQ (.function n name ps result body)) (allOf_relabel hQ)
  | .exports n inner => and_congr (hQ (.exports n inner)) (all_relabel hQ)
  | .branch n condition yes no =>
    and_congr (hQ (.branch n condition yes no))
      (and_congr (all_relabel hQ) (allOption_relabel hQ))
  | .whileLoop n condition body => and_congr (hQ (.whileLoop n condition body)) (all_relabel hQ)
  | .forLoop n start condition update body =>
    and_congr (hQ (.forLoop n start condition update body))
      (and_congr (allOption_relabel hQ) (all_relabel hQ))
  | .block n statements => and_congr (hQ (.block n statements)) (allOf_relabel hQ)

theorem allOption_relabel {Q : Statement → Prop} {c : Relabel} (hQ : ∀ s, Q (s.relabel c) ↔ Q s) :
    ∀ {s : Option Statement}, AllOption Q (relabelOption c s) ↔ AllOption Q s
  | none => Iff.rfl
  | some s => all_relabel hQ (s := s)

theorem allOf_relabel {Q : Statement → Prop} {c : Relabel} (hQ : ∀ s, Q (s.relabel c) ↔ Q s) :
    ∀ {ss : List Statement}, AllOf Q (relabelAll c ss) ↔ AllOf Q ss
  | [] => Iff.rfl
  | _ :: _ => and_congr (all_relabel hQ) (allOf_relabel hQ)

end

theorem AllOf.mono {P Q : Statement → Prop} (hPQ : ∀ s, P s → Q s) {ss : List Statement}
    (h : AllOf P ss) : AllOf Q ss :=
  AllOf.imp₂ (fun s hP _ => hPQ s hP) h h

/-- The strings of this statement are spelt alike by both changes. -/
def SpeltAlike (c d : Relabel) : Statement → Prop
  | .imports _ x =>
    c.spelling x.moduleName x.quote x.rawName = d.spelling x.moduleName x.quote x.rawName
  | s => ∀ e ∈ s.own, e.All (Expression.SpeltAlike c d)

theorem map_relabel_eq {c d : Relabel} (hnode : c.node = d.node) {e : Option Expression}
    (h : ∀ e' ∈ e.toList, e'.All (Expression.SpeltAlike c d)) :
    e.map (Expression.relabel c) = e.map (Expression.relabel d) := by
  cases e with
  | none => rfl
  | some e => exact congrArg some (Expression.relabel_eq hnode (h e List.mem_cons_self))

mutual

/-- Two changes are one on a tree if they treat nodes, ascriptions and the strings of the tree
alike. -/
theorem relabel_eq {c d : Relabel} (hnode : c.node = d.node) (htype : c.ascription = d.ascription) :
    ∀ {s : Statement}, s.All (SpeltAlike c d) → s.relabel c = s.relabel d
  | .imports _ x, h => by
    have hspelling : c.spelling x.moduleName x.quote x.rawName =
      d.spelling x.moduleName x.quote x.rawName := h
    simp only [relabel, ImportDeclaration.relabel, hnode, hspelling]
  | .variable n word ds, h => by
    have hds : ds.map (Declarator.relabel c) = ds.map (Declarator.relabel d) := by
      refine List.map_congr_left fun x hx => ?_
      have hinitial := map_relabel_eq hnode fun e he =>
        h e (List.mem_filterMap.2 ⟨x, hx, Option.mem_toList.1 he⟩)
      simp only [Declarator.relabel, hnode, htype, hinitial]
    simp only [relabel, hnode, hds]
  | .function .., h => by
    have hps : Parameter.relabel c = Parameter.relabel d := by
      unfold Parameter.relabel
      rw [htype]
    simp only [relabel, hnode, htype, hps, relabelAll_eq hnode htype h.2]
  | .exports .., h => by simp only [relabel, hnode, relabel_eq hnode htype h.2]
  | .expression _ e, h => by
    simp only [relabel, hnode, Expression.relabel_eq hnode (h e List.mem_cons_self)]
  | .returns .., h => by simp only [relabel, hnode, map_relabel_eq hnode h]
  | .branch _ e _ _, h => by
    simp only [relabel, hnode, Expression.relabel_eq hnode (h.1 e List.mem_cons_self),
      relabel_eq hnode htype h.2.1, relabelOption_eq hnode htype h.2.2]
  | .whileLoop _ e _, h => by
    simp only [relabel, hnode, Expression.relabel_eq hnode (h.1 e List.mem_cons_self),
      relabel_eq hnode htype h.2]
  | .forLoop .., h => by
    have hcondition := map_relabel_eq hnode fun e he => h.1 e (List.mem_append_left _ he)
    have hupdate := map_relabel_eq hnode fun e he => h.1 e (List.mem_append_right _ he)
    simp only [relabel, hnode, relabelOption_eq hnode htype h.2.1, relabel_eq hnode htype h.2.2,
      hcondition, hupdate]
  | .block .., h => by simp only [relabel, hnode, relabelAll_eq hnode htype h.2]
  | .empty _, _ => by simp only [relabel, hnode]

theorem relabelOption_eq {c d : Relabel} (hnode : c.node = d.node)
    (htype : c.ascription = d.ascription) : ∀ {s : Option Statement},
      AllOption (SpeltAlike c d) s → relabelOption c s = relabelOption d s
  | none, _ => rfl
  | some _, h => congrArg some (relabel_eq hnode htype h)

theorem relabelAll_eq {c d : Relabel} (hnode : c.node = d.node)
    (htype : c.ascription = d.ascription) : ∀ {ss : List Statement},
      AllOf (SpeltAlike c d) ss → relabelAll c ss = relabelAll d ss
  | [], _ => rfl
  | _ :: _, h => by
    simp only [relabelAll, relabel_eq hnode htype h.1, relabelAll_eq hnode htype h.2]

end

mutual

/-- The statement with each of its expressions replaced by what `f` makes of it. -/
def mapExpressions (f : Expression → Expression) : Statement → Statement
  | .imports n d => .imports n d
  | .variable n word ds =>
    .variable n word (ds.map fun d => { d with initial := d.initial.map f })
  | .function n name ps result body => .function n name ps result (mapExpressionsAll f body)
  | .exports n inner => .exports n (inner.mapExpressions f)
  | .expression n e => .expression n (f e)
  | .returns n value => .returns n (value.map f)
  | .branch n condition yes no =>
    .branch n (f condition) (yes.mapExpressions f) (mapExpressionsOption f no)
  | .whileLoop n condition body => .whileLoop n (f condition) (body.mapExpressions f)
  | .forLoop n start condition update body =>
    .forLoop n (mapExpressionsOption f start) (condition.map f) (update.map f)
      (body.mapExpressions f)
  | .block n statements => .block n (mapExpressionsAll f statements)
  | .empty n => .empty n

def mapExpressionsOption (f : Expression → Expression) : Option Statement → Option Statement
  | none => none
  | some s => some (s.mapExpressions f)

def mapExpressionsAll (f : Expression → Expression) : List Statement → List Statement
  | [] => []
  | s :: ss => s.mapExpressions f :: mapExpressionsAll f ss

end

theorem map_eq_self {f : Expression → Expression} {e : Option Expression}
    (h : ∀ e' ∈ e.toList, f e' = e') : e.map f = e := by
  cases e with
  | none => rfl
  | some e => exact congrArg some (h e List.mem_cons_self)

mutual

/-- A change that leaves every expression of a statement alone leaves the statement alone. -/
theorem mapExpressions_eq_self {f : Expression → Expression} :
    ∀ {s : Statement}, s.All (fun s => ∀ e ∈ s.own, f e = e) → s.mapExpressions f = s
  | .imports .., _ | .empty _, _ => rfl
  | .variable n word ds, h => by
    have hds : ds.map (fun d => { d with initial := d.initial.map f }) = ds := by
      conv => rhs; rw [← List.map_id ds]
      refine List.map_congr_left fun d hd => ?_
      have hinitial : d.initial.map f = d.initial := map_eq_self fun e he =>
        h e (List.mem_filterMap.2 ⟨d, hd, Option.mem_toList.1 he⟩)
      rw [hinitial]
      rfl
    simp only [mapExpressions, hds]
  | .function .., h => by simp only [mapExpressions, mapExpressionsAll_eq_self h.2]
  | .exports .., h => by simp only [mapExpressions, mapExpressions_eq_self h.2]
  | .expression _ e, h => by
    have he : f e = e := h e List.mem_cons_self
    simp only [mapExpressions, he]
  | .returns .., h => by simp only [mapExpressions, map_eq_self h]
  | .branch _ e _ _, h => by
    have he : f e = e := h.1 e List.mem_cons_self
    simp only [mapExpressions, he, mapExpressions_eq_self h.2.1,
      mapExpressionsOption_eq_self h.2.2]
  | .whileLoop _ e _, h => by
    have he : f e = e := h.1 e List.mem_cons_self
    simp only [mapExpressions, he, mapExpressions_eq_self h.2]
  | .forLoop .., h => by
    have hcondition := map_eq_self fun e he => h.1 e (List.mem_append_left _ he)
    have hupdate := map_eq_self fun e he => h.1 e (List.mem_append_right _ he)
    simp only [mapExpressions, hcondition, hupdate, mapExpressionsOption_eq_self h.2.1,
      mapExpressions_eq_self h.2.2]
  | .block .., h => by simp only [mapExpressions, mapExpressionsAll_eq_self h.2]

theorem mapExpressionsOption_eq_self {f : Expression → Expression} :
    ∀ {s : Option Statement}, AllOption (fun s => ∀ e ∈ s.own, f e = e) s →
      mapExpressionsOption f s = s
  | none, _ => rfl
  | some _, h => congrArg some (mapExpressions_eq_self h)

theorem mapExpressionsAll_eq_self {f : Expression → Expression} :
    ∀ {ss : List Statement}, AllOf (fun s => ∀ e ∈ s.own, f e = e) ss →
      mapExpressionsAll f ss = ss
  | [], _ => rfl
  | _ :: _, h => by
    simp only [mapExpressionsAll, mapExpressions_eq_self h.1, mapExpressionsAll_eq_self h.2]

end

end Statement

namespace Program

/-- The change of labels. The next free id is kept. -/
def relabel (c : Relabel) (p : Program) : Program :=
  ⟨c.node p.node, p.file, Statement.relabelAll c p.statements, p.nextId⟩

/-- The program without ids and spans. -/
def erase (p : Program) : Program := { p.relabel .erase with nextId := 0 }

/-- The program without the ascriptions of its variables, parameters and functions. -/
def untyped (p : Program) : Program := p.relabel .untype

/-- The program with each of its expressions replaced by what `f` makes of it. -/
def mapExpressions (f : Expression → Expression) (p : Program) : Program :=
  { p with statements := Statement.mapExpressionsAll f p.statements }

/-- `P` holds of every expression in the program. -/
def AllExpressions (P : Expression → Prop) (p : Program) : Prop :=
  Statement.AllOf (fun s => ∀ e ∈ s.own, e.All P) p.statements

instance (P : Expression → Prop) [DecidablePred P] : DecidablePred (AllExpressions P) :=
  fun p => Statement.decideAllOf _ p.statements

end Program

end DecimalLift
