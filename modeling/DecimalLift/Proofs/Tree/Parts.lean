import DecimalLift.Lift.Weight

/-!
# The parts of a tree

Whatever goes through a tree sees an expression with a list of expressions in it, and a program as
a list of parts. Both views are here, so that a proof about such a pass has one case for a node and
one for a list, and not one for every kind of expression.

* `Expression.children`, `Expression.fill` — the expressions right inside an expression, and the
  same expression with others in their places.
* `Expression.subexpressions` — the expression and all in it, each before those inside it.
* `Expression.weight_induction` — induction into trees that weigh no more than the one at hand.
* `Part`, `Program.parts` — the statements, declarators and expressions of a program, in the order
  of a walk, and `Part.bare`, a part without what is inside it.
* `Part.children` — the parts right inside a part, each with whether it stands in a slot.
* `Program.ids` — the identities of a program and of all its parts.
-/

set_option autoImplicit false

namespace DecimalLift

/-! ## Expressions -/

/-- An expression right inside another one. -/
structure Child where
  /-- Whether it is an argument of a call. -/
  held : Bool
  value : Expression

@[simp] theorem Child.value_comp_mk (held : Bool) : Child.value ∘ Child.mk held = id := rfl

@[simp] theorem Child.held_comp_mk (held : Bool) : Child.held ∘ Child.mk held = fun _ => held := rfl

namespace Expression

/-- The expressions right inside an expression, from left to right. -/
def children : Expression → List Child
  | .number .. | .string .. | .boolean .. | .null .. | .identifier .. => []
  | .binary _ _ left right => [⟨false, left⟩, ⟨false, right⟩]
  | .unary _ _ operand => [⟨false, operand⟩]
  | .call _ callee arguments => ⟨false, callee⟩ :: arguments.map (Child.mk true)
  | .construct _ callee arguments => ⟨false, callee⟩ :: arguments.map (Child.mk false)
  | .member _ object _ => [⟨false, object⟩]
  | .index _ object position => [⟨false, object⟩, ⟨false, position⟩]
  | .conditional _ condition yes no => [⟨false, condition⟩, ⟨false, yes⟩, ⟨false, no⟩]
  | .array _ elements => elements.map (Child.mk false)

/-- The expression with others in the places of its children. -/
def fill : Expression → List Expression → Expression
  | .binary n op _ _, [left, right] => .binary n op left right
  | .unary n op _, [operand] => .unary n op operand
  | .call n _ _, callee :: arguments => .call n callee arguments
  | .construct n _ _, callee :: arguments => .construct n callee arguments
  | .member n _ property, [object] => .member n object property
  | .index n _ _, [object, position] => .index n object position
  | .conditional n _ _ _, [condition, yes, no] => .conditional n condition yes no
  | .array n _, elements => .array n elements
  | e, _ => e

/-- What stands for an expression that is left open. -/
def hole : Expression := .null .blank

/-- The expression without what is inside it: its node, its kind, its own fields, and how many
children it has. -/
def bare : Expression → Expression
  | .binary n op _ _ => .binary n op hole hole
  | .unary n op _ => .unary n op hole
  | .call n _ arguments => .call n hole (arguments.map fun _ => hole)
  | .construct n _ arguments => .construct n hole (arguments.map fun _ => hole)
  | .member n _ property => .member n hole property
  | .index n _ _ => .index n hole hole
  | .conditional n _ _ _ => .conditional n hole hole hole
  | .array n elements => .array n (elements.map fun _ => hole)
  | e => e

/-- Whether an expression has an operator between operands or is a call. -/
def isOperation : Expression → Bool
  | .binary .. | .call .. => true
  | _ => false

@[simp] theorem node_bare (e : Expression) : e.bare.node = e.node := by
  cases e <;> rfl

@[simp] theorem isOperation_bare (e : Expression) : e.bare.isOperation = e.isOperation := by
  cases e <;> rfl

@[simp] theorem held_children_bare (e : Expression) :
    e.bare.children.map Child.held = e.children.map Child.held := by
  cases e <;> simp [bare, children]

/-- Filling an expression changes what is inside it and nothing else. -/
theorem bare_fill {e : Expression} {es : List Expression} (h : es.length = e.children.length) :
    (e.fill es).bare = e.bare ∧ (e.fill es).children.map Child.value = es := by
  cases e with
  | number | string | boolean | null | identifier =>
    obtain rfl := List.length_eq_zero_iff.1 h
    exact ⟨rfl, rfl⟩
  | unary | member =>
    obtain ⟨x, rfl⟩ := List.length_eq_one_iff.1 h
    exact ⟨rfl, rfl⟩
  | binary | index =>
    obtain _ | ⟨x, _ | ⟨y, _ | ⟨z, es⟩⟩⟩ := es <;> simp [children] at h
    exact ⟨rfl, rfl⟩
  | conditional =>
    obtain _ | ⟨x, _ | ⟨y, _ | ⟨z, _ | ⟨w, es⟩⟩⟩⟩ := es <;> simp [children] at h
    exact ⟨rfl, rfl⟩
  | call n callee arguments | construct n callee arguments =>
    cases es with
    | nil => simp [children] at h
    | cons x xs =>
      have hlength : xs.length = arguments.length := by simpa [children] using h
      simp [fill, bare, children, List.map_const', hlength]
  | array n elements =>
    have hlength : es.length = elements.length := by simpa [children] using h
    simp [fill, bare, children, List.map_const', hlength]

mutual

/-- The expression and all expressions in it, each before those inside it. -/
def subexpressions : Expression → List Expression
  | .binary n op left right =>
    .binary n op left right :: (left.subexpressions ++ right.subexpressions)
  | .unary n op operand => .unary n op operand :: operand.subexpressions
  | .call n callee arguments =>
    .call n callee arguments :: (callee.subexpressions ++ subexpressionsAll arguments)
  | .construct n callee arguments =>
    .construct n callee arguments :: (callee.subexpressions ++ subexpressionsAll arguments)
  | .member n object property => .member n object property :: object.subexpressions
  | .index n object position =>
    .index n object position :: (object.subexpressions ++ position.subexpressions)
  | .conditional n condition yes no =>
    .conditional n condition yes no ::
      (condition.subexpressions ++ yes.subexpressions ++ no.subexpressions)
  | .array n elements => .array n elements :: subexpressionsAll elements
  | e => [e]

def subexpressionsAll : List Expression → List Expression
  | [] => []
  | e :: es => e.subexpressions ++ subexpressionsAll es

end

theorem subexpressionsAll_eq (es : List Expression) :
    subexpressionsAll es = es.flatMap subexpressions := by
  induction es with
  | nil => rfl
  | cons e es ih => rw [subexpressionsAll, ih, List.flatMap_cons]

theorem subexpressions_eq (e : Expression) :
    e.subexpressions = e :: e.children.flatMap (·.value.subexpressions) := by
  cases e <;> simp [subexpressions, children, subexpressionsAll_eq, List.flatMap_map]

theorem weight_child_lt {e : Expression} {c : Child} (h : c ∈ e.children) :
    c.value.weight < e.weight := by
  have hlist : ∀ es : List Expression, ∀ x ∈ es, x.weight < listWeight es := by
    intro es
    induction es with
    | nil => simp
    | cons e es ih =>
      intro x hx
      have := listWeight_pos es
      rcases List.mem_cons.1 hx with rfl | hx
      · simp only [listWeight]
        omega
      · have := ih x hx
        have := e.weight_pos
        simp only [listWeight]
        omega
  cases e with
  | number | string | boolean | null | identifier => simp [children] at h
  | unary | member =>
    simp only [children, List.mem_singleton] at h
    subst h
    simp only [weight]
    omega
  | binary | index | conditional =>
    simp only [children, List.mem_cons, List.not_mem_nil, or_false] at h
    rcases h with rfl | rfl | rfl <;> simp only [weight] <;> omega
  | call n callee arguments | construct n callee arguments =>
    simp only [children, List.mem_cons, List.mem_map] at h
    have := callee.weight_pos
    have := listWeight_pos arguments
    rcases h with rfl | ⟨x, hx, rfl⟩
    · simp only [weight]
      omega
    · have := hlist _ x hx
      simp only [weight]
      omega
  | array n elements =>
    simp only [children, List.mem_map] at h
    obtain ⟨x, hx, rfl⟩ := h
    have := hlist _ x hx
    simp only [weight]
    omega

/-- **Induction into trees that weigh no more.** A walk replaces an expression by one that weighs
no more and goes on into the children of that one. -/
theorem weight_induction {P : Expression → Prop}
    (h : ∀ e : Expression,
      (∀ r : Expression, r.weight ≤ e.weight → ∀ c ∈ r.children, P c.value) → P e)
    (e : Expression) : P e := by
  induction hn : e.weight using Nat.strongRecOn generalizing e with
  | _ n ih =>
    subst hn
    apply h
    intro r hr c hc
    have hlt : c.value.weight < e.weight := Nat.lt_of_lt_of_le (weight_child_lt hc) hr
    exact ih _ hlt c.value rfl

end Expression

/-! ## Statements -/

/-- A declarator without its initial value. -/
def Declarator.bare (d : Declarator) : Declarator :=
  { d with initial := d.initial.map fun _ => .hole }

namespace Statement

/-- What stands for a statement that is left open. -/
def hole : Statement := .empty .blank

/-- The statement without what is inside it: its node, its kind, its own fields, and how many parts
of each kind it has. -/
def bare : Statement → Statement
  | .imports n d => .imports n d
  | .variable n word ds => .variable n word (ds.map fun _ => ⟨.blank, "", none, none⟩)
  | .function n name ps result body => .function n name ps result (body.map fun _ => hole)
  | .exports n _ => .exports n hole
  | .expression n _ => .expression n .hole
  | .returns n value => .returns n (value.map fun _ => .hole)
  | .branch n _ _ no => .branch n .hole hole (no.map fun _ => hole)
  | .whileLoop n _ _ => .whileLoop n .hole hole
  | .forLoop n start condition update _ =>
    .forLoop n (start.map fun _ => hole) (condition.map fun _ => .hole)
      (update.map fun _ => .hole) hole
  | .block n ss => .block n (ss.map fun _ => hole)
  | .empty n => .empty n

@[simp] theorem node_bare (s : Statement) : s.bare.node = s.node := by
  cases s <;> rfl

end Statement

/-- A part of a program with a node of its own. -/
inductive Part where
  | statement (s : Statement)
  | declarator (d : Declarator)
  | expression (e : Expression)

namespace Part

def node : Part → Node
  | .statement s => s.node
  | .declarator d => d.node
  | .expression e => e.node

def id (x : Part) : UInt32 := x.node.id

/-- The part without what is inside it. -/
def bare : Part → Part
  | .statement s => .statement s.bare
  | .declarator d => .declarator d.bare
  | .expression e => .expression e.bare

def expression? : Part → Option Expression
  | .expression e => some e
  | _ => none

@[simp] theorem node_bare (x : Part) : x.bare.node = x.node := by
  cases x with
  | statement s => exact s.node_bare
  | declarator d => rfl
  | expression e => exact e.node_bare

theorem node_eq_of_bare {x y : Part} (h : y.bare = x.bare) : y.node = x.node := by
  rw [← node_bare y, h, node_bare]

end Part

/-- The parts of an expression. -/
def Expression.parts (e : Expression) : List Part := e.subexpressions.map .expression

theorem Expression.parts_eq (e : Expression) :
    e.parts = .expression e :: e.children.flatMap (·.value.parts) := by
  unfold parts
  rw [e.subexpressions_eq, List.map_cons, List.map_flatMap]

/-- The parts of an expression that may be missing. -/
def Expression.partsOption (e : Option Expression) : List Part := e.toList.flatMap parts

@[simp] theorem Expression.partsOption_some (e : Expression) : partsOption (some e) = e.parts :=
  List.append_nil e.parts

def Declarator.parts (d : Declarator) : List Part :=
  .declarator d :: Expression.partsOption d.initial

namespace Statement

mutual

/-- The parts of a statement, in the order of a walk. -/
def parts : Statement → List Part
  | .imports n d => [.statement (.imports n d)]
  | .variable n word ds => .statement (.variable n word ds) :: ds.flatMap Declarator.parts
  | .function n name ps result body =>
    .statement (.function n name ps result body) :: partsAll body
  | .exports n inner => .statement (.exports n inner) :: inner.parts
  | .expression n e => .statement (.expression n e) :: e.parts
  | .returns n value => .statement (.returns n value) :: Expression.partsOption value
  | .branch n condition yes no =>
    .statement (.branch n condition yes no) :: (condition.parts ++ (yes.parts ++ partsOption no))
  | .whileLoop n condition body =>
    .statement (.whileLoop n condition body) :: (condition.parts ++ body.parts)
  | .forLoop n start condition update body =>
    .statement (.forLoop n start condition update body) ::
      (partsOption start ++ (Expression.partsOption condition ++
        (Expression.partsOption update ++ body.parts)))
  | .block n ss => .statement (.block n ss) :: partsAll ss
  | .empty n => [.statement (.empty n)]

def partsOption : Option Statement → List Part
  | none => []
  | some s => s.parts

def partsAll : List Statement → List Part
  | [] => []
  | s :: ss => s.parts ++ partsAll ss

end

theorem partsAll_append (ss ts : List Statement) :
    partsAll (ss ++ ts) = partsAll ss ++ partsAll ts := by
  induction ss with
  | nil => rfl
  | cons s ss ih => rw [List.cons_append, partsAll, partsAll, ih, List.append_assoc]

end Statement

/-! ## Parts inside parts -/

/-- A part right inside another one. -/
structure Inner where
  /-- Whether it is the initial value of a variable or an argument of a call. -/
  held : Bool
  part : Part

namespace Inner

def ofChild (c : Child) : Inner := ⟨c.held, .expression c.value⟩

def ofStatement (s : Statement) : Inner := ⟨false, .statement s⟩

def ofDeclarator (d : Declarator) : Inner := ⟨false, .declarator d⟩

/-- An expression right inside a statement, which is no initial value. -/
def ofExpression (e : Expression) : Inner := ⟨false, .expression e⟩

def ofInitial (e : Expression) : Inner := ⟨true, .expression e⟩

end Inner

/-- The parts right inside a statement, in the order of a walk. -/
def Statement.children : Statement → List Inner
  | .imports .. | .empty .. => []
  | .variable _ _ ds => ds.map .ofDeclarator
  | .function _ _ _ _ body => body.map .ofStatement
  | .exports _ inner => [.ofStatement inner]
  | .expression _ e => [.ofExpression e]
  | .returns _ value => value.toList.map .ofExpression
  | .branch _ condition yes no =>
    .ofExpression condition :: .ofStatement yes :: no.toList.map .ofStatement
  | .whileLoop _ condition body => [.ofExpression condition, .ofStatement body]
  | .forLoop _ start condition update body =>
    start.toList.map .ofStatement ++ (condition.toList.map .ofExpression ++
      (update.toList.map .ofExpression ++ [.ofStatement body]))
  | .block _ ss => ss.map .ofStatement

namespace Part

/-- The parts right inside a part, in the order of a walk. -/
def children : Part → List Inner
  | .statement s => s.children
  | .declarator d => d.initial.toList.map .ofInitial
  | .expression e => e.children.map .ofChild

/-- The part and all parts in it, in the order of a walk. -/
def parts : Part → List Part
  | .statement s => s.parts
  | .declarator d => d.parts
  | .expression e => e.parts

end Part

theorem Statement.partsAll_eq (ss : List Statement) :
    partsAll ss = (ss.map Inner.ofStatement).flatMap (·.part.parts) := by
  induction ss with
  | nil => rfl
  | cons s ss ih =>
    rw [partsAll, ih]
    rfl

theorem Statement.partsOption_eq (s : Option Statement) :
    partsOption s = (s.toList.map Inner.ofStatement).flatMap (·.part.parts) := by
  cases s with
  | none => rfl
  | some s => exact (List.append_nil s.parts).symm

theorem Statement.parts_eq (s : Statement) :
    s.parts = .statement s :: s.children.flatMap (·.part.parts) := by
  cases s <;>
    simp [parts, children, partsAll_eq, partsOption_eq, Expression.partsOption, Part.parts,
      List.flatMap_map, Inner.ofStatement, Inner.ofDeclarator, Inner.ofExpression]

/-- **A part is followed by the parts inside it.** -/
theorem Part.parts_eq (x : Part) : x.parts = x :: x.children.flatMap (·.part.parts) := by
  cases x with
  | statement s => exact s.parts_eq
  | declarator d =>
    simp [parts, Declarator.parts, children, Expression.partsOption, List.flatMap_map,
      Inner.ofInitial]
  | expression e =>
    rw [parts, e.parts_eq, children, List.flatMap_map]
    rfl

theorem Expression.fill_bare (e : Expression) :
    e.bare.fill (e.children.map Child.value) = e := by
  cases e <;> simp [bare, fill, children]

namespace Inner

@[simp] theorem ofStatement_inj {s s' : Statement} : ofStatement s = ofStatement s' ↔ s = s' := by
  simp [ofStatement]

@[simp] theorem ofDeclarator_inj {d d' : Declarator} :
    ofDeclarator d = ofDeclarator d' ↔ d = d' := by
  simp [ofDeclarator]

@[simp] theorem ofExpression_inj {e e' : Expression} :
    ofExpression e = ofExpression e' ↔ e = e' := by
  simp [ofExpression]

@[simp] theorem ofInitial_inj {e e' : Expression} : ofInitial e = ofInitial e' ↔ e = e' := by
  simp [ofInitial]

@[simp] theorem ofChild_inj {c c' : Child} : ofChild c = ofChild c' ↔ c = c' := by
  cases c
  cases c'
  simp [ofChild]

end Inner

section

variable {α β : Type} {o o' : Option α}

theorem toList_inj : o'.toList = o.toList ↔ o' = o := by
  cases o <;> cases o' <;> simp

/-- Options that are the same but for what is in them make lists of one length. -/
theorem length_toList_of_map {b : β} (h : (o'.map fun _ => b) = o.map fun _ => b) :
    o'.toList.length = o.toList.length := by
  cases o <;> cases o' <;> simp_all

end

theorem Statement.eq_of_bare {s s' : Statement} (hbare : s'.bare = s.bare)
    (hchildren : s'.children = s.children) : s' = s := by
  -- statements of two kinds have two bare forms
  cases s <;> cases s' <;> try cases hbare
  case forLoop.forLoop =>
    -- the bare forms say which of the optional parts are there
    simp only [bare, forLoop.injEq] at hbare
    obtain ⟨rfl, hstart, hcondition, hupdate, -⟩ := hbare
    obtain ⟨hstart, hrest⟩ := List.append_inj hchildren
      (by simpa using length_toList_of_map hstart)
    obtain ⟨hcondition, hrest⟩ := List.append_inj hrest
      (by simpa using length_toList_of_map hcondition)
    obtain ⟨hupdate, hbody⟩ := List.append_inj hrest
      (by simpa using length_toList_of_map hupdate)
    simp_all [List.map_inj_right, toList_inj]
  all_goals simp_all [bare, children, List.map_inj_right, toList_inj]

/-- **A part is made up of its bare form and its children.** -/
theorem Part.eq_of_bare {x y : Part} (hbare : y.bare = x.bare) (hchildren : y.children = x.children) :
    y = x := by
  match x, y, hbare with
  | .statement s, .statement s', hbare =>
    exact congrArg Part.statement (Statement.eq_of_bare (Part.statement.inj hbare) hchildren)
  | .declarator ⟨n, name, type, initial⟩, .declarator ⟨n', name', type', initial'⟩, hbare =>
    simp_all [bare, Declarator.bare, children, List.map_inj_right, toList_inj]
  | .expression e, .expression e', hbare =>
    have hvalues : e'.children.map Child.value = e.children.map Child.value := by
      simp_all [children, List.map_inj_right]
    rw [← e.fill_bare, ← e'.fill_bare, Part.expression.inj hbare, hvalues]

namespace Program

/-- The parts of a program, in the order of a walk. -/
def parts (p : Program) : List Part := Statement.partsAll p.statements

/-- All expressions of a program, each before those inside it, in the order of a walk. -/
def expressions (p : Program) : List Expression := p.parts.filterMap Part.expression?

/-- The identities of a program and of all its parts. -/
def ids (p : Program) : List UInt32 := p.node.id :: p.parts.map Part.id

end Program

end DecimalLift
