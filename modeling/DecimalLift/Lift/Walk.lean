import DecimalLift.Lift.Weight

/-!
# Walking a program

A walk (`TreeWalker`) visits every expression of a program from the outside in. It lifts what the
rules name, keeps the result where the expression stands in a `Slot` (`ParentSlot`), and goes on
into whatever it kept. In all other places a result is dropped.

* `WalkState` — the next id and the counts so far (`WalkStats`). A failure hands them on too.
* `Walk.expression` (`walk_expression`, `try_rewrite`, `walk_children`) — the walk of an expression.
  It goes on into lifted trees, so it ends because their weight is bounded by that of the
  expressions they replace.
* `Walk.program` (`walk_program`) — the walk of a program.
-/

set_option autoImplicit false

namespace DecimalLift

/-- Places where an expression may be replaced. -/
inductive Slot where
  | initial
  /-- An argument of a call, by its position. -/
  | argument (position : Nat)
  deriving DecidableEq, Repr

/-- What a walk has done. A visit adds one to one count at most, and no run makes so many visits
that the counts of the program, words of 64 bits, would not hold them. -/
structure WalkCounts where
  /-- Lifted expressions put into the tree. -/
  attached : Nat
  /-- Lifted expressions dropped because they stood in no slot. -/
  dropped : Nat
  /-- Arithmetic left alone because an operand could not be lifted. -/
  left : Nat
  deriving DecidableEq, Repr

structure WalkState where
  nextId : UInt32
  counts : WalkCounts
  deriving DecidableEq, Repr

def WalkState.start (nextId : UInt32) : WalkState := ⟨nextId, ⟨0, 0, 0⟩⟩

abbrev Walk := EStateM Unsupported WalkState

namespace Walk

/-- An expression that weighs no more than `e`. -/
abbrev Bounded (e : Expression) := { r : Expression // r.weight ≤ e.weight }

/-- The lifted form of arithmetic or a call that the rules name. Where an operand cannot be
lifted, the policy decides between a failure and leaving the arithmetic alone. -/
def attempt (config : Config) (e : Expression) : Walk (Option (Bounded e)) := fun s =>
  match h : e.liftNode config.rules s.nextId with
  | .ok .kept next => .ok none { s with nextId := next }
  | .ok (.replaced r) next =>
    .ok (some ⟨r, Expression.weight_liftNode_le h⟩) { s with nextId := next }
  | .error u next =>
    match config.policy with
    | .strict => .error u { s with nextId := next }
    | .passthrough =>
      .ok none ⟨next, { s.counts with left := s.counts.left + 1 }⟩

/-- The expression that stands in the place of `e`: its lifted form if there is one and `slot` is a
slot, else `e` itself. -/
def retain (config : Config) (e : Expression) (slot : Option Slot) : Walk (Bounded e) := do
  match ← attempt config e, slot with
  | some r, some _ =>
    modify fun s => { s with counts := { s.counts with attached := s.counts.attached + 1 } }
    return r
  | some _, none =>
    modify fun s => { s with counts := { s.counts with dropped := s.counts.dropped + 1 } }
    return ⟨e, Nat.le_refl _⟩
  | none, _ => return ⟨e, Nat.le_refl _⟩

mutual

/-- The walk of an expression that stands in `slot`. -/
def expression (config : Config) (e : Expression) (slot : Option Slot) : Walk Expression := do
  match ← retain config e slot with
  | ⟨.number n raw, _⟩ => return .number n raw
  | ⟨.string n value quote raw, _⟩ => return .string n value quote raw
  | ⟨.boolean n value, _⟩ => return .boolean n value
  | ⟨.null n, _⟩ => return .null n
  | ⟨.identifier n name, _⟩ => return .identifier n name
  | ⟨.binary n op left right, _⟩ =>
    let left ← expression config left none
    let right ← expression config right none
    return .binary n op left right
  | ⟨.unary n op operand, _⟩ =>
    let operand ← expression config operand none
    return .unary n op operand
  | ⟨.call n callee arguments, _⟩ =>
    let callee ← expression config callee none
    let arguments ← expressions config true 0 arguments
    return .call n callee arguments
  | ⟨.construct n callee arguments, _⟩ =>
    let callee ← expression config callee none
    let arguments ← expressions config false 0 arguments
    return .construct n callee arguments
  | ⟨.member n object property, _⟩ =>
    let object ← expression config object none
    return .member n object property
  | ⟨.index n object position, _⟩ =>
    let object ← expression config object none
    let position ← expression config position none
    return .index n object position
  | ⟨.conditional n condition yes no, _⟩ =>
    let condition ← expression config condition none
    let yes ← expression config yes none
    let no ← expression config no none
    return .conditional n condition yes no
  | ⟨.array n elements, _⟩ =>
    let elements ← expressions config false 0 elements
    return .array n elements
termination_by e.weight
decreasing_by all_goals
  simp only [Expression.weight] at *
  omega

/-- The walk of several expressions; `slots` says whether they stand in slots, the first one in
that of position `i`. -/
def expressions (config : Config) (slots : Bool) (i : Nat) (es : List Expression) :
    Walk (List Expression) := do
  match es with
  | [] => return []
  | e :: es =>
    let first ← expression config e (if slots then some (.argument i) else none)
    let rest ← expressions config slots (i + 1) es
    return first :: rest
termination_by Expression.listWeight es
decreasing_by
  · have := Expression.listWeight_pos es
    simp only [Expression.listWeight]
    omega
  · have := Expression.weight_pos e
    simp only [Expression.listWeight]
    omega

end

/-- The walk of an expression that may be missing and stands in no slot. -/
def expression? (config : Config) : Option Expression → Walk (Option Expression)
  | some e => do return some (← expression config e none)
  | none => return none

/-- The initial value of a variable stands in a slot. -/
def declarator (config : Config) (d : Declarator) : Walk Declarator := do
  match d.initial with
  | some e => return { d with initial := some (← expression config e (some .initial)) }
  | none => return d

def declarators (config : Config) : List Declarator → Walk (List Declarator)
  | [] => return []
  | d :: ds => do
    let first ← declarator config d
    let rest ← declarators config ds
    return first :: rest

mutual

def statement (config : Config) : Statement → Walk Statement
  | .imports n d => return .imports n d
  | .variable n word ds => do
    let ds ← declarators config ds
    return .variable n word ds
  | .function n name parameters result body => do
    let body ← statements config body
    return .function n name parameters result body
  | .exports n inner => do
    let inner ← statement config inner
    return .exports n inner
  | .expression n e => do
    let e ← expression config e none
    return .expression n e
  | .returns n value => do
    let value ← expression? config value
    return .returns n value
  | .branch n condition yes no => do
    let condition ← expression config condition none
    let yes ← statement config yes
    let no ← statement? config no
    return .branch n condition yes no
  | .whileLoop n condition body => do
    let condition ← expression config condition none
    let body ← statement config body
    return .whileLoop n condition body
  | .forLoop n start condition update body => do
    let start ← statement? config start
    let condition ← expression? config condition
    let update ← expression? config update
    let body ← statement config body
    return .forLoop n start condition update body
  | .block n inner => do
    let inner ← statements config inner
    return .block n inner
  | .empty n => return .empty n

def statement? (config : Config) : Option Statement → Walk (Option Statement)
  | some s => do
    let s ← statement config s
    return some s
  | none => return none

def statements (config : Config) : List Statement → Walk (List Statement)
  | [] => return []
  | s :: ss => do
    let first ← statement config s
    let rest ← statements config ss
    return first :: rest

end

/-- The walk of a program. Its next id stays: the walk's own state knows what was used. -/
def program (config : Config) (p : Program) : Walk Program := do
  let statements ← statements config p.statements
  return { p with statements := statements }

end Walk

end DecimalLift
