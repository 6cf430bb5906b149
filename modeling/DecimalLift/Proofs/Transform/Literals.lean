import DecimalLift.Proofs.Transform.Identity

/-!
# Literals survive a transformation

Operands are moved into new expressions, some of them several times over, and calls are given new
callees. The literals are all there afterwards, each with its node and its spelling, and in the
order in which they were written.

* `Program.literals` — the literals of a program from left to right.
* `Lifts.literals_eq`, `Walk.Visits.literals_eq` — lifting and walking keep the literals.
* `Program.literals_transform` — a transformation keeps them.
-/

set_option autoImplicit false

namespace DecimalLift

/-- Whether an expression is a number, a string, a boolean or null. -/
def Expression.isLiteral : Expression → Bool
  | .number .. | .string .. | .boolean .. | .null .. => true
  | _ => false

namespace Part

def literal? (x : Part) : Option Expression := x.expression?.filter Expression.isLiteral

/-- The literals of a part, from left to right. -/
def literals (x : Part) : List Expression := x.parts.filterMap literal?

theorem literal?_bare (x : Part) : x.bare.literal? = x.literal? := by
  cases x with
  | statement s => rfl
  | declarator d => rfl
  | expression e => cases e <;> rfl

theorem literals_eq (x : Part) :
    x.literals = x.literal?.toList ++ x.children.flatMap (·.part.literals) := by
  unfold literals
  rw [x.parts_eq, List.filterMap_cons, List.filterMap_flatMap]
  cases x.literal? <;> rfl

/-- An expression that is no literal has the literals of its children. -/
theorem literals_of_not_literal {e : Expression} (h : e.isLiteral = false) :
    (Part.expression e).literals =
      e.children.flatMap fun c => (Part.expression c.value).literals := by
  have hnone : (Part.expression e).literal? = none := by
    simp [literal?, expression?, h]
  rw [literals_eq, hnone, children, List.flatMap_map]
  rfl

section

variable (n : Node) (e e' : Expression) (es : List Expression) (name : String)

@[simp] theorem literals_identifier : (Part.expression (.identifier n name)).literals = [] := rfl

@[simp] theorem literals_binary (op : BinaryOp) :
    (Part.expression (.binary n op e e')).literals =
      (Part.expression e).literals ++ (Part.expression e').literals := by
  rw [literals_of_not_literal rfl]
  simp [Expression.children]

@[simp] theorem literals_call :
    (Part.expression (.call n e es)).literals =
      (Part.expression e).literals ++ es.flatMap fun x => (Part.expression x).literals := by
  rw [literals_of_not_literal rfl]
  simp [Expression.children, List.flatMap_map]

@[simp] theorem literals_construct :
    (Part.expression (.construct n e es)).literals =
      (Part.expression e).literals ++ es.flatMap fun x => (Part.expression x).literals := by
  rw [literals_of_not_literal rfl]
  simp [Expression.children, List.flatMap_map]

@[simp] theorem literals_member :
    (Part.expression (.member n e name)).literals = (Part.expression e).literals := by
  rw [literals_of_not_literal rfl]
  simp [Expression.children]

end

/-- A part that changes only in what is inside it keeps its literals if its children do. -/
theorem literals_of_bare {x y : Part} (hbare : y.bare = x.bare)
    (hchildren : y.children.flatMap (·.part.literals) = x.children.flatMap (·.part.literals)) :
    y.literals = x.literals := by
  rw [y.literals_eq, x.literals_eq, hchildren, ← y.literal?_bare, hbare, x.literal?_bare]

end Part

/-- The literals of a program, from left to right. -/
def Program.literals (p : Program) : List Expression := p.parts.filterMap Part.literal?

/-! ## Lifting -/

/-- **Lifting keeps the literals**: a callee that is given up has none, and a new one neither. -/
theorem Lifts.literals_eq {rules : Rules} {e r : Expression} (h : Lifts rules e r) :
    (Part.expression r).literals = (Part.expression e).literals := by
  induction h with
  | number | call_kept => rfl
  | call htarget =>
    obtain ⟨n, m, scope, method, rfl, -⟩ := exists_of_targetOf? htarget
    simp
  | binary _ _ _ ihleft ihright =>
    -- the operands are all that is left of the arithmetic, and they stand in the same order
    simp [ihleft, ihright]

namespace Walk

variable {config : Config}

theorem Keeps.literals_eq {held : Bool} {x r : Part} {s s' : WalkState}
    (h : Keeps config held s s' x r) : r.literals = x.literals := by
  cases h with
  | rests => rfl
  | lifted _ hlift _ => exact (lifts_of_liftNode hlift).literals_eq

mutual

/-- **The walk of a part keeps its literals.** -/
theorem Visits.literals_eq {held : Bool} {x y : Part} {s s' : WalkState} :
    Visits config held x y s s' → y.literals = x.literals
  | .mk hkeeps hbare hchildren =>
    (Part.literals_of_bare hbare hchildren.literals_eq).trans hkeeps.literals_eq

theorem VisitsAll.literals_eq {cs ds : List Inner} {s s' : WalkState} :
    VisitsAll config cs ds s s' →
      ds.flatMap (·.part.literals) = cs.flatMap (·.part.literals)
  | .nil => rfl
  | .cons h hrest => by
    rw [List.flatMap_cons, List.flatMap_cons, h.literals_eq, hrest.literals_eq]

end

end Walk

namespace Program

variable {config : Config} {p p' : Program} {report : TransformReport}

theorem filterMap_literal?_partsAll (ss : List Statement) :
    (Statement.partsAll ss).filterMap Part.literal? =
      (ss.map Inner.ofStatement).flatMap (·.part.literals) := by
  rw [Statement.partsAll_eq, List.filterMap_flatMap]
  rfl

/-- An import has no literals of its own. -/
theorem Adds.literals_eq {rules : Rules} {nextId : UInt32} {k : Nat} {added : List Statement}
    (h : Adds rules nextId added k) :
    (Statement.partsAll added).filterMap Part.literal? = [] := by
  cases h with
  | nothing => rfl
  | declaration => rfl

/-- **No literal is rounded, lost, doubled or moved**, whatever the rules and the policy. -/
theorem literals_transform (h : p.transform config = .ok (p', report)) :
    p'.literals = p.literals := by
  obtain ⟨added, k, ss, s', hadds, -, hwalk, rfl⟩ := exists_of_transform h
  have hvisits := (Walk.visits_statements hwalk).literals_eq
  rw [← filterMap_literal?_partsAll, ← filterMap_literal?_partsAll, Statement.partsAll_append,
    List.filterMap_append, hadds.literals_eq] at hvisits
  exact hvisits

/-- Rules that no check would pass: the type is `Math`, one operator has two methods, and one of
them is no name. -/
def wayward : Config where
  rules :=
    { Rules.standard with
      typeName := "Math"
      operators := [⟨.add, ""⟩, ⟨.add, "plus"⟩, ⟨.mul, "sin"⟩] }
  policy := .passthrough

/-- A module with literals of every kind, inside and outside of what is lifted. -/
def medley : String :=
  "const x = 1.50 + Math.sin(0x2 * 3e-1, 'a', true)\nf(null, [.1 + .2], 7 - -0.5, 'b' + 8)"

theorem literals_transform_medley :
    ∃ p p' report, Program.parse medley "m.ts" = .ok p ∧
      p.transform wayward = .ok (p', report) ∧ report = ⟨.added, ⟨3, 1, 1⟩⟩ ∧
      p.literals.map Expression.render =
        ["1.50", "0x2", "3e-1", "'a'", "true", "null", ".1", ".2", "7", "0.5", "'b'", "8"] ∧
      p'.literals = p.literals := by
  have hread : (Program.parse medley "m.ts").toOption.any (fun p =>
      decide (p.literals.map Expression.render =
        ["1.50", "0x2", "3e-1", "'a'", "true", "null", ".1", ".2", "7", "0.5", "'b'", "8"]) &&
        (p.transform wayward).toOption.any
          fun r => decide (r.2 = ⟨.added, ⟨3, 1, 1⟩⟩)) = true := by
    decide +kernel
  cases hp : Program.parse medley "m.ts" with
  | error e =>
    rw [hp] at hread
    cases hread
  | ok p =>
    rw [hp] at hread
    obtain ⟨htexts, hdone⟩ := Bool.and_eq_true_iff.1 hread
    cases h : p.transform wayward with
    | error e =>
      rw [h] at hdone
      cases hdone
    | ok r =>
      rw [h] at hdone
      exact ⟨p, r.1, r.2, rfl, h, of_decide_eq_true hdone, of_decide_eq_true htexts,
        literals_transform h⟩

end Program

end DecimalLift
