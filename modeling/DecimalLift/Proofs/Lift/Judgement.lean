import DecimalLift.Proofs.Lift.Policy
import DecimalLift.Proofs.Lift.Stable

/-!
# Lifting as a judgement

Lifting an operand builds nodes and may fail halfway. Whether it succeeds, what it returns and what
it complains about can be read off the operand alone.

* `Expression.isSolid` — numbers and calls, the operands that arithmetic can be built on.
* `Expression.operands` — the operands of nested arithmetic, from left to right.
* `obstacle?_eq_find?` — the obstacle is the first operand that is not solid.
* `Lifts.lift_again` — what was lifted is lifted to itself.
* `judges_lift` — lifting succeeds exactly on the operands that can be lifted, and what it returns
  or reports.
-/

set_option autoImplicit false

namespace DecimalLift

namespace Expression

/-- Whether an expression is a number or a call. -/
def isSolid : Expression → Bool
  | .number .. | .call .. => true
  | _ => false

/-- The operands that are reached through arithmetic with a method only, from left to right. An
expression that is no such arithmetic is its own operand. -/
def operands (rules : Rules) : Expression → List Expression
  | .binary n op left right =>
    if (rules.method? op).isSome then left.operands rules ++ right.operands rules
    else [.binary n op left right]
  | e => [e]

variable {rules : Rules}

/-- Arithmetic with a method is not among the operands: its own operands are. -/
theorem not_mapped_of_mem_operands : ∀ {e x : Expression}, x ∈ e.operands rules →
    x.isMapped rules = false
  | .binary n op left right, x, hx => by
    unfold operands at hx
    cases hmethod : (rules.method? op).isSome with
    | true =>
      rw [if_pos hmethod, List.mem_append] at hx
      rcases hx with hx | hx
      · exact not_mapped_of_mem_operands hx
      · exact not_mapped_of_mem_operands hx
    | false =>
      simp only [hmethod, Bool.false_eq_true, if_false, List.mem_singleton] at hx
      subst hx
      exact hmethod
  | .number .., x, hx | .string .., x, hx | .boolean .., x, hx | .null .., x, hx
  | .identifier .., x, hx | .unary .., x, hx | .call .., x, hx | .construct .., x, hx
  | .member .., x, hx | .index .., x, hx | .conditional .., x, hx | .array .., x, hx => by
    obtain rfl := List.mem_singleton.1 hx
    rfl

/-- **The obstacle is the first operand that is neither a number nor a call.** -/
theorem obstacle?_eq_find? : ∀ e : Expression,
    e.obstacle? rules =
      ((e.operands rules).find? (!·.isSolid)).map fun x => ⟨x.kindName, x.span.start⟩
  | .binary n op left right => by
    unfold obstacle? operands
    cases hmethod : (rules.method? op).isSome with
    | true =>
      simp only [if_true, List.find?_append]
      rw [obstacle?_eq_find? left, obstacle?_eq_find? right]
      cases (left.operands rules).find? (!·.isSolid) <;> rfl
    | false => rfl
  | .number .. | .string .. | .boolean .. | .null .. | .identifier .. | .unary .. | .call ..
  | .construct .. | .member .. | .index .. | .conditional .. | .array .. => rfl

end Expression

variable {rules : Rules}

/-- A number, or a call that no rule takes over, stays and takes no id. -/
theorem lift_of_solid {e : Expression} (hsolid : e.isSolid = true) (hfate : e.fate rules = .kept)
    (next : UInt32) : e.lift rules next = .ok .kept next := by
  cases e with
  | number => rfl
  | call n callee arguments =>
    have houtcome : LiftOutcome rules (.call n callee arguments) next := liftOutcome _ next
    cases houtcome with
    | kept _ h => exact h
    | replaced h => rw [hfate] at h; cases h
    | refused h => rw [hfate] at h; cases h
  | _ => cases hsolid

theorem Lifts.isSolid {e r : Expression} (h : Lifts rules e r) : r.isSolid = true := by
  cases h <;> rfl

/-- **What was lifted is lifted to itself.** -/
theorem Lifts.lift_again (hscopes : ∀ c ∈ rules.calls, c.scope ≠ rules.typeName)
    {e r : Expression} (h : Lifts rules e r) (next : UInt32) :
    r.lift rules next = .ok .kept next := by
  refine lift_of_solid h.isSolid ?_ next
  cases h with
  | number | binary => rfl
  | call_kept htarget => simp [Expression.fate, htarget]
  | call => simp [Expression.fate, Rules.targetOf?_typeName hscopes]

/-- What lifting an operand says about it, for every next id. -/
structure Judges (rules : Rules) (e : Expression) (next : UInt32) : Prop where
  /-- It succeeds exactly if the operand can be lifted. -/
  succeeds : (∃ l next', e.lift rules next = .ok l next') ↔ e.liftable rules = true
  /-- It returns a number or a call. -/
  solid : ∀ l next', e.lift rules next = .ok l next' → (l.result e).isSolid = true
  /-- A number stays, and so does a call that no rule takes over. Neither takes an id. -/
  kept : ∀ l next', e.lift rules next = .ok l next' →
    (∃ n raw, e = .number n raw) ∨
      (∃ n callee arguments, e = .call n callee arguments ∧ rules.targetOf? callee = none) →
    l = .kept ∧ next' = next
  /-- What it returns is lifted to itself, if no rule takes over calls of the decimal type. -/
  again : (∀ c ∈ rules.calls, c.scope ≠ rules.typeName) →
    ∀ l next', e.lift rules next = .ok l next' →
      ∀ later, (l.result e).lift rules later = .ok .kept later
  /-- It complains about the leftmost operand that is neither a number nor a call. -/
  fails : ∀ u next', e.lift rules next = .error u next' →
    ∃ x, (e.operands rules).find? (!·.isSolid) = some x ∧ x.isMapped rules = false ∧
      u = ⟨x.kindName, x.span.start⟩

/-- **Lifting is the judgement whether an operand can be lifted.** -/
theorem judges_lift (rules : Rules) (e : Expression) (next : UInt32) : Judges rules e next where
  succeeds := by
    constructor
    · rintro ⟨l, next', h⟩
      exact (lifts_of_lift h).liftable
    · exact lift_of_liftable next
  solid := fun l next' h => (lifts_of_lift h).isSolid
  kept := by
    intro l next' h hkept
    have hstay : e.lift rules next = .ok .kept next := by
      rcases hkept with ⟨n, raw, rfl⟩ | ⟨n, callee, arguments, rfl, htarget⟩
      · rfl
      · exact lift_of_solid rfl (by simp [Expression.fate, htarget]) next
    rw [h] at hstay
    cases hstay
    exact ⟨rfl, rfl⟩
  again := fun hscopes l next' h => (lifts_of_lift h).lift_again hscopes
  fails := by
    intro u next' h
    have hobstacle := Expression.obstacle?_of_lift h
    rw [Expression.obstacle?_eq_find?, Option.map_eq_some_iff] at hobstacle
    obtain ⟨x, hx, rfl⟩ := hobstacle
    exact ⟨x, hx, Expression.not_mapped_of_mem_operands (List.mem_of_find?_eq_some hx), rfl⟩

end DecimalLift
