import DecimalLift.Lift

/-!
# A weight that lifting does not increase

A lifted expression is a larger tree than the one it replaces, and a walk goes on into it. The
weight of an expression bounds such a walk: every part weighs less than the whole, and arithmetic
weighs as much as the method call that it becomes.

* `Expression.weight_lift_le` — lifting an operand does not increase its weight.
* `Expression.weight_liftNode_le` — nor does lifting arithmetic or a call on its own.
-/

set_option autoImplicit false

namespace DecimalLift.Expression

mutual

def weight : Expression → Nat
  | .number .. => 1
  | .string .. => 1
  | .boolean .. => 1
  | .null .. => 1
  | .identifier .. => 1
  | .binary _ _ left right => 6 + left.weight + right.weight
  | .unary _ _ operand => 1 + operand.weight
  | .call _ callee arguments => 1 + callee.weight + listWeight arguments
  | .construct _ callee arguments => 1 + callee.weight + listWeight arguments
  | .member _ object _ => 1 + object.weight
  | .index _ object position => 1 + object.weight + position.weight
  | .conditional _ condition yes no => 1 + condition.weight + yes.weight + no.weight
  | .array _ elements => 1 + listWeight elements

/-- The weight of several expressions together, one more than the sum of theirs. -/
def listWeight : List Expression → Nat
  | [] => 1
  | e :: es => e.weight + listWeight es

end

theorem weight_pos (e : Expression) : 0 < e.weight := by
  cases e <;> simp only [weight] <;> omega

theorem listWeight_pos : ∀ es : List Expression, 0 < listWeight es
  | [] => by simp [listWeight]
  | e :: es => by
    have := weight_pos e
    simp only [listWeight]
    omega

/-- The callee of a scoped method is a name and a member. -/
theorem weight_of_scopedMethod? {callee : Expression} {target : String × String}
    (h : callee.scopedMethod? = some target) : callee.weight = 2 := by
  match callee, h with
  | .member _ object _, h =>
    match object, h with
    | .identifier .., _ => simp only [weight]

/-- Lifting a call does not increase its weight. -/
theorem weight_liftCall_le {rules : Rules} {e : Expression} {l : Lifted} {next next' : UInt32}
    (h : liftCall rules e next = .ok l next') : (l.result e).weight ≤ e.weight := by
  unfold liftCall at h
  split at h
  · rename_i n callee arguments
    cases hs : callee.scopedMethod? with
    | none =>
      simp only [hs, Option.bind_none] at h
      cases h
      exact Nat.le_refl _
    | some found =>
      obtain ⟨scope, method⟩ := found
      have hc := weight_of_scopedMethod? hs
      simp only [hs, Option.bind_some] at h
      cases ht : rules.target? scope method with
      | none =>
        simp only [ht] at h
        cases h
        exact Nat.le_refl _
      | some target =>
        simp only [ht] at h
        cases h
        simp only [Lifted.result, weight, hc]
        omega
  · cases h
    exact Nat.le_refl _

/-- Lifting an operand does not increase its weight. -/
theorem weight_lift_le {rules : Rules} : ∀ {e : Expression} {l : Lifted} {next next' : UInt32},
    lift rules e next = .ok l next' → (l.result e).weight ≤ e.weight
  | .number .., _, _, _, h => by cases h; exact Nat.le_refl _
  | .call .., _, _, _, h => weight_liftCall_le h
  | .binary n op left right, l, next, next', h => by
    simp only [lift] at h
    cases hm : rules.method? op with
    | none => simp only [hm] at h; cases h
    | some method =>
      simp only [hm, bind, EStateM.bind] at h
      split at h
      · rename_i ll s1 hl
        have hwl := weight_lift_le hl
        split at h
        · rename_i lr s2 hr
          have hwr := weight_lift_le hr
          cases h
          simp only [Lifted.result, weight, listWeight] at hwl hwr ⊢
          omega
        · cases h
      · cases h
  | .string .., _, _, _, h => by cases h
  | .boolean .., _, _, _, h => by cases h
  | .null .., _, _, _, h => by cases h
  | .identifier .., _, _, _, h => by cases h
  | .unary .., _, _, _, h => by cases h
  | .construct .., _, _, _, h => by cases h
  | .member .., _, _, _, h => by cases h
  | .index .., _, _, _, h => by cases h
  | .conditional .., _, _, _, h => by cases h
  | .array .., _, _, _, h => by cases h

/-- Lifting arithmetic or a call does not increase its weight. -/
theorem weight_liftNode_le {rules : Rules} {e : Expression} {l : Lifted} {next next' : UInt32}
    (h : liftNode rules e next = .ok l next') : (l.result e).weight ≤ e.weight := by
  match e, h with
  | .binary n op left right, h =>
    simp only [liftNode, liftBinary] at h
    split at h
    · exact weight_lift_le h
    · cases h
      exact Nat.le_refl _
  | .call .., h => exact weight_liftCall_le h
  | .number .., h => cases h; exact Nat.le_refl _
  | .string .., h => cases h; exact Nat.le_refl _
  | .boolean .., h => cases h; exact Nat.le_refl _
  | .null .., h => cases h; exact Nat.le_refl _
  | .identifier .., h => cases h; exact Nat.le_refl _
  | .unary .., h => cases h; exact Nat.le_refl _
  | .construct .., h => cases h; exact Nat.le_refl _
  | .member .., h => cases h; exact Nat.le_refl _
  | .index .., h => cases h; exact Nat.le_refl _
  | .conditional .., h => cases h; exact Nat.le_refl _
  | .array .., h => cases h; exact Nat.le_refl _

end DecimalLift.Expression
