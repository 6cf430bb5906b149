import Mathlib.Algebra.Ring.Nat
import DecimalLift.Proofs.Lift.BottomUp
import DecimalLift.Proofs.Lift.Visits

/-!
# How many ids a walk draws

A walk draws ids wherever it tries to lift, also where it drops the result or cannot finish it. It
goes on into what it keeps, and tries again there. How many ids it draws depends on the tree and the
rules alone.

* `Part.idsToWalk`, `idsToWalkAll` — how many ids the walk of a part and of several parts draws.
* `Part.idsToWalk_unnumbered` — the ids that a tree has play no part in it.
* `Walk.Visits.next_eq` — the counter goes on by as many.
-/

set_option autoImplicit false

namespace DecimalLift

variable {rules : Rules}

/-! ## What is kept -/

namespace Expression

theorem weight_liftOf_le : ∀ e : Expression, (e.liftOf rules).weight ≤ e.weight
  | .binary n op left right => by
    have hleft := weight_liftOf_le left
    have hright := weight_liftOf_le right
    cases hmethod : rules.method? op with
    | none => simp only [liftOf, hmethod, Nat.le_refl]
    | some method =>
      simp only [liftOf, hmethod, weight, listWeight]
      omega
  | .call n callee arguments => by
    cases htarget : rules.targetOf? callee with
    | none => simp only [liftOf, htarget, Nat.le_refl]
    | some target =>
      obtain ⟨_, _, scope, method, rfl, -⟩ := exists_of_targetOf? htarget
      simp only [liftOf, htarget, weight, Nat.le_refl]
  | .number .. | .string .. | .boolean .. | .null .. | .identifier .. | .unary .. | .construct ..
  | .member .. | .index .. | .conditional .. | .array .. => Nat.le_refl _

theorem weight_rewritten_le (e : Expression) : (e.rewritten rules).weight ≤ e.weight := by
  unfold rewritten
  split
  · exact weight_liftOf_le e
  · exact Nat.le_refl _

end Expression

namespace Part

/-- What a walk keeps in the place of a part, up to ids; `held` says whether it stands in a slot. -/
def kept (rules : Rules) (held : Bool) : Part → Part
  | .expression e => .expression (if held then e.rewritten rules else e)
  | x => x

/-- What a part counts for in the weight of a statement or a declarator that it is in. -/
def ownWeight : Part → Nat
  | .expression e => e.weight
  | _ => 1

/-- A weight that does not grow where a part is lifted, and that is less for the parts inside it. -/
def weight : Part → Nat
  | .expression e => e.weight
  | x => (x.parts.map ownWeight).sum

theorem weight_kept_le (held : Bool) (x : Part) : (x.kept rules held).weight ≤ x.weight := by
  cases x with
  | expression e =>
    cases held with
    | true => exact e.weight_rewritten_le
    | false => exact Nat.le_refl _
  | _ => exact Nat.le_refl _

theorem weight_le_sum (x : Part) : x.weight ≤ (x.parts.map ownWeight).sum := by
  cases x with
  | expression e =>
    rw [parts_eq, List.map_cons, List.sum_cons]
    exact Nat.le_add_right _ _
  | _ => exact Nat.le_refl _

theorem weight_child_lt {x : Part} {c : Inner} (h : c ∈ x.children) : c.part.weight < x.weight := by
  have hinside : c.part.weight ≤ ((x.children.flatMap (·.part.parts)).map ownWeight).sum := by
    obtain ⟨before, after, hsplit⟩ := List.append_of_mem h
    have hle := c.part.weight_le_sum
    rw [hsplit]
    simp only [List.flatMap_append, List.flatMap_cons, List.map_append, List.sum_append]
    omega
  have hsum : (x.parts.map ownWeight).sum =
      x.ownWeight + ((x.children.flatMap (·.part.parts)).map ownWeight).sum := by
    rw [parts_eq, List.map_cons, List.sum_cons]
  cases x with
  | expression e =>
    obtain ⟨child, hchild, rfl⟩ := List.mem_map.1 h
    exact Expression.weight_child_lt hchild
  | statement s =>
    have hone : (Part.statement s).ownWeight = 1 := rfl
    show _ < ((Part.statement s).parts.map ownWeight).sum
    omega
  | declarator d =>
    have hone : (Part.declarator d).ownWeight = 1 := rfl
    show _ < ((Part.declarator d).parts.map ownWeight).sum
    omega

/-- How many ids the walk of a part draws; `held` says whether it stands in a slot. -/
def idsToWalk (rules : Rules) (held : Bool) (x : Part) : Nat :=
  x.idsToLift rules +
    ((x.kept rules held).children.attach.map fun c => c.1.part.idsToWalk rules c.1.held).sum
termination_by x.weight
decreasing_by exact Nat.lt_of_lt_of_le (weight_child_lt c.2) (weight_kept_le held x)

end Part

/-- How many ids the walk of several parts draws. -/
def idsToWalkAll (rules : Rules) (cs : List Inner) : Nat :=
  (cs.map fun c => c.part.idsToWalk rules c.held).sum

/-- How many ids the walk of a program draws. -/
def Program.idsToWalk (rules : Rules) (p : Program) : Nat :=
  idsToWalkAll rules (p.statements.map .ofStatement)

@[simp] theorem idsToWalkAll_cons (c : Inner) (cs : List Inner) :
    idsToWalkAll rules (c :: cs) = c.part.idsToWalk rules c.held + idsToWalkAll rules cs := by
  rw [idsToWalkAll, List.map_cons, List.sum_cons]
  rfl

theorem Part.idsToWalk_eq (held : Bool) (x : Part) :
    x.idsToWalk rules held =
      x.idsToLift rules + idsToWalkAll rules (x.kept rules held).children := by
  rw [idsToWalk, idsToWalkAll,
    List.attach_map_val (f := fun c : Inner => c.part.idsToWalk rules c.held)]

/-! ## Ids play no part -/

namespace Expression

theorem children_relabel (k : Relabel) (e : Expression) :
    (e.relabel k).children = e.children.map fun c => ⟨c.held, c.value.relabel k⟩ := by
  cases e <;> simp [relabel, children, relabelAll_eq_map]

theorem idsToLift_relabel (k : Relabel) :
    ∀ e : Expression, (e.relabel k).idsToLift rules = e.idsToLift rules
  | .binary _ op left right => by
    simp only [relabel, idsToLift, idsToLift_relabel k left, idsToLift_relabel k right,
      liftable_relabel]
  | .call _ callee _ => by
    simp only [relabel, idsToLift, Rules.targetOf?_congr (scopedMethod?_relabel k callee)]
  | .number .. | .string .. | .boolean .. | .null .. | .identifier .. | .unary .. | .construct ..
  | .member .. | .index .. | .conditional .. | .array .. => by simp only [relabel, idsToLift]

end Expression

/-- The children without their ids are the children of the expression without its ids. -/
theorem idsToWalkAll_unnumbered_of {r : Expression}
    (h : ∀ c ∈ r.children, (Part.expression c.value.unnumbered).idsToWalk rules c.held =
      (Part.expression c.value).idsToWalk rules c.held) :
    idsToWalkAll rules (Part.expression r.unnumbered).children =
      idsToWalkAll rules (Part.expression r).children := by
  show (((r.relabel .unnumber).children.map Inner.ofChild).map fun c : Inner =>
      c.part.idsToWalk rules c.held).sum =
    ((r.children.map Inner.ofChild).map fun c : Inner => c.part.idsToWalk rules c.held).sum
  rw [Expression.children_relabel, List.map_map, List.map_map, List.map_map]
  exact congrArg List.sum (List.map_congr_left h)

/-- **The ids that a tree has play no part in how many are drawn.** -/
theorem Part.idsToWalk_unnumbered (e : Expression) : ∀ held : Bool,
    (Part.expression e.unnumbered).idsToWalk rules held =
      (Part.expression e).idsToWalk rules held := by
  induction e using Expression.weight_induction with
  | _ e ih =>
    intro held
    have hkept : ∃ r : Expression, r.weight ≤ e.weight ∧
        (Part.expression e).kept rules held = .expression r ∧
        (Part.expression e.unnumbered).kept rules held = .expression r.unnumbered := by
      cases held with
      | true =>
        refine ⟨e.rewritten rules, e.weight_rewritten_le, rfl, ?_⟩
        rw [Expression.unnumbered_rewritten]
        rfl
      | false => exact ⟨e, Nat.le_refl _, rfl, rfl⟩
    obtain ⟨r, hr, hkept, hkept'⟩ := hkept
    have hlift : (Part.expression e.unnumbered).idsToLift rules =
        (Part.expression e).idsToLift rules := e.idsToLift_relabel .unnumber
    rw [idsToWalk_eq, idsToWalk_eq, hlift, hkept, hkept',
      idsToWalkAll_unnumbered_of fun c hc => ih r hr c hc c.held]

theorem idsToWalkAll_congr {r r' : Expression} (h : r.unnumbered = r'.unnumbered) :
    idsToWalkAll rules (Part.expression r).children =
      idsToWalkAll rules (Part.expression r').children := by
  rw [← idsToWalkAll_unnumbered_of fun c _ => Part.idsToWalk_unnumbered c.value c.held, h,
    idsToWalkAll_unnumbered_of fun c _ => Part.idsToWalk_unnumbered c.value c.held]

/-! ## The counter of a walk -/

namespace Walk

variable {config : Config} {s s' : WalkState}

theorem Keeps.next_eq {held : Bool} {x r : Part} (h : Keeps config held s s' x r) :
    s'.nextId = s.nextId + .ofNat (x.idsToLift config.rules) := by
  cases h with
  | rests _ hnext _ => exact hnext
  | lifted _ hlift _ => exact (ids_of_liftNode hlift).1

/-- What is kept is what was to be expected, up to ids. -/
theorem Keeps.idsToWalkAll_eq {held : Bool} {x r : Part} (h : Keeps config held s s' x r) :
    idsToWalkAll config.rules r.children =
      idsToWalkAll config.rules (x.kept config.rules held).children := by
  cases h with
  | rests hrests _ _ =>
    have hkept : x.kept config.rules held = x := by
      cases x with
      | expression e =>
        obtain ⟨hdropped, -⟩ := hrests e rfl
        cases held with
        | false => rfl
        | true =>
          have hfate : e.fate config.rules ≠ .replaced := fun h => nomatch hdropped h
          show Part.expression (e.rewritten config.rules) = _
          rw [Expression.rewritten, if_neg hfate]
      | _ => rfl
    rw [hkept]
  | @lifted e r hheld hlift _ =>
    subst hheld
    have hfate : e.fate config.rules = .replaced := by
      have houtcome : LiftOutcome config.rules e s.nextId := liftOutcome e s.nextId
      cases houtcome with
      | kept _ hkept => rw [hkept] at hlift; cases hlift
      | replaced hfate _ _ => exact hfate
      | refused _ herror => rw [herror] at hlift; cases hlift
    refine idsToWalkAll_congr ?_
    show r.unnumbered = (e.rewritten config.rules).unnumbered
    rw [Expression.rewritten, if_pos hfate]
    exact Expression.unnumbered_of_liftNode hlift

mutual

/-- **The counter goes on by as many ids as are drawn.** -/
theorem Visits.next_eq {held : Bool} {x y : Part} {s s' : WalkState} :
    Visits config held x y s s' → s'.nextId = s.nextId + .ofNat (x.idsToWalk config.rules held)
  | .mk hkeeps _ hchildren => by
    rw [hchildren.next_eq, hkeeps.next_eq, hkeeps.idsToWalkAll_eq, Part.idsToWalk_eq,
      UInt32.ofNat_add, UInt32.add_assoc]

theorem VisitsAll.next_eq {cs ds : List Inner} {s s' : WalkState} :
    VisitsAll config cs ds s s' → s'.nextId = s.nextId + .ofNat (idsToWalkAll config.rules cs)
  | .nil => (UInt32.add_zero _).symm
  | .cons h hrest => by
    rw [hrest.next_eq, h.next_eq, idsToWalkAll_cons, UInt32.ofNat_add, UInt32.add_assoc]

end

end Walk

end DecimalLift
