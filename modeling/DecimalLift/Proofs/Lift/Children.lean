import DecimalLift.Proofs.Lift.Walks
import DecimalLift.Proofs.Tree.Parts

/-!
# A walk goes on into the children

* `Walk.child` — the walk of a child: only whether it stands in a slot matters, not in which one.
* `expression_children` — the walk of an expression keeps something in its place and walks the
  children of what it kept.
-/

set_option autoImplicit false

namespace DecimalLift

namespace Walk

variable {config : Config}

theorem retain_slot (e : Expression) {slot slot' : Option Slot} (h : slot.isSome = slot'.isSome) :
    retain config e slot = retain config e slot' := by
  unfold retain
  congr
  funext r
  cases slot <;> cases slot' <;> cases r <;> first | rfl | cases h

/-- It does not matter in which slot an expression stands. -/
theorem expression_slot (e : Expression) {slot slot' : Option Slot}
    (h : slot.isSome = slot'.isSome) : expression config e slot = expression config e slot' := by
  rw [expression_eq, expression_eq, retain_slot e h]

/-- The walk of a child. -/
def child (config : Config) (c : Child) : Walk Expression :=
  expression config c.value (if c.held then some .initial else none)

theorem expressions_eq (slots : Bool) (i : Nat) (es : List Expression) :
    expressions config slots i es = (es.map (Child.mk slots)).mapM (child config) := by
  induction es generalizing i with
  | nil =>
    rw [expressions, List.map_nil, List.mapM_nil]
  | cons e es ih =>
    have hslot : expression config e (if slots then some (.argument i) else none) =
        child config ⟨slots, e⟩ := by
      unfold child
      apply expression_slot
      cases slots <;> rfl
    rw [expressions, hslot, ih, List.map_cons, List.mapM_cons]

/-- **A walk of the parts of an expression walks its children from left to right.** -/
theorem into_eq (e : Expression) :
    into config e = (do let es ← e.children.mapM (child config); return e.fill es) := by
  have hloose : ∀ x : Expression, child config ⟨false, x⟩ = expression config x none :=
    fun _ => rfl
  cases e <;>
    simp only [into, Expression.children, List.mapM_cons, List.mapM_nil, expressions_eq, hloose,
      bind_assoc, pure_bind, Expression.fill]

/-- **A walk keeps something in the place of an expression and walks the children of that.** -/
theorem expression_children (e : Expression) (slot : Option Slot) :
    expression config e slot =
      (do let r ← retain config e slot
          let es ← r.1.children.mapM (child config)
          return r.1.fill es) := by
  rw [expression_eq]
  congr
  funext r
  exact into_eq r.1

end Walk

end DecimalLift
