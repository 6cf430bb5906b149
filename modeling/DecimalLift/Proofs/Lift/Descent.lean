import DecimalLift.Proofs.Lift.Children

/-!
# The walk of an expression ends

A walk goes on into what it has put in the place of an expression, and that may be a larger tree.
The rules are free to lift a call to one that they lift again, so no part of a tree is safe from
being replaced on the way down. The weight of an expression bounds the walk all the same.

* `Expression.places` — the expressions right inside an expression, with the slots they stand in.
* `Walk.round` — one round of a walk, with any function in the place of the walk further down.
* `Walk.GoesInto` — the expressions that a walk goes on into, and `Walk.wellFounded_goesInto`, that
  there is no endless way down.
* `Walk.expression_iff_round` — lifting and going down lead to a smaller weight, and the walk is
  the only function that goes round by round.
-/

set_option autoImplicit false

namespace DecimalLift

/-- The expressions right inside an expression, each with the slot that it stands in. Only a call has
slots inside, and its callee comes first. -/
def Expression.places (e : Expression) : List (Expression × Option Slot) :=
  e.children.zipIdx.map fun (c, i) => (c.value, if c.held then some (.argument (i - 1)) else none)

theorem Expression.weight_place_lt {e : Expression} {place : Expression × Option Slot}
    (h : place ∈ e.places) : place.1.weight < e.weight := by
  obtain ⟨⟨c, i⟩, hc, rfl⟩ := List.mem_map.1 h
  exact weight_child_lt (List.fst_mem_of_mem_zipIdx hc)

namespace Walk

variable {config : Config}

/-- One round of a walk: something stands in the place of an expression afterwards, and `visit` goes
on into that. -/
def round (config : Config) (visit : Expression → Option Slot → Walk Expression) (e : Expression)
    (slot : Option Slot) : Walk Expression := do
  let r ← retain config e slot
  let es ← r.1.places.mapM fun place => visit place.1 place.2
  return r.1.fill es

/-- The walk of `e` goes on into `c`, in some slot and some state. -/
def GoesInto (config : Config) (c e : Expression) : Prop :=
  ∃ (slot : Option Slot) (s s' : WalkState) (r : Bounded e),
    retain config e slot s = .ok r s' ∧ ∃ inner, (c, inner) ∈ r.1.places

theorem GoesInto.weight_lt {c e : Expression} (h : GoesInto config c e) : c.weight < e.weight := by
  obtain ⟨slot, s, s', r, -, inner, hplace⟩ := h
  exact Nat.lt_of_lt_of_le (Expression.weight_place_lt hplace) r.2

/-- **There is no endless way down.** -/
theorem wellFounded_goesInto (config : Config) : WellFounded (GoesInto config) :=
  Subrelation.wf GoesInto.weight_lt (measure Expression.weight).wf

/-- Walking the places of an expression is walking its children. -/
theorem mapM_places (e : Expression) :
    (e.places.mapM fun place => expression config place.1 place.2) =
      e.children.mapM (child config) := by
  have hslots : ∀ (cs : List Child) (k : Nat),
      (((cs.zipIdx k).map fun (c, i) =>
        (c.value, if c.held then some (Slot.argument (i - 1)) else none)).mapM fun place =>
          expression config place.1 place.2) = cs.mapM (child config) := by
    intro cs
    induction cs with
    | nil => intro k; rfl
    | cons c cs ih =>
      intro k
      have hchild : expression config c.value
          (if c.held then some (.argument (k - 1)) else none) = child config c := by
        apply expression_slot
        cases c.held <;> rfl
      rw [List.zipIdx_cons, List.map_cons, List.mapM_cons, List.mapM_cons, ih, hchild]
  exact hslots e.children 0

/-- The walk goes round by round. -/
theorem expression_eq_round (e : Expression) (slot : Option Slot) :
    expression config e slot = round config (expression config) e slot := by
  rw [expression_children, round]
  congr
  funext r
  rw [mapM_places]

/-- A round depends only on what it goes on into. -/
theorem round_congr {visit visit' : Expression → Option Slot → Walk Expression} {e : Expression}
    {slot : Option Slot} (h : ∀ c, GoesInto config c e → visit c = visit' c) :
    round config visit e slot = round config visit' e slot := by
  funext s
  refine bind_congr_of_ok fun r s' hretain => ?_
  have hinner : (r.1.places.mapM fun place => visit place.1 place.2) =
      r.1.places.mapM fun place => visit' place.1 place.2 := by
    refine mapM_congr fun place hplace => ?_
    rw [h place.1 ⟨slot, s, s', r, hretain, place.2, hplace⟩]
  rw [hinner]

/-- The walk is the only function that goes round by round. -/
theorem eq_of_round {visit : Expression → Option Slot → Walk Expression}
    (h : ∀ e slot, visit e slot = round config visit e slot) : visit = expression config := by
  funext e
  induction e using (wellFounded_goesInto config).induction with
  | _ e ih =>
    funext slot
    rw [h, expression_eq_round, round_congr ih]

/-- **The walk of an expression ends, whatever the rules are.** There is a measure that does not grow
where arithmetic or a call is replaced by its lifted form, and that gets smaller from every
expression to those inside it. So there is no endless way down, and the rounds of a walk determine a
function on all expressions, which is the walk. -/
theorem expression_iff_round :
    (∃ size : Expression → Nat,
      (∀ (rules : Rules) (e r : Expression) (next next' : UInt32),
        e.liftNode rules next = .ok (.replaced r) next' → size r ≤ size e) ∧
      ∀ e : Expression, ∀ place ∈ e.places, size place.1 < size e) ∧
    ∀ config : Config, WellFounded (GoesInto config) ∧
      ∀ visit : Expression → Option Slot → Walk Expression,
        (∀ e slot, visit e slot = round config visit e slot) ↔ visit = expression config := by
  refine ⟨⟨Expression.weight, ?_, fun e place => Expression.weight_place_lt⟩, fun config => ?_⟩
  · intro rules e r next next' h
    exact Expression.weight_liftNode_le h
  · refine ⟨wellFounded_goesInto config, fun visit => ⟨eq_of_round, ?_⟩⟩
    rintro rfl
    exact expression_eq_round

end Walk

end DecimalLift
