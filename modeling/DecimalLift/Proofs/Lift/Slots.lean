import DecimalLift.Parse.Statement
import DecimalLift.Proofs.Lift.Demand

/-!
# Lifted expressions stay in their slots

A lifted expression is put into the tree only where it stands in a slot, and it is counted then. All
other ones are dropped, and the ids that they used never show up. So a new id can be found only at
or below a slot, and the count tells whether a tree has changed.

* `Part.Occurs` — a part in a part, and whether a slot is on the way to it.
* `Visits.eq_of_attached` — a walk that attaches nothing changes nothing.
* `Visits.exists_new` — a walk that attaches something leaves a drawn id in the tree.
* `Visits.kept` — what is at or below no slot was there before.
* `walk_accounts` — the three together, for the walks of expressions, statements and programs.
-/

set_option autoImplicit false

namespace DecimalLift

/-! ## Where a part stands -/

/-- `x.Occurs held b y`: the part `y` is `x` or in it. If `held` says whether `x` stands at or below
a slot, then `b` says it of `y`. -/
inductive Part.Occurs : Bool → Part → Bool → Part → Prop
  | here {held : Bool} {x : Part} : Occurs held x held x
  | inside {held b : Bool} {x y : Part} {c : Inner} (hc : c ∈ x.children)
      (h : Occurs (held || c.held) c.part b y) : Occurs held x b y

/-- A part of a program, and whether it stands at or below a slot. -/
def Program.Occurs (p : Program) (b : Bool) (x : Part) : Prop :=
  ∃ st ∈ p.statements, (Part.statement st).Occurs false b x

/-- Everything below a slot is below a slot. -/
theorem Part.Occurs.of_held {held b : Bool} {x y : Part} (h : x.Occurs held b y) :
    held = true → b = true := by
  induction h with
  | here => exact fun hheld => hheld
  | inside _ _ ih =>
    intro hheld
    exact ih (by rw [hheld, Bool.true_or])

namespace Walk

variable {config : Config} {s s' : WalkState}

/-! ## Counts and ids -/

theorem Keeps.attached_le {held : Bool} {x r : Part} (h : Keeps config held s s' x r) :
    s.counts.attached ≤ s'.counts.attached := by
  cases h with
  | rests _ _ hattached => exact Nat.le_of_eq hattached.symm
  | lifted _ _ hattached => omega

mutual

/-- The count of attached expressions only grows. -/
theorem Visits.attached_le {held : Bool} {x y : Part} {s s' : WalkState} :
    Visits config held x y s s' → s.counts.attached ≤ s'.counts.attached
  | .mk hkeeps _ hchildren => Nat.le_trans hkeeps.attached_le hchildren.attached_le

theorem VisitsAll.attached_le {cs ds : List Inner} {s s' : WalkState} :
    VisitsAll config cs ds s s' → s.counts.attached ≤ s'.counts.attached
  | .nil => Nat.le_refl _
  | .cons h hrest => Nat.le_trans h.attached_le hrest.attached_le

end

mutual

/-- **A walk that attaches nothing changes nothing.** -/
theorem Visits.eq_of_attached {held : Bool} {x y : Part} {s s' : WalkState} :
    Visits config held x y s s' → s'.counts.attached ≤ s.counts.attached → y = x
  | .mk hkeeps hbare hchildren, hle => by
    have ih := hchildren.eq_of_attached
    have hfirst := hkeeps.attached_le
    have hrest := hchildren.attached_le
    cases hkeeps with
    | rests => exact Part.eq_of_bare hbare (ih (by omega))
    | lifted _ _ hattached => omega

theorem VisitsAll.eq_of_attached {cs ds : List Inner} {s s' : WalkState} :
    VisitsAll config cs ds s s' → s'.counts.attached ≤ s.counts.attached → ds = cs
  | .nil, _ => rfl
  | .cons h hrest, hle => by
    have := h.attached_le
    have := hrest.attached_le
    rw [h.eq_of_attached (by omega), hrest.eq_of_attached (by omega)]

end

mutual

/-- **A walk that attaches something leaves a drawn id in the tree.** -/
theorem Visits.exists_new {held : Bool} {x y : Part} {s s' : WalkState} :
    Visits config held x y s s' → s.counts.attached < s'.counts.attached →
      ∃ z ∈ y.parts, z.id ∈ draws s.nextId (x.idsToWalk config.rules held)
  | @Visits.mk _ _ _ _ _ _ s₁ _ hkeeps hbare hchildren, hlt => by
    have ih := hchildren.exists_new
    rw [Part.parts_eq, Part.idsToWalk_eq, draws_add, ← hkeeps.next_eq, ← hkeeps.idsToWalkAll_eq]
    cases hkeeps with
    | rests _ _ hattached =>
      obtain ⟨z, hz, hid⟩ := ih (by omega)
      exact ⟨z, List.mem_cons_of_mem _ hz, List.mem_append_right _ hid⟩
    | lifted _ hlift _ =>
      -- the walk goes on into what was lifted, and its root stays
      refine ⟨y, List.mem_cons_self, List.mem_append_left _ ?_⟩
      unfold Part.id
      rw [Part.node_eq_of_bare hbare]
      exact (ids_of_liftNode hlift).2 _ rfl

theorem VisitsAll.exists_new {cs ds : List Inner} {s s' : WalkState} :
    VisitsAll config cs ds s s' → s.counts.attached < s'.counts.attached →
      ∃ z ∈ ds.flatMap (·.part.parts), z.id ∈ draws s.nextId (idsToWalkAll config.rules cs)
  | .nil, hlt => absurd hlt (Nat.lt_irrefl _)
  | .cons h hrest, hlt => by
    rw [List.flatMap_cons, idsToWalkAll_cons, draws_add, ← h.next_eq]
    rcases Nat.lt_or_eq_of_le h.attached_le with hfirst | hfirst
    · obtain ⟨z, hz, hid⟩ := h.exists_new hfirst
      exact ⟨z, List.mem_append_left _ hz, List.mem_append_left _ hid⟩
    · obtain ⟨z, hz, hid⟩ := hrest.exists_new (by omega)
      exact ⟨z, List.mem_append_right _ hz, List.mem_append_right _ hid⟩

end

/-! ## Places -/

/-- A part that stands in no slot keeps all but what is inside it. -/
theorem Visits.bare_eq {x y : Part} (h : Visits config false x y s s') : y.bare = x.bare := by
  cases h with
  | mk hkeeps hbare _ =>
    cases hkeeps with
    | rests => exact hbare
    | lifted hheld _ _ => cases hheld

mutual

/-- **What stands at or below no slot was in the tree before**, but for what is inside it. -/
theorem Visits.kept {held : Bool} {x y : Part} {s s' : WalkState} :
    Visits config held x y s s' → ∀ z : Part, y.Occurs held false z →
      ∃ w ∈ x.parts, w.bare = z.bare
  | .mk hkeeps hbare hchildren, z, hoccurs => by
    have ih := hchildren.kept z
    cases held with
    | true => cases hoccurs.of_held rfl
    | false =>
      cases hkeeps with
      | lifted hheld _ _ => cases hheld
      | rests =>
        rw [Part.parts_eq]
        cases hoccurs with
        | here => exact ⟨x, List.mem_cons_self, hbare.symm⟩
        | inside hc hoccurs =>
          rw [Bool.false_or] at hoccurs
          obtain ⟨w, hw, hsame⟩ := ih _ hc hoccurs
          exact ⟨w, List.mem_cons_of_mem _ hw, hsame⟩

theorem VisitsAll.kept {cs ds : List Inner} {s s' : WalkState} :
    VisitsAll config cs ds s s' → ∀ (z : Part) (d : Inner), d ∈ ds →
      d.part.Occurs d.held false z → ∃ w ∈ cs.flatMap (·.part.parts), w.bare = z.bare
  | .nil, _, _, hd, _ => nomatch hd
  | .cons h hrest, z, d, hd, hoccurs => by
    have ihfirst := h.kept z
    have ihrest := hrest.kept z
    rw [List.flatMap_cons]
    rcases List.mem_cons.1 hd with rfl | hd
    · obtain ⟨w, hw, hsame⟩ := ihfirst hoccurs
      exact ⟨w, List.mem_append_left _ hw, hsame⟩
    · obtain ⟨w, hw, hsame⟩ := ihrest d hd hoccurs
      exact ⟨w, List.mem_append_right _ hw, hsame⟩

end

/-! ## Accounts -/

/-- What a walk from `s` to `s'` that made `new` of `old` and drew so many ids tells; `parts` are
the parts of `old`, and `occurs` are those of `new`, each with whether it stands at or below a
slot. -/
structure Accounts {α : Type} (s s' : WalkState) (drawn : Nat) (old new : α) (parts : List Part)
    (occurs : Bool → Part → Prop) : Prop where
  next_eq : s'.nextId = s.nextId + .ofNat drawn
  /-- If nothing more is counted as attached, the tree is the same, ids included. -/
  unchanged : s'.counts.attached ≤ s.counts.attached → new = old
  /-- As long as the counter suffices, it is the same only then. -/
  eq_iff : Supplies s.nextId drawn → (new = old ↔ s'.counts.attached ≤ s.counts.attached)
  /-- A part that stands at or below no slot is an old one, but for what is inside it. -/
  kept : ∀ x, occurs false x → ∃ y ∈ parts, y.bare = x.bare
  /-- A part with a new id stands at or below a slot. -/
  placed : ∀ b x, occurs b x → s.nextId ≤ x.id → b = true

theorem VisitsAll.accounts {cs ds : List Inner} (h : VisitsAll config cs ds s s')
    (hold : ∀ z ∈ cs.flatMap (·.part.parts), z.id < s.nextId) :
    Accounts s s' (idsToWalkAll config.rules cs) cs ds (cs.flatMap (·.part.parts))
      fun b z => ∃ d ∈ ds, d.part.Occurs d.held b z where
  next_eq := h.next_eq
  unchanged := h.eq_of_attached
  eq_iff := by
    intro hsupplies
    refine ⟨fun heq => Nat.le_of_not_lt fun hlt => ?_, h.eq_of_attached⟩
    obtain ⟨z, hz, hid⟩ := h.exists_new hlt
    rw [heq] at hz
    have hnew := (hsupplies.mem_iff.1 hid).1
    exact absurd (hold z hz) (UInt32.not_lt.2 hnew)
  kept := by
    rintro z ⟨d, hd, hoccurs⟩
    exact h.kept z d hd hoccurs
  placed := by
    rintro b z ⟨d, hd, hoccurs⟩ hid
    cases b with
    | true => rfl
    | false =>
      -- an old part has an old id
      obtain ⟨w, hw, hbare⟩ := h.kept z d hd hoccurs
      have hsame : w.id = z.id := congrArg Node.id (Part.node_eq_of_bare hbare)
      have hlt := hold w hw
      rw [hsame] at hlt
      exact absurd hlt (UInt32.not_lt.2 hid)

theorem Visits.accounts {held : Bool} {x y : Part} (h : Visits config held x y s s')
    (hold : ∀ z ∈ x.parts, z.id < s.nextId) :
    Accounts s s' (x.idsToWalk config.rules held) x y x.parts (y.Occurs held) := by
  have hall : VisitsAll config [⟨held, x⟩] [⟨held, y⟩] s s' := .single h
  have haccounts := hall.accounts (by simpa using hold)
  have hparts : [Inner.mk held x].flatMap (·.part.parts) = x.parts := List.append_nil _
  have hdrawn : idsToWalkAll config.rules [⟨held, x⟩] = x.idsToWalk config.rules held :=
    idsToWalkAll_cons ..
  rw [hparts, hdrawn] at haccounts
  obtain ⟨hnext, hunchanged, heq, hkept, hplaced⟩ := haccounts
  exact {
    next_eq := hnext
    unchanged := by simpa using hunchanged
    eq_iff := by simpa using heq
    kept := fun z hoccurs => hkept z ⟨_, List.mem_singleton_self _, hoccurs⟩
    placed := fun b z hoccurs => hplaced b z ⟨_, List.mem_singleton_self _, hoccurs⟩ }

theorem program_accounts {p p' : Program} (hold : ∀ i ∈ p.ids, i < s.nextId)
    (h : program config p s = .ok p' s') :
    p'.node = p.node ∧
      Accounts s s' (p.idsToWalk config.rules) p p' p.parts p'.Occurs := by
  obtain ⟨ss, s₁, hss, h⟩ := bind_eq_ok.1 h
  obtain ⟨rfl, rfl⟩ := pure_eq_ok.1 h
  have hpartsEq : (p.statements.map Inner.ofStatement).flatMap (·.part.parts) = p.parts :=
    (Statement.partsAll_eq p.statements).symm
  have hparts : ∀ z ∈ (p.statements.map Inner.ofStatement).flatMap (·.part.parts),
      z.id < s.nextId := by
    intro z hz
    rw [hpartsEq] at hz
    exact hold _ (List.mem_cons_of_mem _ (List.mem_map_of_mem hz))
  have haccounts := (visits_statements hss).accounts hparts
  rw [hpartsEq] at haccounts
  obtain ⟨hnext, hunchanged, heq, hkept, hplaced⟩ := haccounts
  have hsame : ({ p with statements := ss } = p) ↔
      ss.map Inner.ofStatement = p.statements.map Inner.ofStatement := by
    rw [List.map_inj_right fun _ _ => Inner.ofStatement_inj.1]
    cases p
    simp
  refine ⟨rfl, hnext, ?_, ?_, ?_, ?_⟩
  · rw [hsame]
    exact hunchanged
  · rw [hsame]
    exact heq
  · rintro x ⟨st, hst, hoccurs⟩
    exact hkept x ⟨_, List.mem_map_of_mem hst, hoccurs⟩
  · rintro b x ⟨st, hst, hoccurs⟩
    exact hplaced b x ⟨_, List.mem_map_of_mem hst, hoccurs⟩

/-- `Math.sin()` at no place, with three ids from `i` on. -/
def sineFrom (i : UInt32) : Expression :=
  .call ⟨i + 2, .synthesized⟩
    (.member ⟨i + 1, .synthesized⟩ (.identifier ⟨i, .synthesized⟩ "Math") "sin") []

-- The counter has to suffice. Here `Math.sin()` is lifted to `Math.sin()`, in an array for nothing
-- and then in an argument, where the counter has come around to the ids that the argument has.
example :
    let config : Config := ⟨{ Rules.standard with typeName := "Math" }, .passthrough⟩
    let e := Expression.array .blank
      [sineFrom 3, .call .blank (.identifier .blank "f") [sineFrom 0]]
    expression config e none (.start 4294967293) = .ok e ⟨3, ⟨1, 1, 0⟩⟩ := by
  cbv

/-- Arithmetic in an initial value, in conditions, in arguments and in a value that is returned. -/
def branches : String :=
  "let x = 1 + 2 * 3\nif (4 - 5) f(6 / 7, [8 + 9])\nwhile (10 * 11) return -12 + Math.sin(13 - 14)"

/-- `[1 + 2]` -/
def boxed : Expression :=
  .array .blank [.binary .blank .add (.number .blank "1") (.number .blank "2")]

end Walk

end DecimalLift
