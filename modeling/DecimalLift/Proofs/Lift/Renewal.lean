import DecimalLift.Proofs.Lift.Demand

/-!
# Which nodes a walk keeps and which it makes

Subtrees are moved into lifted expressions while the expressions that they were in are kept or
dropped, and ids are used up by results that nobody keeps. Still no identity is doubled.

* `Renews` — from one list of parts to another, with the ids that are drawn on the way: no id gets
  more frequent than by how often it is drawn, and each part is an old one or new with a span that
  was there. The laws `trans`, `append`, `cons` and `fresh` build it up.
* `LiftsFrom.renews` — what lifting keeps and makes.
* `Visits.renews`, `renews_statements` — what a walk keeps and makes.
-/

set_option autoImplicit false

namespace DecimalLift

/-! ## From old parts to new ones -/

/-- How often an id occurs among parts. -/
def uses (ps : List Part) (i : UInt32) : Nat := (ps.map Part.id).count i

@[simp] theorem uses_nil (i : UInt32) : uses [] i = 0 := rfl

@[simp] theorem uses_append (ps qs : List Part) (i : UInt32) :
    uses (ps ++ qs) i = uses ps i + uses qs i := by
  unfold uses
  rw [List.map_append, List.count_append]

@[simp] theorem uses_cons (x : Part) (ps : List Part) (i : UInt32) :
    uses (x :: ps) i = uses ps i + if x.id = i then 1 else 0 := by
  unfold uses
  rw [List.map_cons, List.count_cons]
  simp

/-- A part made anew: an expression with a drawn id and the span of an old operation. -/
def Part.MadeFrom (old : List Part) (drawn : List UInt32) (x : Part) : Prop :=
  x.id ∈ drawn ∧
    ∃ e y, x = .expression e ∧ .expression y ∈ old ∧ y.isOperation = true ∧ e.span = y.span

/-- A part that is an old one, but for what is inside it, or is made anew. -/
def Part.ComesFrom (old : List Part) (drawn : List UInt32) (x : Part) : Prop :=
  (∃ y ∈ old, y.bare = x.bare) ∨ x.MadeFrom old drawn

theorem Part.ComesFrom.mono {old old' : List Part} {drawn drawn' : List UInt32} {x : Part}
    (h : x.ComesFrom old drawn) (hsub : ∀ y ∈ old, y ∈ old') (hids : ∀ i ∈ drawn, i ∈ drawn') :
    x.ComesFrom old' drawn' := by
  rcases h with ⟨y, hy, hbare⟩ | ⟨hid, e, y, heq, hy, hop⟩
  · exact Or.inl ⟨y, hsub y hy, hbare⟩
  · exact Or.inr ⟨hids _ hid, e, y, heq, hsub _ hy, hop⟩

/-- The parts `new` are parts of `old`, each used as often as before at most and changed only in
what is inside it, and parts made with the ids `drawn`, each used as often as it was drawn at
most. -/
structure Renews (old new : List Part) (drawn : List UInt32) : Prop where
  uses_le : ∀ i, uses new i ≤ uses old i + drawn.count i
  origin : ∀ x ∈ new, x.ComesFrom old drawn

namespace Renews

variable {old new old' new' ps : List Part} {is js : List UInt32}

theorem refl (ps : List Part) (drawn : List UInt32) : Renews ps ps drawn where
  uses_le := fun _ => Nat.le_add_right _ _
  origin := fun x hx => Or.inl ⟨x, hx, rfl⟩

/-- A part with the same bare form as an expression is an expression like it. -/
theorem exists_of_bare {x : Part} {e : Expression} (h : x.bare = (Part.expression e).bare) :
    ∃ e', x = .expression e' ∧ e'.isOperation = e.isOperation ∧ e'.span = e.span := by
  cases x with
  | statement s => cases h
  | declarator d => cases h
  | expression e' =>
    have hbare : e'.bare = e.bare := Part.expression.inj h
    refine ⟨e', rfl, ?_, ?_⟩
    · rw [← e'.isOperation_bare, hbare, e.isOperation_bare]
    · unfold Expression.span
      rw [← e'.node_bare, hbare, e.node_bare]

/-- One step after the other. -/
theorem trans (h : Renews old ps is) (h' : Renews ps new js) : Renews old new (is ++ js) where
  uses_le := by
    intro i
    have := h.uses_le i
    have := h'.uses_le i
    rw [List.count_append]
    omega
  origin := by
    intro x hx
    rcases h'.origin x hx with ⟨y, hy, hbare⟩ | ⟨hid, e, y, rfl, hy, hop, hspan⟩
    · have hnode : y.node = x.node := Part.node_eq_of_bare hbare
      rcases h.origin y hy with ⟨z, hz, hbare'⟩ | ⟨hid, e, z, rfl, hz, hop, hspan⟩
      · exact Or.inl ⟨z, hz, hbare'.trans hbare⟩
      · -- made by the first step, and filled anew by the second one
        obtain ⟨e', rfl, -, hspan'⟩ := exists_of_bare hbare.symm
        refine Or.inr ⟨List.mem_append_left _ ?_, e', z, rfl, hz, hop, hspan'.trans hspan⟩
        unfold Part.id at hid ⊢
        rw [← hnode]
        exact hid
    · refine Or.inr ⟨List.mem_append_right _ hid, e, ?_⟩
      rcases h.origin _ hy with ⟨z, hz, hbare⟩ | ⟨-, _, z, heq, hz, hop', hspan'⟩
      · obtain ⟨z', rfl, hop', hspan'⟩ := exists_of_bare hbare
        exact ⟨z', rfl, hz, hop'.trans hop, hspan.trans hspan'.symm⟩
      · cases heq
        exact ⟨z, rfl, hz, hop', hspan.trans hspan'⟩

/-- One list of parts after the other. -/
theorem append (h : Renews old new is) (h' : Renews old' new' js) :
    Renews (old ++ old') (new ++ new') (is ++ js) where
  uses_le := by
    intro i
    have := h.uses_le i
    have := h'.uses_le i
    rw [uses_append, uses_append, List.count_append]
    omega
  origin := by
    intro x hx
    rcases List.mem_append.1 hx with hx | hx
    · exact (h.origin x hx).mono (fun _ => List.mem_append_left _) fun _ => List.mem_append_left _
    · exact (h'.origin x hx).mono (fun _ => List.mem_append_right _)
        fun _ => List.mem_append_right _

/-- Parts that are left out. -/
theorem skip (ps : List Part) (h : Renews old new is) : Renews (ps ++ old) new is where
  uses_le := by
    intro i
    have := h.uses_le i
    rw [uses_append]
    omega
  origin := fun x hx => (h.origin x hx).mono (fun _ => List.mem_append_right _) fun _ hi => hi

/-- A part that changes only in what is inside it. -/
theorem cons {x y : Part} (hbare : y.bare = x.bare) (h : Renews old new is) :
    Renews (y :: old) (x :: new) is where
  uses_le := by
    intro i
    have := h.uses_le i
    have hid : y.id = x.id := congrArg Node.id (Part.node_eq_of_bare hbare)
    rw [uses_cons, uses_cons, hid]
    omega
  origin := by
    intro z hz
    rcases List.mem_cons.1 hz with rfl | hz
    · exact Or.inl ⟨y, List.mem_cons_self, hbare⟩
    · exact (h.origin z hz).mono (fun _ => List.mem_cons_of_mem _) fun _ hi => hi

/-- An expression that is made with the next id, in the place of an operation. -/
theorem fresh {e y : Expression} {i : UInt32} (hy : .expression y ∈ old)
    (hop : y.isOperation = true) (hnode : e.node = ⟨i, y.span⟩) (h : Renews old new is) :
    Renews old (.expression e :: new) (is ++ [i]) where
  uses_le := by
    intro j
    have := h.uses_le j
    have hid : (Part.expression e).id = i := congrArg Node.id hnode
    rw [uses_cons, hid, List.count_append, List.count_singleton]
    simp only [beq_iff_eq]
    omega
  origin := by
    intro z hz
    rcases List.mem_cons.1 hz with rfl | hz
    · have hid : (Part.expression e).id = i := congrArg Node.id hnode
      have hspan : e.span = y.span := by
        unfold Expression.span
        rw [hnode]
        rfl
      refine Or.inr ⟨?_, e, y, rfl, hy, hop, hspan⟩
      rw [hid]
      exact List.mem_append_right _ (List.mem_singleton_self i)
    · exact (h.origin z hz).mono (fun _ hy => hy) fun _ => List.mem_append_left _

end Renews

/-! ## Lifting -/

section

variable {rules : Rules}

theorem parts_methodCall (n₁ n₂ n₃ n₄ : Node) (typeName method : String)
    (left right : Expression) :
    (Expression.call n₄ (.member n₃ (.construct n₂ (.identifier n₁ typeName) [left]) method)
      [right]).parts =
      .expression (.call n₄ (.member n₃ (.construct n₂ (.identifier n₁ typeName) [left]) method)
        [right]) ::
      .expression (.member n₃ (.construct n₂ (.identifier n₁ typeName) [left]) method) ::
      .expression (.construct n₂ (.identifier n₁ typeName) [left]) ::
      .expression (.identifier n₁ typeName) :: (left.parts ++ right.parts) := by
  simp [Expression.parts, Expression.subexpressions, Expression.subexpressionsAll]

/-- **What lifting keeps and makes.** -/
theorem LiftsFrom.renews {e : Expression} {l : Lifted} {a b : UInt32}
    (h : LiftsFrom rules e l a b) :
    Renews e.parts (l.result e).parts (draws a (e.idsToLift rules)) := by
  induction h with
  | number | call_kept => exact .refl _ _
  | @call n callee arguments target a htarget =>
    have hold : (Expression.call n callee arguments).parts =
        (.expression (.call n callee arguments) :: callee.parts) ++
          (Expression.subexpressionsAll arguments).map .expression := by
      simp [Expression.parts, Expression.subexpressions]
    have hself : Part.expression (.call n callee arguments) ∈
        (Expression.call n callee arguments).parts := by
      rw [Expression.parts_eq]
      exact List.mem_cons_self
    have hbase : Renews (Expression.call n callee arguments).parts
        ((Expression.subexpressionsAll arguments).map .expression) [] := by
      rw [hold]
      exact (Renews.refl _ _).skip _
    have hids : draws a ((Expression.call n callee arguments).idsToLift rules) =
        [] ++ [a] ++ [a + 1] ++ [a + 2] := by
      simp only [Expression.idsToLift, htarget]
      show [a + 0, a + 1, a + 2] = _
      rw [UInt32.add_zero]
      rfl
    -- the name, the member and the call, in the order of their ids
    rw [hids]
    exact ((hbase.fresh hself rfl rfl).fresh hself rfl rfl).fresh hself rfl rfl
  | @binary n op left right l r method a b c hmethod hleft hright ihleft ihright =>
    have hself : Part.expression (.binary n op left right) ∈
        (Expression.binary n op left right).parts := by
      rw [Expression.parts_eq]
      exact List.mem_cons_self
    have hbase : Renews (Expression.binary n op left right).parts
        ((l.result left).parts ++ (r.result right).parts)
        (draws a (left.idsToLift rules) ++ draws b (right.idsToLift rules)) := by
      have hold : (Expression.binary n op left right).parts =
          [.expression (.binary n op left right)] ++ (left.parts ++ right.parts) := by
        simp [Expression.parts, Expression.subexpressions]
      rw [hold]
      exact (ihleft.append ihright).skip _
    have hids : draws a ((Expression.binary n op left right).idsToLift rules) =
        draws a (left.idsToLift rules) ++ draws b (right.idsToLift rules) ++ [c] ++ [c + 1] ++
          [c + 2] ++ [c + 3] := by
      have hfour : draws c 4 = [c, c + 1, c + 2, c + 3] := by
        show [c + 0, c + 1, c + 2, c + 3] = _
        rw [UInt32.add_zero]
      rw [Expression.idsToLift_binary hmethod hleft.lifts.liftable hright.lifts.liftable,
        draws_add, draws_add, ← hleft.ids.1, ← hright.ids.1, hfour]
      simp only [List.append_assoc, List.cons_append, List.nil_append]
    -- the name, the construction, the member and the call
    rw [Lifted.result, parts_methodCall, hids]
    refine .fresh hself rfl rfl (.fresh hself rfl rfl ?_)
    exact .fresh hself rfl rfl (.fresh hself rfl rfl hbase)

theorem renews_liftNode {e : Expression} {l : Lifted} {a b : UInt32}
    (h : e.liftNode rules a = .ok l b) :
    Renews e.parts (l.result e).parts (draws a (e.idsToLift rules)) := by
  rcases liftNode_cases rules e with hlift | ⟨hkept, -⟩
  · rw [hlift] at h
    exact (liftsFrom_of_lift h).renews
  · rw [hkept] at h
    cases h
    exact .refl _ _

end

namespace Walk

/-! ## Walks -/

variable {config : Config} {s s' : WalkState}

theorem Keeps.renews {held : Bool} {x r : Part} (h : Keeps config held s s' x r) :
    Renews x.parts r.parts (draws s.nextId (x.idsToLift config.rules)) := by
  cases h with
  | rests => exact .refl _ _
  | lifted _ hlift _ => exact renews_liftNode hlift

mutual

theorem Visits.renews {held : Bool} {x y : Part} {s s' : WalkState} :
    Visits config held x y s s' →
      Renews x.parts y.parts (draws s.nextId (x.idsToWalk config.rules held))
  | @Visits.mk _ _ _ r _ _ _ _ hkeeps hbare hchildren => by
    have hinside : Renews r.parts y.parts
        (draws (s.nextId + .ofNat (x.idsToLift config.rules))
          (idsToWalkAll config.rules (x.kept config.rules held).children)) := by
      rw [← hkeeps.next_eq, ← hkeeps.idsToWalkAll_eq, Part.parts_eq r, Part.parts_eq y]
      exact .cons hbare.symm hchildren.renews
    rw [Part.idsToWalk_eq, draws_add]
    exact hkeeps.renews.trans hinside

theorem VisitsAll.renews {cs ds : List Inner} {s s' : WalkState} :
    VisitsAll config cs ds s s' →
      Renews (cs.flatMap (·.part.parts)) (ds.flatMap (·.part.parts))
        (draws s.nextId (idsToWalkAll config.rules cs))
  | .nil => .refl _ _
  | .cons h hrest => by
    rw [List.flatMap_cons, List.flatMap_cons, idsToWalkAll_cons, draws_add, ← h.next_eq]
    exact h.renews.append hrest.renews

end

/-- **What the walk of statements keeps and makes.** -/
theorem renews_statements {ss ss' : List Statement} (h : statements config ss s = .ok ss' s') :
    Renews (Statement.partsAll ss) (Statement.partsAll ss')
      (draws s.nextId (idsToWalkAll config.rules (ss.map .ofStatement))) := by
  rw [Statement.partsAll_eq, Statement.partsAll_eq]
  exact (visits_statements h).renews

end Walk

end DecimalLift
