import DecimalLift.Proofs.Lift.Renewal
import DecimalLift.Proofs.Transform.Idempotent

/-!
# Node identity survives a transformation

* `Program.exists_of_transform` — a transformation binds the type and walks the statements.
* `Program.comesFrom_of_transform` — each part of a transformed program is an old part, made from an
  operation, or the added import in front.
* `Program.keepsIdentity_transform` — identities stay distinct, and what has an old identity is an
  old part.
-/

set_option autoImplicit false

namespace DecimalLift

/-- The import of the decimal type as a statement with a given id. -/
def Rules.importStatement (rules : Rules) (id : UInt32) : Statement :=
  .imports ⟨id, .synthesized⟩ rules.importDeclaration

namespace Program

variable {config : Config} {p p' : Program} {report : TransformReport}

/-- How many ids a transformation draws: one for the import if it is added, and those of the
walk. -/
def idsToTransform (rules : Rules) (p : Program) : Nat :=
  (if p.statements.any (Statement.bindsName rules) then 0 else 1) + p.idsToWalk rules

/-- What binding the type puts in front of the statements, and how many ids it draws for that. -/
inductive Adds (rules : Rules) (nextId : UInt32) : List Statement → Nat → Prop
  | nothing : Adds rules nextId [] 0
  | declaration : Adds rules nextId [rules.importStatement nextId] 1

theorem exists_bindType (rules : Rules) (p : Program) :
    ∃ outcome added k, Adds rules p.nextId added k ∧
      p.idsToTransform rules = k + p.idsToWalk rules ∧
      p.bindType rules p.nextId =
        (outcome, { p with statements := added ++ p.statements }, p.nextId + .ofNat k) := by
  unfold idsToTransform
  cases hbound : p.statements.any (Statement.bindsName rules) with
  | true =>
    obtain ⟨outcome, -, hbind⟩ := bindType_of_bound hbound p.nextId
    refine ⟨outcome, [], 0, .nothing, rfl, ?_⟩
    rw [hbind]
    exact congrArg (outcome, p, ·) (UInt32.add_zero p.nextId).symm
  | false => exact ⟨.added, _, 1, .declaration, rfl, bindType_of_free hbound p.nextId⟩

/-- A transformation walks the statements of a program, behind the import if it is added. -/
theorem exists_of_transform (h : p.transform config = .ok (p', report)) :
    ∃ added k ss s', Adds config.rules p.nextId added k ∧
      p.idsToTransform config.rules = k + p.idsToWalk config.rules ∧
      Walk.statements config (added ++ p.statements) (.start (p.nextId + .ofNat k)) = .ok ss s' ∧
      p' = { p with statements := ss, nextId := s'.nextId } := by
  obtain ⟨outcome, added, k, hadds, hids, hbind⟩ := exists_bindType config.rules p
  obtain ⟨walked, s', hwalk, rfl⟩ := exists_walk_of_transform h
  rw [hbind] at hwalk
  obtain ⟨ss, s₁, hss, hwalk⟩ := bind_eq_ok.1 hwalk
  obtain ⟨rfl, rfl⟩ := pure_eq_ok.1 hwalk
  exact ⟨added, k, ss, s₁, hadds, hids, hss, rfl⟩

section

variable {rules : Rules} {nextId : UInt32} {k : Nat} {added : List Statement}

/-- The added import uses the id that the walk then no longer has. -/
theorem Adds.uses_eq (h : Adds rules nextId added k) (i : UInt32) :
    uses (Statement.partsAll added) i = (draws nextId k).count i := by
  cases h with
  | nothing => rfl
  | declaration =>
    show uses [.statement (rules.importStatement nextId)] i = _
    rw [uses_cons, uses_nil, Nat.zero_add, draws_one, List.count_singleton]
    simp only [beq_iff_eq]
    rfl

/-- There is nothing to lift in the added import. -/
theorem Adds.idsToWalkAll_eq (h : Adds rules nextId added k) (p : Program) :
    idsToWalkAll rules ((added ++ p.statements).map .ofStatement) = p.idsToWalk rules := by
  cases h with
  | nothing => rfl
  | declaration =>
    have hnone : (Part.statement (rules.importStatement nextId)).idsToWalk rules false = 0 := by
      rw [Part.idsToWalk_eq]
      rfl
    rw [List.cons_append, List.map_cons, idsToWalkAll_cons]
    exact (congrArg (· + p.idsToWalk rules) hnone).trans (Nat.zero_add _)

theorem Adds.eq_of_mem (h : Adds rules nextId added k) {x : Part}
    (hx : x ∈ Statement.partsAll added) :
    added = [rules.importStatement nextId] ∧ x = .statement (rules.importStatement nextId) := by
  cases h with
  | nothing => cases hx
  | declaration =>
    refine ⟨rfl, ?_⟩
    simpa [Rules.importStatement, Statement.partsAll, Statement.parts] using hx

end

/-- An import has nothing inside it. -/
theorem eq_of_bare_import {x : Part} {n : Node} {d : ImportDeclaration}
    (h : (Part.statement (.imports n d)).bare = x.bare) : x = .statement (.imports n d) := by
  cases x with
  | statement s =>
    cases s with
    | imports n' d' => exact h.symm
    | _ => cases h
  | declarator d => cases h
  | expression e => cases h

/-- **Identities are renewed.** No id gets more frequent than by how often it is drawn. -/
theorem uses_transform (h : p.transform config = .ok (p', report)) :
    p'.nextId = p.nextId + .ofNat (p.idsToTransform config.rules) ∧
      ∀ i, uses p'.parts i ≤
        uses p.parts i + (draws p.nextId (p.idsToTransform config.rules)).count i := by
  obtain ⟨added, k, ss, s', hadds, hids, hwalk, rfl⟩ := exists_of_transform h
  have hnext : s'.nextId = p.nextId + .ofNat k + .ofNat (p.idsToWalk config.rules) := by
    rw [(Walk.visits_statements hwalk).next_eq, hadds.idsToWalkAll_eq]
    rfl
  rw [hids, draws_add, UInt32.ofNat_add, ← UInt32.add_assoc]
  refine ⟨hnext, fun i => ?_⟩
  have huses : uses (Statement.partsAll ss) i ≤
      uses (Statement.partsAll (added ++ p.statements)) i +
        (draws (p.nextId + .ofNat k) (p.idsToWalk config.rules)).count i := by
    rw [← hadds.idsToWalkAll_eq]
    exact (Walk.renews_statements hwalk).uses_le i
  rw [Statement.partsAll_append, uses_append, hadds.uses_eq] at huses
  rw [List.count_append]
  show uses (Statement.partsAll ss) i ≤ uses (Statement.partsAll p.statements) i + _
  omega

theorem count_ids (p : Program) (i : UInt32) :
    p.ids.count i = uses p.parts i + if p.node.id = i then 1 else 0 := by
  unfold ids uses
  rw [List.count_cons]
  simp

theorem node_of_transform (h : p.transform config = .ok (p', report)) :
    p'.node = p.node ∧ p'.file = p.file := by
  obtain ⟨_, _, _, _, _, _, _, rfl⟩ := exists_of_transform h
  exact ⟨rfl, rfl⟩

/-- **Where the parts of a transformed program come from.** -/
theorem comesFrom_of_transform (h : p.transform config = .ok (p', report)) {x : Part}
    (hx : x ∈ p'.parts) :
    x.ComesFrom p.parts (draws p.nextId (p.idsToTransform config.rules)) ∨
      x = .statement (config.rules.importStatement p.nextId) ∧
        p'.statements.head? = some (config.rules.importStatement p.nextId) := by
  obtain ⟨added, k, ss, s', hadds, hids, hwalk, rfl⟩ := exists_of_transform h
  have hrenews := Walk.renews_statements hwalk
  rw [hadds.idsToWalkAll_eq, Statement.partsAll_append] at hrenews
  rw [hids, draws_add]
  rcases hrenews.origin x hx with ⟨y, hy, hbare⟩ | ⟨hid, e, y, rfl, hy, hop, hspan⟩
  · rcases List.mem_append.1 hy with hy | hy
    · obtain ⟨rfl, rfl⟩ := hadds.eq_of_mem hy
      refine Or.inr ⟨eq_of_bare_import hbare, ?_⟩
      -- the import is the first statement, and a walk leaves it alone
      cases Walk.walksStatements_of_ok hwalk with
      | cons hfirst _ =>
        cases hfirst
        rfl
    · exact Or.inl (Or.inl ⟨y, hy, hbare⟩)
  · rcases List.mem_append.1 hy with hy | hy
    · cases (hadds.eq_of_mem hy).2
    · exact Or.inl (Or.inr ⟨List.mem_append_right _ hid, e, y, rfl, hy, hop, hspan⟩)

/-- What a transformation of `p` into `p'` leaves of the identities of `p`. -/
structure KeepsIdentity (rules : Rules) (p p' : Program) : Prop where
  nodup : p'.ids.Nodup
  below : ∀ i ∈ p'.ids, i < p'.nextId
  node : p'.node = p.node
  file : p'.file = p.file
  /-- A part with an old id is an old part with its node, its kind and its own fields. -/
  old : ∀ x ∈ p'.parts, x.id < p.nextId → ∃ y ∈ p.parts, y.bare = x.bare
  /-- An expression with a new id has the span of an old binary expression or call. -/
  made : ∀ e, .expression e ∈ p'.parts → p.nextId ≤ e.node.id →
    ∃ y, .expression y ∈ p.parts ∧ y.isOperation = true ∧ e.span = y.span
  /-- The one new statement, if there is any, is the import in front. -/
  added : ∀ st, .statement st ∈ p'.parts → p.nextId ≤ st.node.id →
    st = rules.importStatement p.nextId ∧ p'.statements.head? = some st
  declared : ∀ d, .declarator d ∈ p'.parts → d.node.id < p.nextId

/-- **Node identity survives a transformation**, whatever the rules and the policy, as long as the
counter of ids does not start again. -/
theorem keepsIdentity_transform (hnodup : p.ids.Nodup) (hbelow : ∀ i ∈ p.ids, i < p.nextId)
    (hsupply : Supplies p.nextId (p.idsToTransform config.rules))
    (h : p.transform config = .ok (p', report)) : KeepsIdentity config.rules p p' := by
  have hold : ∀ x ∈ p.parts, x.id < p.nextId := by
    intro x hx
    exact hbelow _ (List.mem_cons_of_mem _ (List.mem_map_of_mem hx))
  -- a part that is not made anew has an old id
  have hkept : ∀ {x : Part}, (∃ y ∈ p.parts, y.bare = x.bare) → x.id < p.nextId := by
    rintro x ⟨y, hy, hbare⟩
    have hid : y.id = x.id := congrArg Node.id (Part.node_eq_of_bare hbare)
    rw [← hid]
    exact hold y hy
  obtain ⟨hnext, huses⟩ := uses_transform h
  obtain ⟨hnode, hfile⟩ := node_of_transform h
  obtain ⟨hdistinct, hlast⟩ := hsupply.renew hnodup hbelow fun i => by
    have := huses i
    rw [count_ids p', count_ids p, hnode]
    omega
  rw [← hnext] at hlast
  refine ⟨hdistinct, hlast, hnode, hfile, ?_, ?_, ?_, ?_⟩
  · intro x hx hid
    rcases comesFrom_of_transform h hx with (hfrom | ⟨hnew, _⟩) | ⟨rfl, _⟩
    · exact hfrom
    · exact absurd hid (UInt32.not_lt.2 (hsupply.mem_iff.1 hnew).1)
    · exact absurd hid (UInt32.lt_irrefl _)
  · intro e he hid
    rcases comesFrom_of_transform h he with (hfrom | ⟨_, e', y, heq, hy⟩) | ⟨heq, _⟩
    · exact absurd (hkept hfrom) (UInt32.not_lt.2 hid)
    · cases heq
      exact ⟨y, hy⟩
    · cases heq
  · intro st hst hid
    rcases comesFrom_of_transform h hst with (hfrom | ⟨_, e, y, heq, _⟩) | ⟨heq, hhead⟩
    · exact absurd (hkept hfrom) (UInt32.not_lt.2 hid)
    · cases heq
    · cases heq
      exact ⟨rfl, hhead⟩
  · intro d hd
    rcases comesFrom_of_transform h hd with (hfrom | ⟨_, e, y, heq, _⟩) | ⟨heq, _⟩
    · exact hkept hfrom
    · cases heq
    · cases heq

/-- A module with arithmetic inside a call inside arithmetic, and some that cannot be lifted. -/
def nested : String := "const x = 1 + Math.sin(2 * 3)\nlog(x - 1, -4 / 2)"

theorem keepsIdentity_nested :
    ∃ p p' report, Program.parse nested "m.ts" = .ok p ∧ p.ids.Nodup ∧
      (∀ i ∈ p.ids, i < p.nextId) ∧ Supplies p.nextId (p.idsToTransform Rules.standard) ∧
      p.transform .standard = .ok (p', report) ∧
      report = ⟨.added, ⟨2, 0, 2⟩⟩ ∧ KeepsIdentity Rules.standard p p' := by
  -- the ids are checked along their list: there are too many words to go through
  have hread : (Program.parse nested "m.ts").toOption.any (fun p =>
      (p.ids.all (· < p.nextId) &&
        decide (p.ids.Nodup ∧ Supplies p.nextId (p.idsToTransform Rules.standard))) &&
        (p.transform .standard).toOption.any
          fun r => decide (r.2 = ⟨.added, ⟨2, 0, 2⟩⟩)) = true := by
    decide +kernel
  cases hp : Program.parse nested "m.ts" with
  | error e =>
    rw [hp] at hread
    cases hread
  | ok p =>
    rw [hp] at hread
    obtain ⟨hids, hdone⟩ := Bool.and_eq_true_iff.1 hread
    obtain ⟨hbelow, hids⟩ := Bool.and_eq_true_iff.1 hids
    replace hbelow : ∀ i ∈ p.ids, i < p.nextId := by simpa using hbelow
    obtain ⟨hnodup, hsupply⟩ := of_decide_eq_true hids
    cases h : p.transform .standard with
    | error e =>
      rw [h] at hdone
      cases hdone
    | ok r =>
      rw [h] at hdone
      exact ⟨p, r.1, r.2, rfl, hnodup, hbelow, hsupply, h, of_decide_eq_true hdone,
        keepsIdentity_transform hnodup hbelow hsupply h⟩

end Program

end DecimalLift
