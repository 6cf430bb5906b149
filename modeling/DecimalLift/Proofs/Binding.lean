import DecimalLift.Binding
import DecimalLift.Proofs.Tree.Statement

/-!
# When the decimal type is bound

* `Statement.bindsName` — the statement is an import that binds the name of the type.
* `Program.bindType_of_bound`, `Program.bindType_of_free` — a program with such a statement at its
  top level is kept, and an import is added to every other one.
* `ImportDeclaration.Binds`, `Program.Owns`, `Program.TakenBy` — who binds the name, said without
  running anything.
* `Program.bindTypes_of_bound` — on a program that binds the name, further runs do nothing.
* `Program.bindType_settles` — what is decided, what is changed, and that one run is enough.
-/

set_option autoImplicit false

namespace DecimalLift

variable {rules : Rules}

namespace Statement

/-- Whether a statement is an import that binds the name of the decimal type. -/
def bindsName (rules : Rules) : Statement → Bool
  | .imports _ d => d.bindsName rules
  | _ => false

theorem bindsName_relabel (c : Relabel) (st : Statement) :
    (st.relabel c).bindsName rules = st.bindsName rules := by
  cases st <;> simp only [relabel, bindsName]
  rfl

theorem any_bindsName_relabelAll (c : Relabel) (ss : List Statement) :
    (relabelAll c ss).any (bindsName rules) = ss.any (bindsName rules) := by
  induction ss with
  | nil => rfl
  | cons st ss ih => simp only [relabelAll, List.any_cons, bindsName_relabel, ih]

end Statement

namespace Program

/-- A name that is bound is bound by the type's own module or taken by another one. -/
theorem bindsType_or_takesName {n : Node} {d : ImportDeclaration} (h : d.bindsName rules = true) :
    d.bindsType rules = true ∨ (takesName? rules (.imports n d)).isSome = true := by
  cases hmodule : d.moduleName == rules.moduleName with
  | true => exact Or.inl (by simp only [ImportDeclaration.bindsType, hmodule, h, Bool.and_self])
  | false =>
    refine Or.inr ?_
    simp only [takesName?, bne, hmodule, h, Bool.not_false, Bool.and_self, if_true,
      Option.isSome_some]

theorem bindsName_of_takesName {st : Statement} {found : String × Location}
    (h : takesName? rules st = some found) : st.bindsName rules = true := by
  cases st with
  | imports n d =>
    simp only [takesName?] at h
    split at h
    · rename_i htaken
      exact (Bool.and_eq_true_iff.1 htaken).2
    · cases h
  | _ => cases h

theorem mem_importDeclarations {p : Program} {d : ImportDeclaration} :
    d ∈ p.importDeclarations ↔ ∃ n, Statement.imports n d ∈ p.statements := by
  unfold importDeclarations
  rw [List.mem_filterMap]
  constructor
  · rintro ⟨st, hst, heq⟩
    cases st with
    | imports n d' =>
      cases heq
      exact ⟨n, hst⟩
    | _ => cases heq
  · rintro ⟨n, hst⟩
    exact ⟨_, hst, rfl⟩

/-- **A program that binds the name is kept.** -/
theorem bindType_of_bound {p : Program} (h : p.statements.any (Statement.bindsName rules) = true)
    (nextId : UInt32) :
    ∃ outcome, outcome ≠ .added ∧ p.bindType rules nextId = (outcome, p, nextId) := by
  unfold bindType
  by_cases hown : p.bindsType rules = true
  · rw [if_pos hown]
    exact ⟨.present, nofun, rfl⟩
  · rw [if_neg hown]
    cases hfind : p.statements.findSome? (takesName? rules) with
    | some found => exact ⟨.taken found.1 found.2, nofun, rfl⟩
    | none =>
      obtain ⟨st, hst, hname⟩ := List.any_eq_true.1 h
      cases st with
      | imports n d =>
        rcases bindsType_or_takesName (n := n) hname with htype | htaken
        · exact absurd (List.any_eq_true.2 ⟨d, mem_importDeclarations.2 ⟨n, hst⟩, htype⟩) hown
        · -- another module has the name, and the search would have found it
          rw [List.findSome?_eq_none_iff.1 hfind _ hst] at htaken
          cases htaken
      | _ => cases hname

/-- **To a program that does not bind the name, the import of the type is added in front.** -/
theorem bindType_of_free {p : Program} (h : p.statements.any (Statement.bindsName rules) = false)
    (nextId : UInt32) :
    p.bindType rules nextId =
      (.added,
        { p with
          statements := .imports ⟨nextId, .synthesized⟩ rules.importDeclaration :: p.statements },
        nextId + 1) := by
  have hnone : ∀ st ∈ p.statements, ¬ st.bindsName rules = true := by
    intro st hst hname
    exact Bool.false_ne_true (h.symm.trans (List.any_eq_true.2 ⟨st, hst, hname⟩))
  have hown : ¬ p.bindsType rules = true := by
    intro hown
    obtain ⟨d, hd, htype⟩ := List.any_eq_true.1 hown
    obtain ⟨n, hst⟩ := mem_importDeclarations.1 hd
    exact hnone _ hst (Bool.and_eq_true_iff.1 htype).2
  have hfind : p.statements.findSome? (takesName? rules) = none := by
    refine List.findSome?_eq_none_iff.2 fun st hst => ?_
    cases htaken : takesName? rules st with
    | none => rfl
    | some found => exact absurd (bindsName_of_takesName htaken) (hnone st hst)
  unfold bindType
  rw [if_neg hown, hfind]

/-- The added import binds the name of the type. -/
theorem bindsName_importDeclaration (rules : Rules) :
    rules.importDeclaration.bindsName rules = true := by
  simp [ImportDeclaration.bindsName, ImportDeclaration.boundNames, Rules.importDeclaration]

/-- In the program that binding the type gives, its name is bound. -/
theorem any_bindsName_bindType (rules : Rules) (p : Program) (nextId : UInt32) :
    (p.bindType rules nextId).2.1.statements.any (Statement.bindsName rules) = true := by
  cases hbound : p.statements.any (Statement.bindsName rules) with
  | true =>
    obtain ⟨outcome, -, heq⟩ := bindType_of_bound hbound nextId
    rw [heq]
    exact hbound
  | false =>
    rw [bindType_of_free hbound]
    simp only [List.any_cons, Statement.bindsName, bindsName_importDeclaration, Bool.true_or]

end Program

/-! ## Who binds the name -/

/-- The declaration binds a name: as its default, as a namespace, or as a named import. -/
def ImportDeclaration.Binds (d : ImportDeclaration) (name : String) : Prop :=
  d.defaultBinding = some name ∨ d.namespaceBinding = some name ∨ ∃ x ∈ d.named, x.bound = name

instance (d : ImportDeclaration) (name : String) : Decidable (d.Binds name) :=
  inferInstanceAs (Decidable
    (d.defaultBinding = some name ∨ d.namespaceBinding = some name ∨ ∃ x ∈ d.named, x.bound = name))

theorem ImportDeclaration.bindsName_iff {d : ImportDeclaration} :
    d.bindsName rules = true ↔ d.Binds rules.typeName := by
  simp [bindsName, boundNames, Binds]

namespace Program

/-- An import from the module of the type binds its name. -/
def Owns (rules : Rules) (p : Program) : Prop :=
  ∃ n d, .imports n d ∈ p.statements ∧ d.moduleName = rules.moduleName ∧ d.Binds rules.typeName

/-- The first import from another module that binds the name of the type. -/
def TakenBy (rules : Rules) (p : Program) (n : Node) (d : ImportDeclaration) : Prop :=
  d.moduleName ≠ rules.moduleName ∧ d.Binds rules.typeName ∧
    ∃ before after, p.statements = before ++ .imports n d :: after ∧
      ∀ n' d', .imports n' d' ∈ before → d'.moduleName ≠ rules.moduleName → ¬ d'.Binds rules.typeName

/-- How many imports bind the name of the type. -/
def bindings (rules : Rules) (p : Program) : Nat :=
  p.importDeclarations.countP fun d => decide (d.Binds rules.typeName)

variable {p : Program}

theorem bindsType_iff : p.bindsType rules = true ↔ p.Owns rules := by
  unfold bindsType Owns
  rw [List.any_eq_true]
  constructor
  · rintro ⟨d, hd, htype⟩
    obtain ⟨n, hst⟩ := mem_importDeclarations.1 hd
    obtain ⟨hmodule, hname⟩ := Bool.and_eq_true_iff.1 htype
    exact ⟨n, d, hst, beq_iff_eq.1 hmodule, ImportDeclaration.bindsName_iff.1 hname⟩
  · rintro ⟨n, d, hst, hmodule, hname⟩
    refine ⟨d, mem_importDeclarations.2 ⟨n, hst⟩, Bool.and_eq_true_iff.2 ⟨?_, ?_⟩⟩
    · exact beq_iff_eq.2 hmodule
    · exact ImportDeclaration.bindsName_iff.2 hname

theorem takesName?_imports {n : Node} {d : ImportDeclaration} :
    takesName? rules (.imports n d) =
      if d.moduleName ≠ rules.moduleName ∧ d.Binds rules.typeName then
        some (d.moduleName, n.span.start)
      else none := by
  simp [takesName?, ImportDeclaration.bindsName_iff]

/-- The search finds the first import from another module that binds the name. -/
theorem findSome?_takesName?_eq_some {moduleName : String} {location : Location} :
    p.statements.findSome? (takesName? rules) = some (moduleName, location) ↔
      ∃ n d, p.TakenBy rules n d ∧ moduleName = d.moduleName ∧ location = n.span.start := by
  rw [List.findSome?_eq_some_iff]
  constructor
  · rintro ⟨before, st, after, hsplit, htakes, hbefore⟩
    cases st with
    | imports n d =>
      rw [takesName?_imports] at htakes
      split at htakes
      · rename_i htaken
        cases htakes
        refine ⟨n, d, ⟨htaken.1, htaken.2, before, after, hsplit, ?_⟩, rfl, rfl⟩
        intro n' d' hmem hmodule hname
        have hnone := hbefore _ hmem
        rw [takesName?_imports, if_pos ⟨hmodule, hname⟩] at hnone
        cases hnone
      · cases htakes
    | _ => cases htakes
  · rintro ⟨n, d, ⟨hmodule, hname, before, after, hsplit, hbefore⟩, rfl, rfl⟩
    refine ⟨before, _, after, hsplit, ?_, ?_⟩
    · rw [takesName?_imports, if_pos ⟨hmodule, hname⟩]
    · intro st hst
      cases st with
      | imports n' d' =>
        rw [takesName?_imports, if_neg fun h => hbefore n' d' hst h.1 h.2]
      | _ => rfl

theorem findSome?_takesName?_eq_none :
    p.statements.findSome? (takesName? rules) = none ↔ ¬ ∃ n d, p.TakenBy rules n d := by
  rw [Option.eq_none_iff_forall_ne_some]
  constructor
  · rintro h ⟨n, d, htaken⟩
    exact h _ (findSome?_takesName?_eq_some.2 ⟨n, d, htaken, rfl, rfl⟩)
  · rintro h ⟨moduleName, location⟩ hfind
    obtain ⟨n, d, htaken, -⟩ := findSome?_takesName?_eq_some.1 hfind
    exact h ⟨n, d, htaken⟩

/-- The import that the search finds is one, as far as its answer goes. -/
theorem TakenBy.unique {n n' : Node} {d d' : ImportDeclaration} (h : p.TakenBy rules n d)
    (h' : p.TakenBy rules n' d') :
    d.moduleName = d'.moduleName ∧ n.span.start = n'.span.start := by
  have hfind := findSome?_takesName?_eq_some.2 ⟨n, d, h, rfl, rfl⟩
  have hfind' := findSome?_takesName?_eq_some.2 ⟨n', d', h', rfl, rfl⟩
  rw [hfind, Option.some.injEq, Prod.mk.injEq] at hfind'
  exact hfind'

/-- The program with the import of the type in front. -/
def withImport (rules : Rules) (p : Program) (nextId : UInt32) : Program :=
  { p with
    statements := .imports ⟨nextId, .synthesized⟩ rules.importDeclaration :: p.statements }

/-- The three things that can happen, and when. -/
theorem bindType_cases (rules : Rules) (p : Program) (nextId : UInt32) :
    (p.Owns rules ∧ p.bindType rules nextId = (.present, p, nextId)) ∨
    (¬ p.Owns rules ∧ ∃ n d, p.TakenBy rules n d ∧
      p.bindType rules nextId = (.taken d.moduleName n.span.start, p, nextId)) ∨
    (¬ p.Owns rules ∧ (¬ ∃ n d, p.TakenBy rules n d) ∧
      p.bindType rules nextId = (.added, p.withImport rules nextId, nextId + 1)) := by
  unfold bindType
  by_cases hown : p.Owns rules
  · rw [if_pos (bindsType_iff.2 hown)]
    exact Or.inl ⟨hown, rfl⟩
  rw [if_neg (mt bindsType_iff.1 hown)]
  cases hfind : p.statements.findSome? (takesName? rules) with
  | some found =>
    obtain ⟨n, d, htaken, hmodule, hlocation⟩ := findSome?_takesName?_eq_some.1 hfind
    refine Or.inr (Or.inl ⟨hown, n, d, htaken, ?_⟩)
    rw [← hmodule, ← hlocation]
  | none => exact Or.inr (Or.inr ⟨hown, findSome?_takesName?_eq_none.1 hfind, rfl⟩)

theorem any_bindsName_iff :
    p.statements.any (Statement.bindsName rules) = true ↔
      p.Owns rules ∨ ∃ n d, p.TakenBy rules n d := by
  constructor
  · intro h
    obtain ⟨outcome, hadded, hbind⟩ := bindType_of_bound h 0
    rcases bindType_cases rules p 0 with ⟨hown, -⟩ | ⟨-, n, d, htaken, -⟩ | ⟨-, -, hfree⟩
    · exact Or.inl hown
    · exact Or.inr ⟨n, d, htaken⟩
    · rw [hbind] at hfree
      exact absurd (congrArg Prod.fst hfree) hadded
  · rintro (⟨n, d, hst, -, hname⟩ | ⟨n, d, -, hname, before, after, hsplit, -⟩)
    · exact List.any_eq_true.2 ⟨_, hst, ImportDeclaration.bindsName_iff.2 hname⟩
    · refine List.any_eq_true.2 ⟨.imports n d, ?_, ImportDeclaration.bindsName_iff.2 hname⟩
      rw [hsplit]
      exact List.mem_append_right _ List.mem_cons_self

/-! ## How often the name is bound -/

theorem bindings_pos_iff :
    0 < p.bindings rules ↔ p.statements.any (Statement.bindsName rules) = true := by
  unfold bindings
  rw [List.countP_pos_iff, List.any_eq_true]
  constructor
  · rintro ⟨d, hd, hbinds⟩
    obtain ⟨n, hst⟩ := mem_importDeclarations.1 hd
    exact ⟨_, hst, ImportDeclaration.bindsName_iff.2 (of_decide_eq_true hbinds)⟩
  · rintro ⟨st, hst, hname⟩
    cases st with
    | imports n d =>
      exact ⟨d, mem_importDeclarations.2 ⟨n, hst⟩,
        decide_eq_true (ImportDeclaration.bindsName_iff.1 hname)⟩
    | _ => cases hname

theorem bindings_withImport (nextId : UInt32) :
    (p.withImport rules nextId).bindings rules = p.bindings rules + 1 := by
  have himport : decide (rules.importDeclaration.Binds rules.typeName) = true :=
    decide_eq_true (ImportDeclaration.bindsName_iff.1 (bindsName_importDeclaration rules))
  exact List.countP_cons_of_pos himport

/-- **A name that is bound at most once is bound exactly once afterwards.** -/
theorem bindings_bindType (nextId : UInt32) (hle : p.bindings rules ≤ 1) :
    (p.bindType rules nextId).2.1.bindings rules = 1 := by
  have hpos := bindings_pos_iff.2 (any_bindsName_bindType rules p nextId)
  rcases bindType_cases rules p nextId with
    ⟨-, heq⟩ | ⟨-, n, d, -, heq⟩ | ⟨hown, hfree, heq⟩ <;> rw [heq] at hpos ⊢
  · exact Nat.le_antisymm hle hpos
  · exact Nat.le_antisymm hle hpos
  · have hzero : ¬ 0 < p.bindings rules := fun h =>
      (any_bindsName_iff.1 (bindings_pos_iff.1 h)).elim hown hfree
    show (p.withImport rules nextId).bindings rules = 1
    rw [bindings_withImport]
    omega

/-! ## One run is enough -/

/-- Binds the type `k` times, run after run: the outcomes, the last program, the next id. -/
def bindTypes (rules : Rules) : Nat → Program → UInt32 →
    List BindingOutcome × Program × UInt32
  | 0, p, nextId => ([], p, nextId)
  | k + 1, p, nextId =>
    let (outcome, bound, next) := p.bindType rules nextId
    let (outcomes, last, next) := bindTypes rules k bound next
    (outcome :: outcomes, last, next)

theorem bindType_outcome (rules : Rules) (p : Program) (i j : UInt32) :
    (p.bindType rules i).1 = (p.bindType rules j).1 := by
  unfold bindType
  split
  · rfl
  · split <;> rfl

/-- **On a program that binds the name, any number of runs do nothing**, whatever the ids. -/
theorem bindTypes_of_bound (h : p.statements.any (Statement.bindsName rules) = true) :
    ∃ outcome, outcome ≠ .added ∧
      ∀ k i, bindTypes rules k p i = (List.replicate k outcome, p, i) := by
  obtain ⟨outcome, hadded, hzero⟩ := bindType_of_bound h 0
  have hstep : ∀ i, p.bindType rules i = (outcome, p, i) := by
    intro i
    obtain ⟨outcome', -, hi⟩ := bindType_of_bound h i
    have houtcome : outcome' = outcome := by
      simpa only [hi, hzero] using bindType_outcome rules p i 0
    rw [hi, houtcome]
  refine ⟨outcome, hadded, fun k => ?_⟩
  induction k with
  | zero => exact fun i => rfl
  | succ k ih =>
    intro i
    rw [bindTypes, hstep]
    simp only [ih]
    rfl

/-- What binding the type does with a program, and that it does it once. -/
structure Settles (rules : Rules) (p : Program) (nextId : UInt32) (outcome : BindingOutcome)
    (bound : Program) (next : UInt32) : Prop where
  present_iff : outcome = .present ↔ p.Owns rules
  taken_iff : ∀ moduleName location, outcome = .taken moduleName location ↔
    ¬ p.Owns rules ∧
      ∃ n d, p.TakenBy rules n d ∧ moduleName = d.moduleName ∧ location = n.span.start
  added_iff : outcome = .added ↔ ¬ p.Owns rules ∧ ¬ ∃ n d, p.TakenBy rules n d
  kept : outcome ≠ .added → bound = p ∧ next = nextId
  extended : outcome = .added → bound = p.withImport rules nextId ∧ next = nextId + 1
  /-- Further runs, from any id on, change nothing and add nothing. -/
  settled : ∃ again, again ≠ .added ∧
    ∀ k i, bindTypes rules k bound i = (List.replicate k again, bound, i)
  once : p.bindings rules ≤ 1 → bound.bindings rules = 1

/-- **Binding the type decides by who binds its name, and settles the program in one run.** -/
theorem bindType_settles (rules : Rules) (p : Program) (nextId : UInt32) :
    Settles rules p nextId (p.bindType rules nextId).1 (p.bindType rules nextId).2.1
      (p.bindType rules nextId).2.2 := by
  have hsettled := bindTypes_of_bound (any_bindsName_bindType rules p nextId)
  have honce : p.bindings rules ≤ 1 → (p.bindType rules nextId).2.1.bindings rules = 1 :=
    bindings_bindType nextId
  rcases bindType_cases rules p nextId with
    ⟨hown, heq⟩ | ⟨hown, n, d, htaken, heq⟩ | ⟨hown, hfree, heq⟩ <;>
    rw [heq] at hsettled honce ⊢
  · exact {
      present_iff := iff_of_true rfl hown
      taken_iff := fun _ _ => iff_of_false nofun fun h => h.1 hown
      added_iff := iff_of_false nofun fun h => h.1 hown
      kept := fun _ => ⟨rfl, rfl⟩
      extended := nofun
      settled := hsettled
      once := honce }
  · refine {
      present_iff := iff_of_false nofun hown
      taken_iff := fun moduleName location => ⟨fun h => ?_, ?_⟩
      added_iff := iff_of_false nofun fun h => h.2 ⟨n, d, htaken⟩
      kept := fun _ => ⟨rfl, rfl⟩
      extended := nofun
      settled := hsettled
      once := honce }
    · cases h
      exact ⟨hown, n, d, htaken, rfl, rfl⟩
    · rintro ⟨-, n', d', htaken', rfl, rfl⟩
      obtain ⟨hmodule, hstart⟩ := htaken.unique htaken'
      rw [hmodule, hstart]
  · exact {
      present_iff := iff_of_false nofun hown
      taken_iff := fun _ _ => iff_of_false nofun fun ⟨_, n, d, htaken, _⟩ => hfree ⟨n, d, htaken⟩
      added_iff := iff_of_true rfl ⟨hown, hfree⟩
      kept := fun h => absurd rfl h
      extended := fun _ => ⟨rfl, rfl⟩
      settled := hsettled
      once := honce }

end Program

end DecimalLift
