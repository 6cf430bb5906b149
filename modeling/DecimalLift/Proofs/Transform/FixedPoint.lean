import DecimalLift.Host
import DecimalLift.Proofs.Transform.Idempotent

/-!
# A transformed tree is a fixed point

* `Program.tree` — a program without its next id.
* `Program.exists_transform_again` — a second transformation of a program.
* `Layer.loadThrough_cons` — a layer transforms what comes out of the layers inside it.
* `transform_fixed` — a second transformation keeps the tree and reports nothing done, so a second
  layer with the same configuration changes no tree that a host gives.
-/

set_option autoImplicit false

namespace DecimalLift

/-- The tree of a program, with all its nodes. The next id is set apart: a walk that keeps a tree may
still use up ids. -/
def Program.tree (p : Program) : Program := { p with nextId := 0 }

/-- A second transformation keeps the tree and reports nothing done. -/
theorem Program.exists_transform_again {config : Config}
    (hscopes : ∀ c ∈ config.rules.calls, c.scope ≠ config.rules.typeName) {p p₁ : Program}
    {report : TransformReport} (h : p.transform config = .ok (p₁, report)) :
    ∃ p₂ report', p₁.transform config = .ok (p₂, report') ∧ p₂.statements = p₁.statements ∧
      p₂.tree = p₁.tree ∧ report'.binding ≠ .added ∧ report'.counts.attached = 0 := by
  have hlifted := Program.lifted_of_transform hscopes h
  obtain ⟨nextId, report', heq, hadded, hattached⟩ := Program.exists_report_of_lifted hlifted
  exact ⟨_, report', heq, rfl, rfl, hadded, hattached⟩

namespace Layer

variable {store : Store} {file : String} {layer : Layer} {inner : List Layer}

/-- A layer transforms what comes out of the layers inside it. -/
theorem loadThrough_cons :
    (loadThrough store file (layer :: inner)).1 =
      (loadThrough store file inner).1.bind fun p =>
        (p.transform layer.config).map Prod.fst := by
  conv => lhs; unfold loadThrough
  rcases loadThrough store file inner with ⟨e | p, inner'⟩
  · rfl
  · cases htransform : p.transform layer.config with
    | error e => simp only [htransform, Except.bind, Except.map]
    | ok r => simp only [htransform, Except.bind, Except.map]

end Layer

/-- **A transformed tree is a fixed point.** A second transformation with the same configuration
succeeds with the same statements, adds no import and attaches nothing. So a second layer around a
layer with the same configuration changes neither a tree that a host gives nor an error. -/
theorem transform_fixed {config : Config}
    (hscopes : ∀ c ∈ config.rules.calls, c.scope ≠ config.rules.typeName) :
    (∀ p p₁ report, Program.transform config p = .ok (p₁, report) →
      ∃ p₂ report', p₁.transform config = .ok (p₂, report') ∧ p₂.statements = p₁.statements ∧
        p₂.tree = p₁.tree ∧ report'.binding ≠ .added ∧ report'.counts.attached = 0) ∧
    ∀ (store : Store) (inner : List Layer) (outer second : Layer) (file : String),
      outer.config = config → second.config = config →
        (Host.load ⟨store, second :: outer :: inner⟩ file).1.map Program.tree =
          (Host.load ⟨store, outer :: inner⟩ file).1.map Program.tree := by
  refine ⟨fun p p₁ report h => Program.exists_transform_again hscopes h, ?_⟩
  intro store inner outer second file houter hsecond
  show (Layer.loadThrough store file (second :: outer :: inner)).1.map Program.tree =
    (Layer.loadThrough store file (outer :: inner)).1.map Program.tree
  rw [Layer.loadThrough_cons, Layer.loadThrough_cons, houter, hsecond]
  cases (Layer.loadThrough store file inner).1 with
  | error e => rfl
  | ok p =>
    cases htransform : p.transform config with
    | error e => simp only [Except.bind, Except.map, htransform]
    | ok r =>
      obtain ⟨p₂, report', heq, _, htree, _⟩ := Program.exists_transform_again hscopes htransform
      simp only [Except.bind, Except.map, htransform, heq, htree]

theorem transform_fixed_threefold :
    (∀ c ∈ Config.escaped.rules.calls, c.scope ≠ Config.escaped.rules.typeName) ∧
    ∃ p report p' report',
      Program.parseTransformed .escaped Program.threefold "m.ts" = .ok (p, report) ∧
      report.counts.attached = 3 ∧ p.transform .escaped = .ok (p', report') ∧
      p'.statements = p.statements ∧ report'.binding ≠ .added ∧ report'.counts.attached = 0 := by
  have hscopes : ∀ c ∈ Config.escaped.rules.calls, c.scope ≠ Config.escaped.rules.typeName := by
    decide
  have hdone : (Program.parseTransformed .escaped Program.threefold "m.ts").toOption.any
      (fun r => decide (r.2.counts.attached = 3)) = true := by
    decide +kernel
  refine ⟨hscopes, ?_⟩
  unfold Program.parseTransformed at hdone ⊢
  cases hparse : Program.parse Program.threefold "m.ts" with
  | error e =>
    rw [hparse] at hdone
    cases hdone
  | ok q =>
    rw [hparse] at hdone
    cases htransform : q.transform .escaped with
    | error e =>
      simp only [htransform] at hdone
      cases hdone
    | ok r =>
      simp only [htransform] at hdone
      obtain ⟨p', report', heq, hstatements, _, hrest⟩ :=
        (transform_fixed hscopes).1 q r.1 r.2 htransform
      exact ⟨r.1, r.2, p', report', htransform, of_decide_eq_true hdone, heq, hstatements, hrest⟩

end DecimalLift
