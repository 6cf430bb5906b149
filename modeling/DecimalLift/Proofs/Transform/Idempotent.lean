import DecimalLift.Proofs.Binding
import DecimalLift.Proofs.Layout.Relabel
import DecimalLift.Proofs.Lift.Written
import DecimalLift.Proofs.RoundTrip.Source
import DecimalLift.Transform

/-!
# Transforming twice is transforming once

* `Program.Lifted` — what a transformation leaves: the type is bound, and no walk finds anything to
  lift or to refuse. `lifted_of_transform` says that it does, and `transform_of_lifted` that a
  second transformation then keeps every statement.
* `Program.written_of_transform` — a transformed program can be written.
* `lifted_of_relabel` — labels play no part in it, so that it survives printing and reading.
* `transformSource_idem` — the text of a transformed program is transformed to itself.
-/

set_option autoImplicit false

namespace DecimalLift

theorem Walk.WalksStatement.bindsName {config : Config} {rules : Rules} {st st' : Statement}
    (h : Walk.WalksStatement config st st') : st'.bindsName rules = st.bindsName rules := by
  cases h <;> rfl

theorem Walk.WalksStatements.any_bindsName {config : Config} {rules : Rules} :
    ∀ {ss ss' : List Statement}, Walk.WalksStatements config ss ss' →
      ss'.any (Statement.bindsName rules) = ss.any (Statement.bindsName rules)
  | _, _, .nil => rfl
  | _, _, .cons h hss => by rw [List.any_cons, List.any_cons, h.bindsName, hss.any_bindsName]

/-- The import that is added can be written: any module name can be spelt between quotes. -/
theorem Rules.written_importDeclaration {rules : Rules} (h : WrittenName rules.typeName) :
    rules.importDeclaration.Written where
  default := by
    rintro name ⟨⟩
    exact h
  scope := fun _ h => nomatch h
  named := fun _ h => nomatch h
  clause := Or.inl rfl
  module := TokenKind.spelt_escape rules.moduleName .double

namespace Program

variable {config : Config}

/-- What a transformation leaves. -/
structure Lifted (config : Config) (p : Program) : Prop where
  bound : p.statements.any (Statement.bindsName config.rules) = true
  stable : Statement.AllOf (Statement.Stable config) p.statements

/-- A transformation binds the type and walks the program that this gives. -/
theorem exists_walk_of_transform {p p' : Program} {report : TransformReport}
    (h : p.transform config = .ok (p', report)) :
    ∃ walked s', Walk.program config (p.bindType config.rules p.nextId).2.1
        (.start (p.bindType config.rules p.nextId).2.2) = .ok walked s' ∧
      p' = { walked with nextId := s'.nextId } := by
  unfold transform at h
  cases hwalk : Walk.program config (p.bindType config.rules p.nextId).2.1
      (.start (p.bindType config.rules p.nextId).2.2) with
  | error u s' =>
    simp only [hwalk] at h
    cases h
  | ok walked s' =>
    simp only [hwalk] at h
    cases h
    exact ⟨walked, s', rfl, rfl⟩

theorem walks_of_transform {p p' : Program} {report : TransformReport}
    (h : p.transform config = .ok (p', report)) :
    Walk.WalksStatements config (p.bindType config.rules p.nextId).2.1.statements
      p'.statements := by
  obtain ⟨walked, s', hwalk, rfl⟩ := exists_walk_of_transform h
  obtain ⟨ss, hss, rfl⟩ := Walk.walksProgram_of_ok hwalk
  exact hss

/-- Binding the type keeps what can be written. -/
theorem written_bindType {rules : Rules} (hrules : rules.Written) {p : Program}
    (h : Statement.AllOf Statement.Written p.statements) (nextId : UInt32) :
    Statement.AllOf Statement.Written (p.bindType rules nextId).2.1.statements := by
  cases hbound : p.statements.any (Statement.bindsName rules) with
  | true =>
    obtain ⟨outcome, -, heq⟩ := bindType_of_bound hbound nextId
    rw [heq]
    exact h
  | false =>
    rw [bindType_of_free hbound]
    exact ⟨⟨Rules.written_importDeclaration hrules.typeName, fun _ he => nomatch he⟩, h⟩

/-- **A transformed program can be written**, if the program could be. -/
theorem written_of_transform (hrules : config.rules.Written) {p p' : Program}
    {report : TransformReport} (h : p.transform config = .ok (p', report))
    (hwritten : Statement.AllOf Statement.Written p.statements) :
    Statement.AllOf Statement.Written p'.statements :=
  (walks_of_transform h).written hrules (written_bindType hrules hwritten _)

/-- **After a transformation there is nothing left to do.** -/
theorem lifted_of_transform
    (hscopes : ∀ c ∈ config.rules.calls, c.scope ≠ config.rules.typeName) {p p' : Program}
    {report : TransformReport} (h : p.transform config = .ok (p', report)) : p'.Lifted config := by
  have hwalks := walks_of_transform h
  exact ⟨hwalks.any_bindsName.trans (any_bindsName_bindType ..), hwalks.stable hscopes⟩

/-- What is reported where there is nothing left to do: nothing is added and nothing attached. -/
theorem exists_report_of_lifted {p : Program} (h : p.Lifted config) :
    ∃ nextId report, p.transform config = .ok ({ p with nextId := nextId }, report) ∧
      report.binding ≠ .added ∧ report.counts.attached = 0 := by
  obtain ⟨outcome, hadded, hbind⟩ := bindType_of_bound h.bound p.nextId
  obtain ⟨s', hwalk, hattached⟩ := Walk.program_of_stable h.stable (.start p.nextId)
  refine ⟨s'.nextId, ⟨outcome, s'.counts⟩, ?_, hadded, hattached⟩
  unfold transform
  rw [hbind]
  simp only [hwalk]

/-- **A transformation with nothing left to do keeps every statement.** -/
theorem transform_of_lifted {p : Program} (h : p.Lifted config) :
    ∃ nextId report, p.transform config = .ok ({ p with nextId := nextId }, report) := by
  obtain ⟨nextId, report, heq, -⟩ := exists_report_of_lifted h
  exact ⟨nextId, report, heq⟩

/-- Programs that differ in labels only are alike in what is left to do. -/
theorem lifted_of_relabel {c d : Relabel} {p q : Program}
    (heq : Statement.relabelAll c q.statements = Statement.relabelAll d p.statements)
    (h : p.Lifted config) : q.Lifted config := by
  constructor
  · rw [← Statement.any_bindsName_relabelAll c, heq, Statement.any_bindsName_relabelAll]
    exact h.bound
  · rw [← Statement.allOf_relabel (Statement.stable_relabel c), heq,
      Statement.allOf_relabel (Statement.stable_relabel d)]
    exact h.stable

/-- Programs that differ in labels only, and in none that is shown, have the same text. -/
theorem render_eq_of_relabel {o : LayoutOptions} {c d : Relabel} (hc : c.Faithful o)
    (hd : d.Faithful o) {p q : Program}
    (heq : Statement.relabelAll c q.statements = Statement.relabelAll d p.statements) :
    q.render o = p.render o := by
  have hpieces : (q.relabel c).pieces o = (p.relabel d).pieces o := by
    simp only [pieces, relabel, heq]
  calc q.render o = (q.relabel c).render o := (render_relabel hc q).symm
    _ = (p.relabel d).render o := congrArg Piece.render hpieces
    _ = p.render o := render_relabel hd p

end Program

theorem Relabel.faithful_erase (o : LayoutOptions) : Relabel.erase.Faithful o :=
  ⟨fun _ _ _ => rfl, fun _ => rfl⟩

theorem LayoutOptions.faithful_shown (o : LayoutOptions) : o.shown.Faithful o := by
  refine ⟨fun _ _ _ => rfl, fun type => ?_⟩
  cases type with
  | none => simp only [shown, ite_self]
  | some text =>
    cases htypes : o.ascriptions with
    | true => simp only [shown, htypes, if_true]
    | false => simp only [shown, ascriptionPieces, htypes, Bool.false_eq_true, if_false]

theorem transformSource_eq_ok {config : Config} {source file text : String} :
    transformSource config source file = .ok text ↔
      ∃ p p' report, Program.parse source file = .ok p ∧ p.transform config = .ok (p', report) ∧
        p'.render .typed = text := by
  unfold transformSource Program.parseTransformed
  cases hparse : Program.parse source file with
  | error e => simp [bind, Except.bind]
  | ok p =>
    cases htransform : p.transform config with
    | error e => simp [bind, Except.bind, htransform]
    | ok r =>
      obtain ⟨p', report⟩ := r
      simp [bind, Except.bind, pure, Except.pure, htransform]

/-- **The text of a transformed module is transformed to itself**, whatever the policy and under
whatever name it is read again. -/
theorem transformSource_idem {config : Config} (hcheck : config.rules.check = .ok ())
    (hwords : config.rules.AvoidsKeywords)
    (hscopes : ∀ c ∈ config.rules.calls, c.scope ≠ config.rules.typeName)
    {source file text : String}
    (honce : ∀ p, Program.parse source file = .ok p → p.AllExpressions Expression.TrailsOnce)
    (h : transformSource config source file = .ok text) (file' : String) :
    transformSource config text file' = .ok text := by
  obtain ⟨p, p', report, hparse, htransform, rfl⟩ := transformSource_eq_ok.1 h
  have hrules := Rules.written_of_check hcheck hwords
  have hwritten := Program.written_of_transform hrules htransform
    (Program.written hparse (honce p hparse))
  have hlifted := Program.lifted_of_transform hscopes htransform
  -- What the text is read as differs from the transformed program in labels that are not shown.
  obtain ⟨q, hq, -, hsame⟩ := Program.exists_parse_render hwritten .typed file'
  obtain ⟨nextId, report', hagain⟩ :=
    Program.transform_of_lifted (Program.lifted_of_relabel hsame hlifted)
  refine transformSource_eq_ok.2 ⟨q, _, report', hq, hagain, ?_⟩
  exact Program.render_eq_of_relabel (Relabel.faithful_erase _) (LayoutOptions.faithful_shown _)
    hsame

/-- The standard rules with a module whose name has to be escaped, and the strict policy. -/
def Config.escaped : Config := ⟨{ Rules.standard with moduleName := "a \"b\"\\" }, .strict⟩

/-- A module with three expressions to lift, one of them inside another. -/
def Program.threefold : String := "const x = 1 + Math.sin(2 * 3)\nlog(-x, 'it\\'s', 4 / 2)"

theorem transformSource_idem_threefold :
    ∃ p, Program.parseTransformed .escaped Program.threefold "m.ts" =
        .ok (p, ⟨.added, ⟨3, 0, 0⟩⟩) ∧
      transformSource .escaped (p.render .typed) "m.ts" = .ok (p.render .typed) := by
  have hdone : (Program.parseTransformed .escaped Program.threefold "m.ts").toOption.any
      (fun r => decide (r.2 = ⟨.added, ⟨3, 0, 0⟩⟩)) = true := by
    decide +kernel
  have hread : (Program.parse Program.threefold "m.ts").toOption.all
      (fun p => decide (p.AllExpressions Expression.TrailsOnce)) = true := by
    decide +kernel
  have honce : ∀ p, Program.parse Program.threefold "m.ts" = .ok p →
      p.AllExpressions Expression.TrailsOnce := by
    intro p hp
    rw [hp] at hread
    exact of_decide_eq_true hread
  have hwords : Config.escaped.rules.AvoidsKeywords := ⟨by decide, by decide, by decide⟩
  cases h : Program.parseTransformed .escaped Program.threefold "m.ts" with
  | error e =>
    rw [h] at hdone
    cases hdone
  | ok r =>
    obtain ⟨p, report⟩ := r
    rw [h] at hdone
    obtain rfl : report = ⟨.added, ⟨3, 0, 0⟩⟩ := of_decide_eq_true hdone
    have hsource : transformSource .escaped Program.threefold "m.ts" = .ok (p.render .typed) := by
      unfold transformSource
      rw [h]
      rfl
    exact ⟨p, rfl, transformSource_idem rfl hwords (by decide) honce hsource "m.ts"⟩

end DecimalLift
