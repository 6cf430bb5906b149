import DecimalLift.Proofs.Compilation

/-!
# Transforming a text and compiling a file agree

A text can be transformed to a text with its ascriptions, which is read again later, or its file can
be compiled, which lays the transformed tree out at once.

* `Program.render_again` — what a text with ascriptions is read as has the same text without them.
* `transformSource_compile` — both ways fail together, and lead to the same text.
-/

set_option autoImplicit false

namespace DecimalLift

theorem transformSource_eq_error {config : Config} {source file : String} {e : TransformError} :
    transformSource config source file = .error e ↔
      Program.parseTransformed config source file = .error e := by
  unfold transformSource
  cases Program.parseTransformed config source file with
  | error e' => simp [bind, Except.bind]
  | ok r => simp [bind, Except.bind, pure, Except.pure]

/-- Ascriptions that are kept do no harm to a layout without them. -/
theorem LayoutOptions.faithful_shown_typed (o : LayoutOptions) : (shown .typed).Faithful o :=
  ⟨fun _ _ _ => rfl, fun _ => rfl⟩

namespace Program

/-- **Reading the text of a program with ascriptions** gives a program with the same text without
them. -/
theorem render_again {p : Program} (h : Statement.AllOf Statement.Written p.statements)
    (file : String) (o : LayoutOptions) :
    ∃ q, Program.parse (p.render .typed) file = .ok q ∧ q.render o = p.render o := by
  obtain ⟨q, hq, -, hsame⟩ := exists_parse_render h .typed file
  exact ⟨q, hq, render_eq_of_relabel (Relabel.faithful_erase o)
    (LayoutOptions.faithful_shown_typed o) hsame⟩

end Program

/-- **Transforming a text and compiling a file agree.** A text is transformed with an error exactly
if loading it through a host fails with that error. If it is transformed to `text`, then compiling
the file as the only root writes what `text` is read as, without ascriptions. -/
theorem transformSource_compile {config : Config} (hcheck : config.rules.check = .ok ())
    (hwords : config.rules.AvoidsKeywords) {source file : String}
    (honce : ∀ p, Program.parse source file = .ok p → p.AllExpressions Expression.TrailsOnce)
    {t : FileTable} (hsource : t.get? file = some source) (outDir : Option String) :
    (∀ e, transformSource config source file = .error e ↔
      ((Host.ofTable config t).load file).1 = .error e) ∧
    ∀ text, transformSource config source file = .ok text → ∀ name, ∃ q emit t',
      Program.parse text name = .ok q ∧
      (Host.ofTable config t).compile outDir [file] = (emit, Host.ofTable config t') ∧
      emit.exitCode = 0 ∧ emit.emitted = [Path.outputName outDir file] ∧
      t'.get? (Path.outputName outDir file) = some (q.render .untyped) := by
  have hfile : t.transformed config file = Program.parseTransformed config source file := by
    simp only [FileTable.transformed, hsource]
  constructor
  · intro e
    rw [transformSource_eq_error, ← hfile, Host.load_ofTable]
    cases t.transformed config file with
    | error e' => simp
    | ok r => simp
  · intro text htext name
    obtain ⟨p, p', report, hparse, htransform, rfl⟩ := transformSource_eq_ok.1 htext
    have hrules := Rules.written_of_check hcheck hwords
    have hwritten := Program.written_of_transform hrules htransform
      (Program.written hparse (honce p hparse))
    obtain ⟨q, hq, hsame⟩ := Program.render_again hwritten name .untyped
    have hloaded : t.transformed config file = .ok (p', report) := by
      simp only [hfile, Program.parseTransformed, hparse, htransform]
    have hclean : Host.Clean config t outDir [file] := by
      refine ⟨fun root hroot => ?_, by simp⟩
      obtain rfl := List.mem_singleton.1 hroot
      exact FileTable.loads_eq_true.2 ⟨p', report, hloaded⟩
    refine ⟨q, _, _, hq, Host.compile_of_clean hclean, Host.exitCode_of_clean hclean _, rfl, ?_⟩
    rw [Host.get?_output hclean List.mem_cons_self hloaded, hsame]

/-- A module with ascriptions on a variable, a parameter and a function. -/
def Program.ascribed : String :=
  "const x: A<B> = 1 + 2\nexport function f(y: number): void \x7b log(y, 'it\\'s', 4 / 2) \x7d"

theorem transformSource_compile_ascribed :
    Config.escaped.rules.check = .ok () ∧ Config.escaped.rules.AvoidsKeywords ∧
    ∃ text q emit t', transformSource .escaped Program.ascribed "m.ts" = .ok text ∧
      Program.parse text "m.ts" = .ok q ∧
      (Host.ofTable .escaped (.ofList [("m.ts", Program.ascribed)])).compile (some "out") ["m.ts"] =
        (emit, Host.ofTable .escaped t') ∧
      emit.exitCode = 0 ∧ emit.emitted = ["out/m.js"] ∧
      t'.get? "out/m.js" = some (q.render .untyped) := by
  have hwords : Config.escaped.rules.AvoidsKeywords := ⟨by decide, by decide, by decide⟩
  have hdone : (transformSource .escaped Program.ascribed "m.ts").toOption.isSome = true := by
    decide +kernel
  have hread : (Program.parse Program.ascribed "m.ts").toOption.all
      (fun p => decide (p.AllExpressions Expression.TrailsOnce)) = true := by
    decide +kernel
  have honce : ∀ p, Program.parse Program.ascribed "m.ts" = .ok p →
      p.AllExpressions Expression.TrailsOnce := by
    intro p hp
    rw [hp] at hread
    exact of_decide_eq_true hread
  have hname : Path.outputName (some "out") "m.ts" = "out/m.js" := by decide +kernel
  cases htext : transformSource .escaped Program.ascribed "m.ts" with
  | error e =>
    rw [htext] at hdone
    cases hdone
  | ok text =>
    obtain ⟨q, emit, t', hq, hcompile, hexit, hemitted, hget⟩ :=
      (transformSource_compile rfl hwords honce (t := .ofList [("m.ts", Program.ascribed)])
        (by decide +kernel) (some "out")).2 text htext "m.ts"
    rw [hname] at hemitted hget
    exact ⟨rfl, hwords, text, q, emit, t', rfl, hq, hcompile, hexit, hemitted, hget⟩

end DecimalLift
