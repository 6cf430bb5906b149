import DecimalLift.Proofs.Compilation

/-!
# The order of the roots does not matter

* `Diagnostic.IsCollision` — the message is about an output that two files claim.
* `FileTable.not_isCollision` — no message about loading a file is one of those.
* `Host.clean_perm`, `Host.get?_perm` — whether all is well with the roots, and what a name holds
  afterwards, do not depend on their order.
* `compile_perm` — two compilations of the same roots differ in the order of what they list, and in
  which file a collision names.
-/

set_option autoImplicit false

namespace DecimalLift

/-! ## Collisions and other messages -/

/-- The message is about an output that two files claim. -/
def Diagnostic.IsCollision (d : Diagnostic) : Prop :=
  ∃ output first second, d = collision output first second

theorem Diagnostic.IsCollision.location {d : Diagnostic} (h : d.IsCollision) :
    d.location = none := by
  obtain ⟨output, first, second, rfl⟩ := h
  rfl

theorem isCollision_of_mem_clashes {output : String → String} {files : List String}
    {d : Diagnostic} (h : d ∈ clashes output files) : d.IsCollision := by
  obtain ⟨entry, -, h⟩ := List.mem_filterMap.1 h
  obtain ⟨first, -, rfl⟩ := Option.map_eq_some_iff.1 h
  exact ⟨_, _, _, rfl⟩

/-- Errors of a reader have a place. -/
theorem Program.location_of_parse {source file : String} {e : SourceError}
    (h : Program.parse source file = .error e) : e.location? ≠ none := by
  unfold Program.parse ParserState.ofSource at h
  cases htokens : tokenize source file with
  | error fault =>
    rw [htokens] at h
    cases h
    exact nofun
  | ok tokens =>
    rw [htokens] at h
    replace h : Parse.program.value (.ofTokens tokens file) = .error e := h
    unfold Parse.value at h
    split at h
    · cases h
    · cases h
      exact nofun

/-- Errors of a transformation have a place. -/
theorem Program.location_of_transform {config : Config} {p : Program} {e : TransformError}
    (h : p.transform config = .error e) : e.toDiagnostic.location ≠ none := by
  unfold Program.transform at h
  cases hwalk : Walk.program config (p.bindType config.rules p.nextId).2.1
      (.start (p.bindType config.rules p.nextId).2.2) with
  | ok walked s' =>
    simp only [hwalk] at h
    cases h
  | error u s' =>
    simp only [hwalk] at h
    cases h
    exact nofun

namespace FileTable

variable {config : Config} {t : FileTable} {file : String}

/-- A file that is not there is reported as one that cannot be read. -/
theorem not_isCollision_unreadable (file cause : String) :
    ¬ (Store.unreadable file cause).toDiagnostic.IsCollision := by
  rintro ⟨output, first, second, h⟩
  have hmessage := congrArg (fun d => d.message.toList) h
  simp [Store.unreadable, SourceError.toDiagnostic, SourceError.message, Diagnostic.error,
    collision] at hmessage

/-- **No message about loading a file is a collision.** -/
theorem not_isCollision {d : Diagnostic} (h : d ∈ t.messages config file) : ¬ d.IsCollision := by
  unfold messages at h
  cases hfile : t.transformed config file with
  | ok r =>
    rw [hfile] at h
    rintro ⟨output, first, second, rfl⟩
    -- the only message is a warning, and a collision is an error
    obtain ⟨p, ⟨binding, counts⟩⟩ := r
    cases binding with
    | taken moduleName location => cases List.mem_singleton.1 h
    | _ => cases h
  | error e =>
    rw [hfile] at h
    obtain rfl := List.mem_singleton.1 h
    unfold transformed Program.parseTransformed at hfile
    cases hget : t.get? file with
    | none =>
      rw [hget] at hfile
      cases hfile
      exact not_isCollision_unreadable file "not found"
    | some source =>
      rw [hget] at hfile
      intro hcollision
      cases hparse : Program.parse source file with
      | error cause =>
        simp only [hparse] at hfile
        cases hfile
        exact Program.location_of_parse hparse hcollision.location
      | ok p =>
        simp only [hparse] at hfile
        exact Program.location_of_transform hfile hcollision.location

end FileTable

/-! ## Permutations of the roots -/

namespace Host

variable {config : Config} {t : FileTable} {outDir : Option String} {roots roots' : List String}

theorem clean_perm (h : roots.Perm roots') :
    Clean config t outDir roots ↔ Clean config t outDir roots' := by
  have hloads : (∀ root ∈ roots, t.loads config root = true) ↔
      ∀ root ∈ roots', t.loads config root = true :=
    forall_congr' fun _ => imp_congr_left h.mem_iff
  exact and_congr hloads (h.map _).nodup_iff

/-- Where all is well, a name holds the same text whatever the order. -/
theorem get?_perm (h : roots.Perm roots') (hclean : Clean config t outDir roots) (name : String) :
    (t.putAll (outputs config t outDir roots)).get? name =
      (t.putAll (outputs config t outDir roots')).get? name := by
  by_cases hname : name ∈ roots.map (Path.outputName outDir)
  · obtain ⟨root, hroot, rfl⟩ := List.mem_map.1 hname
    obtain ⟨p, report, hp⟩ := FileTable.loads_eq_true.1 (hclean.1 root hroot)
    rw [get?_output hclean hroot hp, get?_output ((clean_perm h).1 hclean) (h.mem_iff.1 hroot) hp]
  · rw [get?_other hname, get?_other (mt (h.map _).mem_iff.2 hname)]

theorem reports_perm (h : roots.Perm roots') :
    ∃ loading loading' rest rest', reported config t outDir roots = loading ++ rest ∧
      reported config t outDir roots' = loading' ++ rest' ∧ loading.Perm loading' ∧
      (∀ d ∈ loading, ¬ d.IsCollision) ∧ ∀ d ∈ rest ++ rest', d.IsCollision := by
  refine ⟨_, _, _, _, rfl, rfl, h.flatMap_right _, fun d hd => ?_, fun d hd => ?_⟩
  · obtain ⟨root, -, hd⟩ := List.mem_flatMap.1 hd
    exact FileTable.not_isCollision hd
  · rcases List.mem_append.1 hd with hd | hd <;> exact isCollision_of_mem_clashes hd

end Host

/-- Two compilations with the same outcome, apart from the order in which it is listed and from the
files that collisions name. -/
structure SameOutcome (config : Config) (r r' : Emit × Host) : Prop where
  exitCode : r.1.exitCode = r'.1.exitCode
  skipped : r.1.skipped = r'.1.skipped
  emitted : r.1.emitted.Perm r'.1.emitted
  files : ∃ t t', r.2 = Host.ofTable config t ∧ r'.2 = Host.ofTable config t' ∧
    ∀ name, t.get? name = t'.get? name
  reports : ∃ loading loading' rest rest', r.1.report.diagnostics = loading ++ rest ∧
    r'.1.report.diagnostics = loading' ++ rest' ∧ loading.Perm loading' ∧
    (∀ d ∈ loading, ¬ d.IsCollision) ∧ ∀ d ∈ rest ++ rest', d.IsCollision

/-- **The order of the roots does not matter.** Compilations of the same roots in two orders have
the same exit code, skip writing together, write the same files and leave the same text under every
name. They report the same errors and warnings about loading, and all else that they report are
collisions. -/
theorem compile_perm (config : Config) (t : FileTable) (outDir : Option String)
    {roots roots' : List String} (h : roots.Perm roots') :
    SameOutcome config ((Host.ofTable config t).compile outDir roots)
      ((Host.ofTable config t).compile outDir roots') := by
  by_cases hclean : Host.Clean config t outDir roots
  · have hclean' := (Host.clean_perm h).1 hclean
    rw [Host.compile_of_clean hclean, Host.compile_of_clean hclean']
    refine ⟨?_, rfl, h.map _, ⟨_, _, rfl, rfl, Host.get?_perm h hclean⟩, Host.reports_perm h⟩
    rw [Host.exitCode_of_clean hclean, Host.exitCode_of_clean hclean']
  · have hwrong' := mt (Host.clean_perm h).2 hclean
    rw [Host.compile_of_not_clean hclean, Host.compile_of_not_clean hwrong']
    exact ⟨rfl, rfl, .refl _, ⟨t, t, rfl, rfl, fun _ => rfl⟩, Host.reports_perm h⟩

theorem compile_perm_pair :
    ["b.ts", "none.ts", "a.ts"].Perm ["none.ts", "a.ts", "b.ts"] ∧
      SameOutcome .standard
        ((Host.ofTable .standard .pair).compile (some "out") ["b.ts", "none.ts", "a.ts"])
        ((Host.ofTable .standard .pair).compile (some "out") ["none.ts", "a.ts", "b.ts"]) :=
  ⟨by decide, compile_perm .standard .pair (some "out") (by decide)⟩

end DecimalLift
