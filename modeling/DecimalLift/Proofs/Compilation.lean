import DecimalLift.Compilation
import DecimalLift.Proofs.Transform.Idempotent

/-!
# What a compilation does

A compilation of files in memory, through one layer, is described without the host that it threads
from root to root.

* `FileTable.transformed` — what a file of a table becomes, or why it does not load.
* `FileTable.messages` — what loading a file reports.
* `clashes` — the errors for outputs that an earlier file has claimed, position by position.
* `Host.loadRoots_ofTable` — loading roots gives their trees and messages and changes nothing.
* `Host.compile_ofTable` — the whole compilation, as one of two outcomes.
* `compile_exact` — it writes every root or none, and reports what went wrong.
-/

set_option autoImplicit false

namespace DecimalLift

/-! ## Names of files -/

theorem Program.file_bindType (rules : Rules) (p : Program) (nextId : UInt32) :
    (p.bindType rules nextId).2.1.file = p.file := by
  unfold bindType
  split
  · rfl
  · split <;> rfl

theorem Program.file_of_parseTransformed {config : Config} {source file : String} {p : Program}
    {report : TransformReport} (h : parseTransformed config source file = .ok (p, report)) :
    p.file = file := by
  unfold parseTransformed at h
  cases hparse : Program.parse source file with
  | error e =>
    rw [hparse] at h
    cases h
  | ok q =>
    rw [hparse] at h
    obtain ⟨walked, s', hwalk, rfl⟩ := exists_walk_of_transform h
    obtain ⟨ss, -, rfl⟩ := Walk.walksProgram_of_ok hwalk
    obtain ⟨ts, ss', s'', -, -, rfl⟩ := Program.parse_eq_ok.1 hparse
    exact file_bindType ..

/-! ## Tables -/

namespace FileTable

theorem lookup_filter_ne {entries : List (String × String)} {name other : String}
    (h : other ≠ name) : (entries.filter (·.1 != name)).lookup other = entries.lookup other := by
  induction entries with
  | nil => rfl
  | cons entry entries ih =>
    obtain ⟨key, text⟩ := entry
    by_cases hkey : key = name
    · have hother : (other == key) = false := by simpa [hkey] using h
      rw [List.filter_cons_of_neg (by simpa using hkey), List.lookup_cons, hother, ih]
    · rw [List.filter_cons_of_pos (by simpa using hkey), List.lookup_cons, List.lookup_cons, ih]

theorem lookup_filter_self (entries : List (String × String)) (name : String) :
    (entries.filter (·.1 != name)).lookup name = none := by
  refine List.lookup_eq_none_iff.2 fun entry hentry => ?_
  have hne := (List.mem_filter.1 hentry).2
  simp only [bne_iff_ne, ne_eq] at hne
  simpa using Ne.symm hne

/-- A table holds what was put into it last, under each name. -/
theorem get?_put (t : FileTable) (name text other : String) :
    (t.put name text).get? other = if other = name then some text else t.get? other := by
  unfold get? put
  rw [List.lookup_append]
  split
  · next h =>
    subst h
    simp [lookup_filter_self]
  · next h =>
    have hother : (other == name) = false := by simpa using h
    simp [lookup_filter_ne h, List.lookup_cons, hother]

/-- The table with several texts put into it, one after the other. -/
def putAll (t : FileTable) (entries : List (String × String)) : FileTable :=
  entries.foldl (fun t entry => t.put entry.1 entry.2) t

theorem get?_putAll_of_notMem {entries : List (String × String)} {name : String} :
    ∀ {t : FileTable}, name ∉ entries.map Prod.fst →
      (t.putAll entries).get? name = t.get? name := by
  induction entries with
  | nil => exact fun _ => rfl
  | cons entry entries ih =>
    intro t h
    obtain ⟨hne, hrest⟩ := not_or.1 (mt List.mem_cons.2 h)
    show ((t.put entry.1 entry.2).putAll entries).get? name = t.get? name
    rw [ih hrest, get?_put, if_neg hne]

/-- Under names that differ, every text can be read back. -/
theorem get?_putAll_of_mem {entries : List (String × String)} {name text : String} :
    ∀ {t : FileTable}, (entries.map Prod.fst).Nodup → (name, text) ∈ entries →
      (t.putAll entries).get? name = some text := by
  induction entries with
  | nil => exact fun _ h => nomatch h
  | cons entry entries ih =>
    intro t hnodup hmem
    obtain ⟨hfresh, hnodup⟩ := List.nodup_cons.1 hnodup
    rcases List.mem_cons.1 hmem with rfl | hmem
    · show ((t.put name text).putAll entries).get? name = some text
      rw [get?_putAll_of_notMem hfresh, get?_put, if_pos rfl]
    · exact ih hnodup hmem

/-! ## Files -/

/-- What a file of the table becomes: the tree of its text, transformed, and the report on that. -/
def transformed (t : FileTable) (config : Config) (file : String) :
    Except TransformError (Program × TransformReport) :=
  match t.get? file with
  | some source => Program.parseTransformed config source file
  | none => .error (.source (Store.unreadable file "not found"))

/-- Whether a file is there, can be read and can be transformed. -/
def loads (t : FileTable) (config : Config) (file : String) : Bool :=
  (t.transformed config file).isOk

/-- The tree of a file that loads. -/
def tree? (t : FileTable) (config : Config) (file : String) : Option Program :=
  (t.transformed config file).toOption.map Prod.fst

/-- What loading a file reports: why it failed, or a warning if the name of the type is taken. -/
def messages (t : FileTable) (config : Config) (file : String) : List Diagnostic :=
  match t.transformed config file with
  | .error e => [e.toDiagnostic]
  | .ok (_, report) => (report.binding.diagnostic? config.rules).toList

variable {t : FileTable} {config : Config} {file : String}

theorem transformed_eq_ok {p : Program} {report : TransformReport} :
    t.transformed config file = .ok (p, report) ↔ ∃ source, t.get? file = some source ∧
      Program.parseTransformed config source file = .ok (p, report) := by
  unfold transformed
  cases t.get? file with
  | none => simp
  | some source => simp

theorem loads_eq_true : t.loads config file = true ↔
    ∃ p report, t.transformed config file = .ok (p, report) := by
  unfold loads
  cases t.transformed config file with
  | error e => simp [Except.isOk, Except.toBool]
  | ok r => exact ⟨fun _ => ⟨r.1, r.2, rfl⟩, fun _ => rfl⟩

theorem tree?_of_error {e : TransformError} (h : t.transformed config file = .error e) :
    t.tree? config file = none := by
  simp [tree?, h, Except.toOption]

theorem tree?_of_ok {p : Program} {report : TransformReport}
    (h : t.transformed config file = .ok (p, report)) : t.tree? config file = some p := by
  simp [tree?, h, Except.toOption]

/-- A tree keeps the name of its file. -/
theorem file_of_transformed {p : Program} {report : TransformReport}
    (h : t.transformed config file = .ok (p, report)) : p.file = file := by
  obtain ⟨source, -, hp⟩ := transformed_eq_ok.1 h
  exact Program.file_of_parseTransformed hp

/-- Trees come from the files that load, in their order. -/
theorem map_file_trees (files : List String) :
    (files.filterMap (t.tree? config)).map Program.file = files.filter (t.loads config) := by
  induction files with
  | nil => rfl
  | cons file files ih =>
    cases h : t.transformed config file with
    | error e =>
      have hloads : ¬ t.loads config file = true := by simp [loads_eq_true, h]
      rw [List.filterMap_cons_none (tree?_of_error h), List.filter_cons_of_neg hloads, ih]
    | ok r =>
      have hloads : t.loads config file = true := loads_eq_true.2 ⟨r.1, r.2, h⟩
      rw [List.filterMap_cons_some (tree?_of_ok h), List.filter_cons_of_pos hloads, List.map_cons,
        ih, file_of_transformed h]

/-- A file that does not load leaves one error, and nothing else is an error. -/
theorem severity_messages : (∃ d ∈ t.messages config file, d.severity = .error) ↔
    ¬ t.loads config file = true := by
  unfold messages loads
  cases t.transformed config file with
  | error e =>
    have herror : e.toDiagnostic.severity = .error := by cases e <;> rfl
    simp [Except.isOk, Except.toBool, herror]
  | ok r =>
    obtain ⟨p, ⟨binding, counts⟩⟩ := r
    cases binding with
    | taken moduleName location =>
      simp [Except.isOk, Except.toBool, BindingOutcome.diagnostic?, Diagnostic.withNote,
        Diagnostic.warning]
    | _ => simp [Except.isOk, Except.toBool, BindingOutcome.diagnostic?]

end FileTable

/-! ## Outputs that are claimed twice -/

/-- The error for the file at position `i`, if a file before it has claimed its output. It names the
last of those. -/
def clash? (output : String → String) (files : List String) (file : String) (i : Nat) :
    Option Diagnostic :=
  ((files.take i).reverse.find? (output · == output file)).map fun first =>
    collision (output file) first file

/-- The errors for all files whose output is claimed already, in the order of the files. -/
def clashes (output : String → String) (files : List String) : List Diagnostic :=
  files.zipIdx.filterMap fun entry => clash? output files entry.1 entry.2

section

variable {output : String → String}

theorem lookup_map_claim (files : List String) (name : String) :
    (files.map fun file => (output file, file)).lookup name = files.find? (output · == name) := by
  induction files with
  | nil => rfl
  | cons file files ih => rw [List.map_cons, List.lookup_cons, List.find?_cons, ih, BEq.comm]

/-- What is reported behind the files `before`. -/
theorem collisions_eq (before files : List String) :
    collisions (before.reverse.map fun file => (output file, file))
        (files.map fun file => (output file, file)) =
      (files.zipIdx before.length).filterMap fun entry =>
        clash? output (before ++ files) entry.1 entry.2 := by
  induction files generalizing before with
  | nil => rfl
  | cons file files ih =>
    have hclaims : (output file, file) :: before.reverse.map (fun file => (output file, file)) =
        (before ++ [file]).reverse.map fun file => (output file, file) := by
      simp
    have hrest := ih (before ++ [file])
    rw [List.length_append, List.length_singleton, List.append_assoc,
      List.singleton_append] at hrest
    have hfirst : clash? output (before ++ file :: files) file before.length =
        (before.reverse.find? (output · == output file)).map fun first =>
          collision (output file) first file := by
      rw [clash?, List.take_left]
    rw [List.map_cons, collisions, hclaims, hrest, lookup_map_claim, List.zipIdx_cons,
      List.filterMap_cons, hfirst]
    cases before.reverse.find? (output · == output file) <;> rfl

theorem collisions_eq_clashes (files : List String) :
    collisions [] (files.map fun file => (output file, file)) = clashes output files :=
  collisions_eq [] files

theorem collisions_eq_nil_iff (claims : List (String × String)) (files : List String) :
    collisions claims (files.map fun file => (output file, file)) = [] ↔
      (∀ file ∈ files, output file ∉ claims.map Prod.fst) ∧ (files.map output).Nodup := by
  induction files generalizing claims with
  | nil => simp [collisions]
  | cons file files ih =>
    have hfree : claims.lookup (output file) = none ↔ output file ∉ claims.map Prod.fst := by
      simp only [List.lookup_eq_none_iff, List.mem_map, not_exists, not_and, bne_iff_ne, ne_eq]
      exact forall₂_congr fun _ _ => not_congr eq_comm
    rw [List.map_cons, collisions, List.append_eq_nil_iff, ih, List.map_eq_nil_iff,
      Option.toList_eq_nil_iff, hfree]
    rw [List.forall_mem_cons, List.map_cons, List.map_cons, List.nodup_cons]
    constructor
    · rintro ⟨hfile, hfiles, hnodup⟩
      refine ⟨⟨hfile, fun other hother => (List.not_mem_of_not_mem_cons (hfiles other hother))⟩,
        fun hmem => ?_, hnodup⟩
      obtain ⟨other, hother, heq⟩ := List.mem_map.1 hmem
      exact hfiles other hother (heq ▸ List.mem_cons_self)
    · rintro ⟨⟨hfile, hfiles⟩, hfresh, hnodup⟩
      refine ⟨hfile, fun other hother hmem => ?_, hnodup⟩
      rcases List.mem_cons.1 hmem with heq | hmem
      · exact hfresh (List.mem_map.2 ⟨other, hother, heq⟩)
      · exact hfiles other hother hmem

/-- Nothing clashes exactly if the outputs differ. -/
theorem clashes_eq_nil_iff (files : List String) :
    clashes output files = [] ↔ (files.map output).Nodup := by
  rw [← collisions_eq_clashes, collisions_eq_nil_iff]
  simp

theorem severity_of_mem_clashes {files : List String} {d : Diagnostic}
    (h : d ∈ clashes output files) : d.severity = .error := by
  obtain ⟨entry, -, h⟩ := List.mem_filterMap.1 h
  obtain ⟨first, -, rfl⟩ := Option.map_eq_some_iff.1 h
  rfl

end

/-! ## Hosts -/

theorem Report.hasErrors_iff (r : Report) :
    r.hasErrors = true ↔ ∃ d ∈ r.diagnostics, d.severity = .error := by
  simp only [hasErrors, errorCount, count, decide_eq_true_eq, List.countP_pos_iff]

theorem Report.addAll_addAll (r : Report) (ds ds' : List Diagnostic) :
    (r.addAll ds).addAll ds' = r.addAll (ds ++ ds') := by
  simp only [addAll, List.append_assoc]

namespace Host

/-- A table in memory, inside one layer that holds no warnings. -/
def ofTable (config : Config) (t : FileTable) : Host := ⟨⟨.memory t, []⟩, [.ofConfig config]⟩

variable {config : Config} {t : FileTable}

/-- Loading a file gives its tree and leaves the warning about it in the layer. -/
theorem load_ofTable (file : String) :
    (ofTable config t).load file =
      match t.transformed config file with
      | .error e => (.error e, ofTable config t)
      | .ok (p, report) => (.ok p, { ofTable config t with
          layers := [⟨config, (report.binding.diagnostic? config.rules).toList⟩] }) := by
  unfold FileTable.transformed Program.parseTransformed load ofTable
  simp only [Layer.loadThrough, Store.read]
  cases t.get? file with
  | none => rfl
  | some source =>
    cases hparse : Program.parse source file with
    | error cause =>
      have hfailed : (Except.error cause : Except SourceError Program).mapError
          TransformError.source = .error (.source cause) := rfl
      simp only [hparse, hfailed]
    | ok p =>
      have hread : (Except.ok p : Except SourceError Program).mapError TransformError.source =
          .ok p := rfl
      cases htransform : p.transform config with
      | error e => simp only [hparse, hread, Layer.ofConfig, htransform]
      | ok r => simp only [hparse, hread, Layer.ofConfig, htransform, List.nil_append]

/-- **Loading roots** gives the trees of those that load, adds what each root reports, and leaves
the host as it was. -/
theorem loadRoots_ofTable (report : Report) (roots : List String) :
    (ofTable config t).loadRoots report roots =
      (roots.filterMap (t.tree? config), report.addAll (roots.flatMap (t.messages config)),
        ofTable config t) := by
  induction roots generalizing report with
  | nil => simp [loadRoots, Report.addAll]
  | cons root roots ih =>
    cases h : t.transformed config root with
    | error e =>
      have hmessages : t.messages config root = [e.toDiagnostic] := by
        simp [FileTable.messages, h]
      have htake : (ofTable config t).takeDiagnostics = ([], ofTable config t) := rfl
      unfold loadRoots
      simp only [load_ofTable, h, htake, ih]
      rw [List.filterMap_cons_none (FileTable.tree?_of_error h), List.flatMap_cons, hmessages,
        ← Report.addAll_addAll]
      simp [Report.add, Report.addAll]
    | ok r =>
      obtain ⟨p, done⟩ := r
      have hmessages : t.messages config root =
          (done.binding.diagnostic? config.rules).toList := by
        simp [FileTable.messages, h]
      -- the layer hands over the warning of this root and is as it was before
      have htake : takeDiagnostics { ofTable config t with
          layers := [⟨config, t.messages config root⟩] } =
            (t.messages config root, ofTable config t) := by
        simp [takeDiagnostics, ofTable, Layer.ofConfig]
      unfold loadRoots
      simp only [load_ofTable, h, ← hmessages, htake, ih]
      rw [List.filterMap_cons_some (FileTable.tree?_of_ok h), List.flatMap_cons,
        Report.addAll_addAll]

/-- **Writing texts** into a table puts them all there. -/
theorem writeAll_ofTable (report : Report) (entries : List (String × String)) :
    ∀ t : FileTable, (ofTable config t).writeAll report entries =
      (entries.map Prod.fst, report, ofTable config (t.putAll entries)) := by
  induction entries with
  | nil => exact fun _ => rfl
  | cons entry entries ih =>
    intro t
    have hwrite : (ofTable config t).write entry.1 entry.2 =
        (.ok (), ofTable config (t.put entry.1 entry.2)) := rfl
    unfold writeAll
    simp only [hwrite, ih]
    rfl

/-! ## Compilations -/

/-- Every root loads, and no two of them have the same output. -/
def Clean (config : Config) (t : FileTable) (outDir : Option String) (roots : List String) : Prop :=
  (∀ root ∈ roots, t.loads config root = true) ∧ (roots.map (Path.outputName outDir)).Nodup

instance (config : Config) (t : FileTable) (outDir : Option String) (roots : List String) :
    Decidable (Clean config t outDir roots) :=
  inferInstanceAs (Decidable (_ ∧ _))

/-- All that a compilation reports: the messages of each root, then the clashes of those that
load. -/
def reported (config : Config) (t : FileTable) (outDir : Option String) (roots : List String) :
    List Diagnostic :=
  roots.flatMap (t.messages config) ++
    clashes (Path.outputName outDir) (roots.filter (t.loads config))

/-- The texts of the roots that load, each under the name of its output. -/
def outputs (config : Config) (t : FileTable) (outDir : Option String) (roots : List String) :
    List (String × String) :=
  (roots.filterMap (t.tree? config)).map fun p =>
    (Path.outputName outDir p.file, p.render .untyped)

variable {outDir : Option String} {roots : List String}

theorem map_fst_outputs :
    (outputs config t outDir roots).map Prod.fst =
      (roots.filter (t.loads config)).map (Path.outputName outDir) := by
  rw [← FileTable.map_file_trees]
  simp [outputs]

theorem mem_outputs {root : String} {p : Program} {report : TransformReport} (hroot : root ∈ roots)
    (h : t.transformed config root = .ok (p, report)) :
    (Path.outputName outDir root, p.render .untyped) ∈ outputs config t outDir roots := by
  refine List.mem_map.2 ⟨p, List.mem_filterMap.2 ⟨root, hroot, FileTable.tree?_of_ok h⟩, ?_⟩
  rw [FileTable.file_of_transformed h]

/-- An error is reported exactly if something is wrong. -/
theorem hasErrors_reported :
    (Report.mk (reported config t outDir roots)).hasErrors = true ↔
      ¬ Clean config t outDir roots := by
  rw [Report.hasErrors_iff]
  constructor
  · rintro ⟨d, hd, herror⟩ ⟨hloads, hnodup⟩
    rcases List.mem_append.1 hd with hd | hd
    · obtain ⟨root, hroot, hd⟩ := List.mem_flatMap.1 hd
      exact FileTable.severity_messages.1 ⟨d, hd, herror⟩ (hloads root hroot)
    · rw [List.filter_eq_self.2 hloads, (clashes_eq_nil_iff roots).2 hnodup] at hd
      cases hd
  · intro hclean
    by_cases hloads : ∀ root ∈ roots, t.loads config root = true
    · have hclashes : clashes (Path.outputName outDir) (roots.filter (t.loads config)) ≠ [] := by
        rw [List.filter_eq_self.2 hloads, ne_eq, clashes_eq_nil_iff]
        exact fun hnodup => hclean ⟨hloads, hnodup⟩
      obtain ⟨d, hd⟩ := List.exists_mem_of_ne_nil _ hclashes
      exact ⟨d, List.mem_append_right _ hd, severity_of_mem_clashes hd⟩
    · obtain ⟨root, hroot, hfails⟩ : ∃ root ∈ roots, ¬ t.loads config root = true := by
        simpa using hloads
      obtain ⟨d, hd, herror⟩ := FileTable.severity_messages.2 hfails
      exact ⟨d, List.mem_append_left _ (List.mem_flatMap.2 ⟨root, hroot, hd⟩), herror⟩

/-- **A compilation** writes the outputs of its roots, unless something is wrong. -/
theorem compile_ofTable (outDir : Option String) (roots : List String) :
    (ofTable config t).compile outDir roots =
      if (Report.mk (reported config t outDir roots)).hasErrors then
        (⟨[], ⟨reported config t outDir roots⟩, true⟩, ofTable config t)
      else
        (⟨(outputs config t outDir roots).map Prod.fst, ⟨reported config t outDir roots⟩, false⟩,
          ofTable config (t.putAll (outputs config t outDir roots))) := by
  have hreport : (Report.empty.addAll (roots.flatMap (t.messages config))).addAll
      (collisions [] ((roots.filterMap (t.tree? config)).map
        fun p => (Path.outputName outDir p.file, p.file))) = ⟨reported config t outDir roots⟩ := by
    rw [Report.addAll_addAll, reported, ← FileTable.map_file_trees, ← collisions_eq_clashes,
      List.map_map]
    rfl
  unfold compile outputs
  simp only [loadRoots_ofTable, writeAll_ofTable, List.map_map, Function.comp_def, hreport]

theorem Clean.not_hasErrors (h : Clean config t outDir roots) :
    ¬ (Report.mk (reported config t outDir roots)).hasErrors = true :=
  fun herrors => hasErrors_reported.1 herrors h

theorem compile_of_clean (h : Clean config t outDir roots) :
    (ofTable config t).compile outDir roots =
      (⟨roots.map (Path.outputName outDir), ⟨reported config t outDir roots⟩, false⟩,
        ofTable config (t.putAll (outputs config t outDir roots))) := by
  rw [compile_ofTable, if_neg h.not_hasErrors, map_fst_outputs, List.filter_eq_self.2 h.1]

theorem compile_of_not_clean (h : ¬ Clean config t outDir roots) :
    (ofTable config t).compile outDir roots =
      (⟨[], ⟨reported config t outDir roots⟩, true⟩, ofTable config t) := by
  rw [compile_ofTable, if_pos (hasErrors_reported.2 h)]

theorem exitCode_of_clean (h : Clean config t outDir roots) (emitted : List String) :
    (Emit.mk emitted ⟨reported config t outDir roots⟩ false).exitCode = 0 := by
  simp [Emit.exitCode, h.not_hasErrors]

/-- Each output holds the text of its root. -/
theorem get?_output (h : Clean config t outDir roots) {root : String} {p : Program}
    {report : TransformReport} (hroot : root ∈ roots)
    (hp : t.transformed config root = .ok (p, report)) :
    (t.putAll (outputs config t outDir roots)).get? (Path.outputName outDir root) =
      some (p.render .untyped) := by
  refine FileTable.get?_putAll_of_mem ?_ (mem_outputs hroot hp)
  rw [map_fst_outputs, List.filter_eq_self.2 h.1]
  exact h.2

/-- No other name has a new text. -/
theorem get?_other {name : String} (h : name ∉ roots.map (Path.outputName outDir)) :
    (t.putAll (outputs config t outDir roots)).get? name = t.get? name := by
  refine FileTable.get?_putAll_of_notMem fun hmem => h ?_
  rw [map_fst_outputs] at hmem
  exact (List.filter_sublist.map _).subset hmem

end Host

/-- **A compilation writes every root or none.** If every root loads and their outputs differ, the
table changes at the outputs only, and each of them holds the text without ascriptions of what its
root was before. Otherwise the table stays as it is. Either way the report holds the messages of the
roots, and then an error for each root that loads and whose output is claimed already. -/
theorem compile_exact (config : Config) (t : FileTable) (outDir : Option String)
    (roots : List String) :
    (Host.Clean config t outDir roots →
      ∃ emit t', (Host.ofTable config t).compile outDir roots = (emit, Host.ofTable config t') ∧
        emit.skipped = false ∧ emit.exitCode = 0 ∧
        emit.emitted = roots.map (Path.outputName outDir) ∧
        (∀ root ∈ roots, ∃ source p report, t.get? root = some source ∧
          Program.parseTransformed config source root = .ok (p, report) ∧
          t'.get? (Path.outputName outDir root) = some (p.render .untyped)) ∧
        ∀ name, name ∉ roots.map (Path.outputName outDir) → t'.get? name = t.get? name) ∧
    (¬ Host.Clean config t outDir roots →
      ∃ emit, (Host.ofTable config t).compile outDir roots = (emit, Host.ofTable config t) ∧
        emit.emitted = [] ∧ emit.skipped = true ∧ emit.exitCode = 1) ∧
    ((Host.ofTable config t).compile outDir roots).1.report.diagnostics =
      roots.flatMap (t.messages config) ++
        clashes (Path.outputName outDir) (roots.filter (t.loads config)) := by
  refine ⟨fun hclean => ?_, fun hwrong => ?_, ?_⟩
  · refine ⟨_, _, Host.compile_of_clean hclean, rfl, Host.exitCode_of_clean hclean _, rfl,
      fun root hroot => ?_, fun name hname => Host.get?_other hname⟩
    obtain ⟨p, report, htransformed⟩ := FileTable.loads_eq_true.1 (hclean.1 root hroot)
    obtain ⟨source, hsource, hp⟩ := FileTable.transformed_eq_ok.1 htransformed
    exact ⟨source, p, report, hsource, hp, Host.get?_output hclean hroot htransformed⟩
  · exact ⟨_, Host.compile_of_not_clean hwrong, rfl, rfl, rfl⟩
  · rw [Host.compile_ofTable]
    split <;> rfl

/-- Two modules, the second of which has taken the name of the type. -/
def FileTable.pair : FileTable :=
  .ofList [("a.ts", "const x = 1 + 2"), ("b.ts", "import Decimal from 'big'")]

theorem compile_exact_pair :
    (∃ emit t', (Host.ofTable .standard .pair).compile (some "out") ["b.ts", "a.ts"] =
        (emit, Host.ofTable .standard t') ∧
      emit.exitCode = 0 ∧ emit.emitted = ["out/b.js", "out/a.js"]) ∧
    ∃ emit, (Host.ofTable .standard .pair).compile (some "out") ["a.ts", "b.ts", "a.ts"] =
        (emit, Host.ofTable .standard .pair) ∧ emit.exitCode = 1 ∧ emit.emitted = [] := by
  constructor
  · obtain ⟨emit, t', hcompile, -, hexit, hemitted, -⟩ :=
      (compile_exact .standard .pair (some "out") ["b.ts", "a.ts"]).1 (by decide +kernel)
    exact ⟨emit, t', hcompile, hexit, hemitted.trans (by decide +kernel)⟩
  · obtain ⟨emit, hcompile, hemitted, -, hexit⟩ :=
      (compile_exact .standard .pair (some "out") ["a.ts", "b.ts", "a.ts"]).2.1 (by decide +kernel)
    exact ⟨emit, hcompile, hexit, hemitted⟩

end DecimalLift
