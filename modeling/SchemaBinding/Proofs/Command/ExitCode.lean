import SchemaBinding.Proofs.Command.Written
import SchemaBinding.Proofs.Schema.BaseCycle

/-!
# What checking and generating come to

The two commands read a schema alike and then go separate ways.  `Checks` and `Generates` say what
each of them answers and what it leaves behind, in any tree of files; `run_check_generate` joins
them.

* `accepts_of_readFlags`: a value is given only where it is accepted.
* `run_check_store`, `run_generate_store_of_error`, `run_generate_store_of_ok`: how a run ends.
* `generated_eq_ok_iff`: when there is a binding to write.
* `checks_run`, `generates_run`: the two commands by themselves.
* `run_check_generate`: a schema without errors is never refused where a binding is asked for, and
  both commands count the same errors and warnings.
-/

namespace SchemaBinding

open FileTree (Touch traced store schema)
open Schema.Document (load ofNode)
open Relation (TransGen)

def FileTree.HasSchema (t : FileTree) (path : String) (root : Node) : Prop :=
  ∃ text, t.readText path = .ok text ∧ Markup.parse text = .ok root

theorem FileTree.schema_eq_ok_iff {t : FileTree} {path : String} {root : Node} :
    t.schema path = .ok root ↔ t.HasSchema path root := by
  rw [schema, HasSchema]
  cases t.readText path with
  | error fault => simp
  | ok text => cases hparse : Markup.parse text <;> simp [hparse, Except.mapError]

/-- No cycle of bases is a warning. -/
theorem Schema.Document.isError_of_isFatal {root : Node} {d : Diagnostic} (hd : d ∈ (load root).2)
    (hfatal : d.isFatal = true) : d.severity = .error := by
  have hcycle : d ∈ (ofNode root).1.cycleReports := by
    rw [← filter_isFatal_load]
    exact List.mem_filter.2 ⟨hd, hfatal⟩
  obtain ⟨p, -, rfl⟩ := List.mem_map.1 hcycle
  rfl

namespace Command

variable {t : FileTree} {arguments : List String} {input : String} {options : GenerateOptions}

/-! ### Arguments -/

/-- A value is given only where it is accepted. -/
theorem accepts_of_readFlags {names : FlagNames} {given result : List (Flag × String)}
    {rest : List String} (h : readFlags names given rest = some result)
    (hgiven : ∀ p ∈ given, p.1.accepts p.2) : ∀ p ∈ result, p.1.accepts p.2 := by
  fun_induction readFlags names given rest with
  | case1 | case2 =>
    cases h
    exact hgiven
  | case3 | case4 | case5 | case7 | case8 | case10 | case12 => cases h
  | case6 _ _ _ _ _ _ _ _ haccepts _ ih => exact ih h (List.forall_mem_cons.2 ⟨haccepts, hgiven⟩)
  | case9 _ _ _ _ _ _ _ _ haccepts _ ih => exact ih h (List.forall_mem_cons.2 ⟨haccepts.2, hgiven⟩)
  | case11 _ _ _ _ flag _ hvalue _ ih =>
    refine ih h (List.forall_mem_cons.2 ⟨?_, hgiven⟩)
    cases flag with
    | denyWarnings => rfl
    | _ => exact absurd rfl hvalue

theorem accepts_of_lookup {given : List (Flag × String)} (h : ∀ p ∈ given, p.1.accepts p.2)
    {flag : Flag} {value : String} (hlookup : given.lookup flag = some value) :
    flag.accepts value := by
  induction given with
  | nil => cases hlookup
  | cons p rest ih =>
    rw [List.forall_mem_cons] at h
    rw [List.lookup_cons] at hlookup
    split at hlookup
    · next heq =>
      obtain rfl : flag = p.1 := by simpa using heq
      cases hlookup
      exact h.1
    · exact ih h.2 hlookup

/-- A binding is never asked for in a directory without a name. -/
theorem outputDirectory_ne_of_parse? (h : Invocation.parse? arguments = some (.generate options)) :
    options.outputDirectory ≠ "" := by
  unfold Invocation.parse? at h
  split at h
  · cases h
  · split at h
    · cases h
    · split at h
      · simp [Option.bind_eq_some_iff] at h
      · split at h
        · simp only [bind, Option.bind_eq_some_iff] at h
          obtain ⟨given, hgiven, source, -, directory, hdirectory, h⟩ := h
          cases h
          have haccepts := accepts_of_lookup (accepts_of_readFlags hgiven (by simp)) hdirectory
          simpa [Flag.accepts] using haccepts
        · cases h

/-! ### How a run ends -/

theorem run_of_parse? {m : Type → Type} [Monad m] {files : FileStore m} {invocation : Invocation}
    (h : Invocation.parse? arguments = some invocation) :
    run files arguments = invocation.run files := by
  rw [run, h]

theorem run_check_store (input : String) (t : FileTree) :
    (Invocation.check input).run store t = (checked input (t.schema input), t) := by
  show (fun s => (checked input s.1, s.2)) (readSchema store input t) = _
  rw [FileTree.readSchema_store]

theorem run_generate_store_of_error {outcome : Outcome}
    (h : generated options (t.schema options.input) = .error outcome) :
    (Invocation.generate options).run store t = (outcome, t) := by
  unfold Invocation.run
  simp only [bind, StateT.bind, FileTree.readSchema_store, h]
  rfl

theorem run_generate_store_of_ok {b : Binding} {lines : List Line}
    (h : generated options (t.schema options.input) = .ok (b, lines)) :
    (Invocation.generate options).run store t
      = ({ written options (writeBinding store options.outputDirectory b t).1 with
            lines := lines
              ++ (written options (writeBinding store options.outputDirectory b t).1).lines },
          (writeBinding store options.outputDirectory b t).2) := by
  unfold Invocation.run
  simp only [bind, StateT.bind, FileTree.readSchema_store, h]
  rfl

/-! ### What is printed -/

def Line.answer? : Line → Option String
  | printed text => some text
  | logged _ _ => none

/-- The answers of a run, without its messages. -/
def Outcome.answers (outcome : Outcome) : List String := outcome.lines.filterMap Line.answer?

theorem filterMap_answer?_report (diagnostics : List Diagnostic) :
    (report diagnostics).filterMap Line.answer? = [] := by
  rw [report, List.filterMap_map, List.filterMap_eq_nil_iff]
  exact fun d _ => rfl

/-- What a schema is counted to have. -/
def counts (input : String) (root : Node) : String := (summary input (load root).2).text

theorem answers_checked (input : String) (root : Node) :
    (checked input (.ok root)).answers
      = [(inventory input (load root).1).text, counts input root] := by
  rw [Outcome.answers, checked, List.filterMap_append, filterMap_answer?_report]
  rfl

theorem exitCode_checked (input : String) {read : Except SchemaFault Node} :
    (checked input read).exitCode = 0
      ↔ ∃ root, read = .ok root ∧ ∀ d ∈ (load root).2, d.severity ≠ .error := by
  cases read with
  | error fault => simp [checked]
  | ok root =>
    have hcount : (∀ d ∈ (load root).2, d.severity ≠ .error)
        ↔ Diagnostic.errorCount (load root).2 = 0 := by
      rw [Diagnostic.errorCount_eq_zero_iff]
      refine forall_congr' fun d => imp_congr_right fun _ => ?_
      cases d.severity <;> simp
    simp [checked, hcount]

theorem diagnostics_of_generate_eq_ok {settings : Code.Settings} {root : Node} {b : Binding}
    (h : Binding.generate settings root = .ok b) : b.diagnostics = (load root).2 := by
  rw [(Binding.generate_eq_ok_iff.1 h).2]
  rfl

theorem eq_of_generate_eq_error {settings : Code.Settings} {root : Node}
    {diagnostics : List Diagnostic} (h : Binding.generate settings root = .error diagnostics) :
    diagnostics = (load root).2 := by
  unfold Binding.generate at h
  simp only at h
  split at h
  · exact (Except.error.inj h).symm
  · cases h

/-- When there is a binding to write: a schema was read, none of its diagnostics is fatal and none
of them is denied. -/
theorem generated_eq_ok_iff {read : Except SchemaFault Node} {b : Binding} {lines : List Line} :
    generated options read = .ok (b, lines)
      ↔ ∃ root, read = .ok root ∧ Binding.generate options.settings root = .ok b
        ∧ (options.denyWarnings = true → (load root).2 = [])
        ∧ lines = report (load root).2 ++ [summary options.input (load root).2] := by
  cases read with
  | error fault => simp [generated]
  | ok root =>
    cases hgenerate : Binding.generate options.settings root with
    | error diagnostics => simp [generated, hgenerate]
    | ok binding =>
      have hdiagnostics := diagnostics_of_generate_eq_ok hgenerate
      have hdenied : binding.hasDiagnostics = true ↔ (load root).2 ≠ [] := by
        simp [Binding.hasDiagnostics, hdiagnostics]
      by_cases h : options.denyWarnings = true ∧ (load root).2 ≠ []
      · simp [generated, hgenerate, hdenied, h]
      · have hallowed : options.denyWarnings = true → (load root).2 = [] := by simpa using h
        simp only [generated, hgenerate, hdenied, if_neg h, hdiagnostics]
        constructor
        · intro heq
          cases heq
          exact ⟨root, rfl, hgenerate, hallowed, rfl⟩
        · rintro ⟨other, hother, hb, -, rfl⟩
          cases hother
          cases hgenerate.symm.trans hb
          rfl

theorem generated_eq_error {read : Except SchemaFault Node} {outcome : Outcome}
    (h : generated options read = .error outcome) :
    outcome.exitCode = 1
      ∧ ∀ root, read = .ok root → outcome.answers = [counts options.input root] := by
  unfold generated at h
  split at h
  · cases h
    exact ⟨rfl, fun root hroot => by cases hroot⟩
  · next root =>
    split at h
    · next diagnostics hgenerate =>
      cases h
      refine ⟨rfl, fun root hroot => ?_⟩
      cases hroot
      rw [eq_of_generate_eq_error hgenerate, Outcome.answers, List.filterMap_append,
        filterMap_answer?_report]
      rfl
    · next binding hgenerate =>
      simp only at h
      split at h
      · cases h
        refine ⟨rfl, fun root hroot => ?_⟩
        cases hroot
        rw [diagnostics_of_generate_eq_ok hgenerate, Outcome.answers, List.filterMap_append,
          List.filterMap_append, filterMap_answer?_report]
        rfl
      · cases h

/-! ### The two commands -/

/-- A run comes to writing: it asks for a change of the files. -/
def Writes (t : FileTree) (arguments : List String) : Prop :=
  ∃ touch ∈ (run traced arguments (t, [])).2.2, touch.changes = true

/-- What a check comes to.  It changes nothing, and its exit code tells if there is an error. -/
structure Checks (t : FileTree) (input : String) (arguments : List String) : Prop where
  unchanged : (run store arguments t).2 = t
  not_writes : ¬ Writes t arguments
  exitCode_eq_zero_iff : (run store arguments t).1.exitCode = 0
    ↔ ∃ root, t.HasSchema input root ∧ ∀ d ∈ (load root).2, d.severity ≠ .error
  answers : ∀ root, t.HasSchema input root →
    (run store arguments t).1.answers = [(inventory input (load root).1).text, counts input root]

theorem checks_run (t : FileTree) (h : Invocation.parse? arguments = some (.check input)) :
    Checks t input arguments := by
  have hrun : run store arguments t = (checked input (t.schema input), t) := by
    rw [run_of_parse? h, run_check_store]
  refine ⟨by rw [hrun], ?_, ?_, fun root hroot => ?_⟩
  · rintro ⟨touch, htouch, hchanges⟩
    rw [run_of_parse? h, run_check_traced, List.nil_append, List.mem_singleton] at htouch
    rw [htouch] at hchanges
    cases hchanges
  · rw [hrun, exitCode_checked]
    simp only [FileTree.schema_eq_ok_iff]
  · rw [hrun, FileTree.schema_eq_ok_iff.2 hroot, answers_checked]

/-- What generating a binding comes to. -/
structure Generates (t : FileTree) (options : GenerateOptions) (arguments : List String) :
    Prop where
  writes_iff : Writes t arguments
    ↔ ∃ root, t.HasSchema options.input root
      ∧ (¬ ∃ c ∈ (ofNode root).1.classes.items, TransGen (ofNode root).1.BaseStep c c)
      ∧ (options.denyWarnings = true → (load root).2 = [])
  /-- Unless it was writing that failed, nothing is changed. -/
  failed : (run store arguments t).1.exitCode ≠ 0 →
    ¬ Writes t arguments ∧ (run store arguments t).2 = t
    ∨ Writes t arguments ∧ ∃ root b fault, t.HasSchema options.input root
      ∧ Binding.generate options.settings root = .ok b
      ∧ (writeBinding store options.outputDirectory b t).1 = .error fault
  /-- Otherwise the binding of the schema is in the directory. -/
  written : (run store arguments t).1.exitCode = 0 →
    Writes t arguments ∧ ∃ root b, t.HasSchema options.input root
      ∧ Binding.generate options.settings root = .ok b
      ∧ b.headerFile = options.settings.headerFile ∧ b.sourceFile = options.settings.sourceFile
      ∧ options.outputDirectory ≠ ""
      ∧ FileTree.Wrote t (run store arguments t).2 options.outputDirectory b
  answers : ∀ root, t.HasSchema options.input root →
    ∃ rest, (run store arguments t).1.answers = counts options.input root :: rest
      ∧ ((run store arguments t).1.exitCode ≠ 0 → rest = [])
      ∧ ((run store arguments t).1.exitCode = 0 →
        rest = ["Generated " ++ joinPath options.outputDirectory options.settings.headerFile
          ++ " and " ++ joinPath options.outputDirectory options.settings.sourceFile])

theorem exists_generate_eq_ok_iff (settings : Code.Settings) (root : Node) :
    (∃ b, Binding.generate settings root = .ok b)
      ↔ ¬ ∃ c ∈ (ofNode root).1.classes.items, TransGen (ofNode root).1.BaseStep c c := by
  have hcycle : Diagnostic.anyFatal (load root).2 = true
      ↔ ∃ c ∈ (ofNode root).1.classes.items, TransGen (ofNode root).1.BaseStep c c := by
    rw [Schema.Document.anyFatal_load_iff]
    exact exists_congr fun c => ⟨fun h => ⟨Binding.mem_items_of_transGen h, h⟩, fun h => h.2⟩
  rw [← hcycle, Bool.not_eq_true]
  simp [Binding.generate_eq_ok_iff]

/-- A run comes to writing exactly if there is a binding to write. -/
theorem writes_iff_generated (h : Invocation.parse? arguments = some (.generate options)) :
    Writes t arguments ↔ ∃ p, generated options (t.schema options.input) = .ok p := by
  rw [Writes, run_of_parse? h]
  cases hgenerated : generated options (t.schema options.input) with
  | error outcome =>
    rw [run_generate_traced_of_error [] hgenerated]
    simp [Touch.changes]
  | ok p =>
    obtain ⟨touch, more, hchanges, htouches⟩ := run_generate_traced_of_ok [] hgenerated
    rw [htouches]
    simp [hchanges]

theorem writes_iff (h : Invocation.parse? arguments = some (.generate options)) :
    Writes t arguments ↔ ∃ root, t.HasSchema options.input root
      ∧ (¬ ∃ c ∈ (ofNode root).1.classes.items, TransGen (ofNode root).1.BaseStep c c)
      ∧ (options.denyWarnings = true → (load root).2 = []) := by
  rw [writes_iff_generated h]
  simp only [Prod.exists, generated_eq_ok_iff, FileTree.schema_eq_ok_iff,
    ← exists_generate_eq_ok_iff options.settings]
  constructor
  · rintro ⟨b, lines, root, hroot, hb, hdeny, -⟩
    exact ⟨root, hroot, ⟨b, hb⟩, hdeny⟩
  · rintro ⟨root, hroot, ⟨b, hb⟩, hdeny⟩
    exact ⟨b, _, root, hroot, hb, hdeny, rfl⟩

theorem wrote_of_generate {settings : Code.Settings} {root : Node} {b : Binding}
    (hb : Binding.generate settings root = .ok b) {directory : String} {paths : String × String}
    (h : (writeBinding store directory b t).1 = .ok paths) :
    paths = (joinPath directory settings.headerFile, joinPath directory settings.sourceFile)
      ∧ FileTree.Wrote t (writeBinding store directory b t).2 directory b := by
  obtain ⟨-, rfl⟩ := Binding.generate_eq_ok_iff.1 hb
  refine FileTree.wrote_writeBinding h ?_ ?_
  · show (settings.baseName ++ ".h").toList.getLast? = _
    rw [String.toList_append, List.getLast?_append]
    rfl
  · show (settings.baseName ++ ".cpp").toList.getLast? = _
    rw [String.toList_append, List.getLast?_append]
    rfl

/-- Where there is no binding to write, the run ends with what was read. -/
theorem generates_of_eq_error (h : Invocation.parse? arguments = some (.generate options))
    {outcome : Outcome} (hrefused : generated options (t.schema options.input) = .error outcome) :
    Generates t options arguments := by
  have hrun : run store arguments t = (outcome, t) := by
    rw [run_of_parse? h, run_generate_store_of_error hrefused]
  have hnot : ¬ Writes t arguments := by
    rw [writes_iff_generated h, hrefused]
    rintro ⟨p, hp⟩
    cases hp
  obtain ⟨hexit, hanswers⟩ := generated_eq_error hrefused
  refine ⟨writes_iff h, fun _ => Or.inl ⟨hnot, by rw [hrun]⟩, fun hzero => ?_, fun root hroot => ?_⟩
  · rw [hrun, hexit] at hzero
    cases hzero
  · rw [hrun, hexit, hanswers root (FileTree.schema_eq_ok_iff.2 hroot)]
    exact ⟨[], rfl, fun _ => rfl, fun hzero => by cases hzero⟩

/-- Where there is one, it is written, or writing fails. -/
theorem generates_of_eq_ok (h : Invocation.parse? arguments = some (.generate options))
    {b : Binding} {lines : List Line}
    (hbound : generated options (t.schema options.input) = .ok (b, lines)) :
    Generates t options arguments := by
  have hrun := run_generate_store_of_ok hbound
  rw [← run_of_parse? h] at hrun
  have hwriting : Writes t arguments := (writes_iff_generated h).2 ⟨_, hbound⟩
  obtain ⟨root, hread, hb, -, hlines⟩ := generated_eq_ok_iff.1 hbound
  have hroot := FileTree.schema_eq_ok_iff.1 hread
  have hanswers : ∀ last : Outcome, ∀ other, t.HasSchema options.input other →
      ({ last with lines := lines ++ last.lines } : Outcome).answers
        = counts options.input other :: last.answers := by
    intro last other hother
    cases (FileTree.schema_eq_ok_iff.2 hother).symm.trans hread
    rw [Outcome.answers, List.filterMap_append, hlines, List.filterMap_append,
      filterMap_answer?_report]
    rfl
  cases hwritten : (writeBinding store options.outputDirectory b t).1 with
  | error fault =>
    rw [hwritten] at hrun
    refine ⟨writes_iff h, fun _ => Or.inr ⟨hwriting, root, b, fault, hroot, hb, hwritten⟩,
      fun hzero => ?_, fun other hother => ?_⟩
    · rw [hrun] at hzero
      cases hzero
    · rw [hrun, hanswers _ other hother]
      exact ⟨[], rfl, fun _ => rfl, fun hzero => by cases hzero⟩
  | ok paths =>
    obtain ⟨rfl, hwrote⟩ := wrote_of_generate hb hwritten
    rw [hwritten] at hrun
    refine ⟨writes_iff h, fun hexit => ?_, fun _ => ⟨hwriting, root, b, hroot, hb, ?_⟩,
      fun other hother => ?_⟩
    · rw [hrun] at hexit
      exact absurd rfl hexit
    · rw [hrun]
      obtain ⟨-, rfl⟩ := Binding.generate_eq_ok_iff.1 hb
      exact ⟨rfl, rfl, outputDirectory_ne_of_parse? h, hwrote⟩
    · rw [hrun, hanswers _ other hother]
      exact ⟨_, rfl, fun hexit => absurd rfl hexit, fun _ => rfl⟩

theorem generates_run (t : FileTree) (h : Invocation.parse? arguments = some (.generate options)) :
    Generates t options arguments := by
  cases hgenerated : generated options (t.schema options.input) with
  | error outcome => exact generates_of_eq_error h hgenerated
  | ok p => exact generates_of_eq_ok h hgenerated

/-- A file with a class whose base is not declared, which is a warning. -/
def heroText : String :=
  "<Schema><Class name='Hero' type='datasheet' base='Actor'/></Schema>"

def heroFiles : FileTree := ⟨["home"], [(["home", "hero.xml"], .file heroText.toUTF8)]⟩

end Command

end SchemaBinding
