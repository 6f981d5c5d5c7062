import SchemaBinding.Command.Run
import SchemaBinding.File.Tree

/-!
# What a run touches

`traced` is the store of a tree that also keeps what it is asked for.  A program that is run in it
does what it does in the tree alone, and what it asks for is put behind what was asked before
(`Traces`).

* `Traces.bind`, `traces_makeBehind`, `traces_writeBinding`: programs are traced step by step.
* `traces_run`: the whole program does with the trace what it does without.
* `run_check_traced`: a check asks for nothing but the file that it reads.
* `run_generate_traced_of_error`, `run_generate_traced_of_ok`: a schema is read before anything is
  changed, and if there is a binding to write, a change is what is asked for next.
-/

namespace SchemaBinding.FileTree

inductive Touch where
  | read (path : String)
  | ensureDirectory (path : String)
  | write (path : String)
deriving DecidableEq, Repr

def Touch.changes : Touch → Bool
  | read _ => false
  | ensureDirectory _ | write _ => true

/-- The store of a tree, with what it was asked for so far. -/
def traced : FileStore (StateM (FileTree × List Touch)) where
  readText path := fun (t, log) => (t.readText path, t, log ++ [.read path])
  ensureDirectory path := fun (t, log) =>
    ((store.ensureDirectory path t).1, (store.ensureDirectory path t).2,
      log ++ [.ensureDirectory path])
  writeText path text := fun (t, log) =>
    ((store.writeText path text t).1, (store.writeText path text t).2, log ++ [.write path])

variable {α β : Type}

/-- A program does with the trace what another does in the tree alone, and asks for some things
first. -/
def Traces (first : List Touch) (x : StateM (FileTree × List Touch) α) (y : StateM FileTree α) :
    Prop :=
  ∀ t log, ∃ more, x (t, log) = ((y t).1, (y t).2, log ++ first ++ more)

theorem traces_pure (a : α) : Traces [] (pure a) (pure a) := fun t log => ⟨[], by simp; rfl⟩

theorem Traces.bind {first : List Touch} {x : StateM (FileTree × List Touch) α}
    {y : StateM FileTree α} {f : α → StateM (FileTree × List Touch) β} {g : α → StateM FileTree β}
    (h : Traces first x y) (k : ∀ a, Traces [] (f a) (g a)) : Traces first (x >>= f) (y >>= g) := by
  intro t log
  obtain ⟨more, hx⟩ := h t log
  obtain ⟨others, hf⟩ := k (y t).1 (y t).2 (log ++ first ++ more)
  refine ⟨more ++ others, ?_⟩
  show f (x (t, log)).1 (x (t, log)).2 = ((g (y t).1 (y t).2).1, (g (y t).1 (y t).2).2, _)
  rw [hx]
  simpa using hf

theorem Traces.weaken {first : List Touch} {x : StateM (FileTree × List Touch) α}
    {y : StateM FileTree α} (h : Traces first x y) : Traces [] x y := by
  intro t log
  obtain ⟨more, hx⟩ := h t log
  exact ⟨first ++ more, by rw [hx, List.append_nil, List.append_assoc]⟩

theorem traces_ensureDirectory (path : String) :
    Traces [.ensureDirectory path] (traced.ensureDirectory path) (store.ensureDirectory path) :=
  fun t log => ⟨[], by simp; rfl⟩

theorem traces_writeText (path text : String) :
    Traces [.write path] (traced.writeText path text) (store.writeText path text) :=
  fun t log => ⟨[], by simp; rfl⟩

theorem traces_makeBehind (path : String) (outers : List String) :
    Traces [.ensureDirectory path] (traced.makeBehind path outers)
      (store.makeBehind path outers) := by
  induction outers generalizing path with
  | nil => exact traces_ensureDirectory path
  | cons outer rest ih =>
    refine (traces_ensureDirectory path).bind fun first => ?_
    split
    · refine (ih outer).weaken.bind fun second => ?_
      split
      · exact traces_pure _
      · exact (traces_ensureDirectory path).weaken
    · exact traces_pure _

/-- Writes the two files of a binding in a directory that is there. -/
def writeFiles {m : Type → Type} [Monad m] (store : FileStore m) (directory : String)
    (b : Binding) : m (Except FileFault (String × String)) := do
  match ← store.writeText (joinPath directory b.headerFile) b.header with
  | .error fault => return .error fault
  | .ok () =>
    match ← store.writeText (joinPath directory b.sourceFile) b.source with
    | .error fault => return .error fault
    | .ok () => return .ok (joinPath directory b.headerFile, joinPath directory b.sourceFile)

theorem writeBinding_eq {m : Type → Type} [Monad m] (store : FileStore m) (directory : String)
    (b : Binding) :
    writeBinding store directory b = (do
      match ← store.makeDirectories directory with
      | .error fault => return .error fault
      | .ok () => writeFiles store directory b) := rfl

theorem traces_writeFiles (directory : String) (b : Binding) :
    Traces [.write (joinPath directory b.headerFile)] (writeFiles traced directory b)
      (writeFiles store directory b) := by
  refine (traces_writeText _ _).bind fun first => ?_
  split
  · exact traces_pure _
  · refine (traces_writeText _ _).weaken.bind fun second => ?_
    split
    · exact traces_pure _
    · exact traces_pure _

/-- Writing a binding begins with a change. -/
theorem traces_writeBinding (directory : String) (b : Binding) :
    ∃ touch : Touch, touch.changes = true
      ∧ Traces [touch] (writeBinding traced directory b) (writeBinding store directory b) := by
  rw [writeBinding_eq, writeBinding_eq]
  -- For the empty path nothing is made, so it is the header that is asked for first.
  by_cases hdirectory : directory = ""
  · subst hdirectory
    exact ⟨.write (joinPath "" b.headerFile), rfl, traces_writeFiles "" b⟩
  · refine ⟨.ensureDirectory directory, rfl, ?_⟩
    have hmake : Traces [.ensureDirectory directory] (traced.makeDirectories directory)
        (store.makeDirectories directory) := by
      rw [FileStore.makeDirectories, FileStore.makeDirectories, if_neg hdirectory,
        if_neg hdirectory]
      exact traces_makeBehind directory _
    refine hmake.bind fun made => ?_
    split
    · exact traces_pure _
    · exact (traces_writeFiles directory b).weaken

/-! ### Runs -/

def schema (t : FileTree) (path : String) : Except SchemaFault Node :=
  match t.readText path with
  | .error fault => .error (.unreadable fault)
  | .ok text => (Markup.parse text).mapError .malformed

theorem readSchema_of_readText {σ : Type} {files : FileStore (StateM σ)} {path : String}
    {before after : σ} {t : FileTree} (h : files.readText path before = (t.readText path, after)) :
    readSchema files path before = (t.schema path, after) := by
  unfold readSchema schema
  simp only [bind, StateT.bind, h]
  cases t.readText path with
  | error fault => rfl
  | ok text => rfl

theorem readSchema_store (path : String) (t : FileTree) :
    readSchema store path t = (t.schema path, t) :=
  readSchema_of_readText rfl

theorem readSchema_traced (path : String) (t : FileTree) (log : List Touch) :
    readSchema traced path (t, log) = (t.schema path, t, log ++ [.read path]) :=
  readSchema_of_readText rfl

theorem traces_readSchema (path : String) :
    Traces [.read path] (readSchema traced path) (readSchema store path) :=
  fun t log => ⟨[], by rw [readSchema_store, readSchema_traced, List.append_nil]⟩

end SchemaBinding.FileTree

namespace SchemaBinding.Command

open FileTree (Touch Traces traced store traces_pure traces_readSchema traces_writeBinding
  readSchema_traced)

theorem traces_invocation (invocation : Invocation) :
    Traces [] (invocation.run traced) (invocation.run store) := by
  cases invocation with
  | version => exact traces_pure _
  | check input => exact (traces_readSchema input).weaken.bind fun read => traces_pure _
  | generate options =>
    refine (traces_readSchema options.input).weaken.bind fun read => ?_
    split
    · exact traces_pure _
    · next binding lines _ =>
      obtain ⟨touch, -, h⟩ := traces_writeBinding options.outputDirectory binding
      exact h.weaken.bind fun paths => traces_pure _

/-- **The whole program does with the trace what it does without.** -/
theorem traces_run (arguments : List String) :
    Traces [] (run traced arguments) (run store arguments) := by
  unfold run
  split
  · exact traces_pure _
  · exact traces_invocation _

variable {t : FileTree} {options : GenerateOptions}

/-- A check asks for nothing but the file that it reads. -/
theorem run_check_traced (input : String) (t : FileTree) (log : List Touch) :
    (Invocation.check input).run traced (t, log)
      = (checked input (t.schema input), t, log ++ [.read input]) := by
  show (fun s => (checked input s.1, s.2)) (readSchema traced input (t, log)) = _
  rw [readSchema_traced]

theorem run_generate_traced_of_error (log : List Touch) {outcome : Outcome}
    (h : generated options (t.schema options.input) = .error outcome) :
    (Invocation.generate options).run traced (t, log)
      = (outcome, t, log ++ [.read options.input]) := by
  unfold Invocation.run
  simp only [bind, StateT.bind, readSchema_traced, h]
  rfl

/-- What a binding is written for comes after the schema has been read. -/
theorem run_generate_traced_of_ok (log : List Touch) {b : Binding} {lines : List Line}
    (h : generated options (t.schema options.input) = .ok (b, lines)) :
    ∃ touch more, touch.changes = true ∧ ((Invocation.generate options).run traced (t, log)).2.2
      = log ++ [.read options.input] ++ [touch] ++ more := by
  obtain ⟨touch, hchanges, hwrite⟩ := traces_writeBinding options.outputDirectory b
  obtain ⟨more, hwrite⟩ := hwrite t (log ++ [.read options.input])
  refine ⟨touch, more, hchanges, ?_⟩
  unfold Invocation.run
  simp only [bind, StateT.bind, readSchema_traced, h, hwrite]
  rfl

end SchemaBinding.Command
