import SchemaBinding.Proofs.Command.Trace
import SchemaBinding.Proofs.File.Writing

/-!
# A binding in the files

Writing a binding makes the directory, then the header, then the source.  `Wrote` says what the
files are like once all three have come off: both files are read back as they are in the binding,
and no other file has been changed or made.

* `wrote_writeBinding`: a binding that is written without a fault is in the files.
-/

namespace SchemaBinding.FileTree

variable {t u : FileTree} {directory : String} {b : Binding}

/-- A path leads to a place, at which there may be nothing. -/
def Leads (t : FileTree) (path : String) (place : List String) : Prop :=
  t.locate path (namesOf path) = .ok place

theorem Leads.unique {path : String} {place other : List String} (h : t.Leads path place)
    (k : t.Leads path other) : place = other :=
  Except.ok.inj (h.symm.trans k)

/-- What became of the files when a binding was written to a directory. -/
structure Wrote (t u : FileTree) (directory : String) (b : Binding) : Prop where
  header : u.readText (joinPath directory b.headerFile) = .ok b.header
  source : u.readText (joinPath directory b.sourceFile) = .ok b.source
  /-- Names without a slash stand in the directory itself. -/
  inside : directory ≠ "" → '/' ∉ b.headerFile.toList → '/' ∉ b.sourceFile.toList →
    ∃ place, u.Leads directory place
      ∧ u.Leads (joinPath directory b.headerFile) (place ++ [b.headerFile])
      ∧ u.Leads (joinPath directory b.sourceFile) (place ++ [b.sourceFile])
  others : ∀ place, ¬ u.Leads (joinPath directory b.headerFile) place →
    ¬ u.Leads (joinPath directory b.sourceFile) place →
    u.find? place = t.find? place ∨ t.find? place = none ∧ u.find? place = some .directory

theorem change_eq_ok {operation : FileTree → Except FileFault FileTree} {made : Unit}
    (h : (change operation t).1 = .ok made) : operation t = .ok (change operation t).2 := by
  unfold change at h ⊢
  split at h
  · next heq => rw [heq]
  · cases h

/-- A program that goes on only behind a step without a fault. -/
theorem eq_ok_of_andThen {α : Type} {x : StateM FileTree (Except FileFault Unit)}
    {f : StateM FileTree (Except FileFault α)} {a : α}
    (h : ((do
      match ← x with
      | .error fault => return .error fault
      | .ok () => f : StateM FileTree (Except FileFault α)) t).1 = .ok a) :
    (x t).1 = .ok () ∧ (f (x t).2).1 = .ok a
      ∧ ((do
        match ← x with
        | .error fault => return .error fault
        | .ok () => f : StateM FileTree (Except FileFault α)) t).2 = (f (x t).2).2 := by
  simp only [bind, StateT.bind] at h ⊢
  rcases hx : x t with ⟨fault | made, v⟩
  · rw [hx] at h
    cases h
  · rw [hx] at h
    exact ⟨rfl, h, rfl⟩

/-- Both files are written one behind the other. -/
theorem writeFiles_eq_ok {paths : String × String}
    (h : (writeFiles store directory b t).1 = .ok paths) :
    paths = (joinPath directory b.headerFile, joinPath directory b.sourceFile)
      ∧ ∃ v, t.writeText (joinPath directory b.headerFile) b.header = .ok v
        ∧ v.writeText (joinPath directory b.sourceFile) b.source
          = .ok (writeFiles store directory b t).2 := by
  obtain ⟨hheader, h, hafter⟩ := eq_ok_of_andThen h
  obtain ⟨hsource, h, hlast⟩ := eq_ok_of_andThen h
  have hboth : (writeFiles store directory b t).2 = _ := hafter.trans hlast
  refine ⟨(Except.ok.inj h).symm, _, change_eq_ok hheader, ?_⟩
  rw [hboth]
  exact change_eq_ok hsource

theorem writeBinding_eq_ok {paths : String × String}
    (h : (writeBinding store directory b t).1 = .ok paths) :
    ∃ v, Grows t v ∧ (writeFiles store directory b v).1 = .ok paths
      ∧ (writeBinding store directory b t).2 = (writeFiles store directory b v).2 := by
  rw [writeBinding_eq] at h ⊢
  obtain ⟨-, h, hafter⟩ := eq_ok_of_andThen h
  exact ⟨_, growing_makeDirectories directory t, h, hafter⟩

/-- **A binding that is written without a fault is in the files**, and its paths are answered. -/
theorem wrote_writeBinding {paths : String × String}
    (h : (writeBinding store directory b t).1 = .ok paths)
    (hheader : b.headerFile.toList.getLast? = some 'h')
    (hsource : b.sourceFile.toList.getLast? = some 'p') :
    paths = (joinPath directory b.headerFile, joinPath directory b.sourceFile)
      ∧ Wrote t (writeBinding store directory b t).2 directory b := by
  obtain ⟨v, hgrows, h, hafter⟩ := writeBinding_eq_ok h
  obtain ⟨hpaths, w, hw, hu⟩ := writeFiles_eq_ok h
  refine ⟨hpaths, ?_⟩
  rw [← hafter] at hu
  generalize (writeBinding store directory b t).2 = u at hu ⊢
  obtain ⟨headerPlace, hheaderPlace, hfree, rfl⟩ := writeText_eq_ok hw
  obtain ⟨sourcePlace, hsourcePlace, hfree', rfl⟩ := writeText_eq_ok hu
  have hne : headerPlace ≠ sourcePlace :=
    ne_of_locate (getLast?_joinPath directory hheader) (by decide)
      (getLast?_joinPath directory hsource) (by decide) (by decide) hheaderPlace hsourcePlace
  -- Neither file stands where a directory is, so what led to a place still does behind both.
  have hheaderLeads := locate_insert_file hfree' b.source.toUTF8
    (locate_insert_file hfree b.header.toUTF8 hheaderPlace)
  have hsourceLeads := locate_insert_file hfree' b.source.toUTF8 hsourcePlace
  refine ⟨?_, ?_, fun hdirectory hslash hslash' => ?_, fun place hplace hplace' => ?_⟩
  · refine readText_of_find? hheaderLeads ?_
    rw [find?_insert_of_ne hne]
    exact find?_insert_file hfree _
  · exact readText_of_find? hsourceLeads (find?_insert_file hfree' _)
  · obtain ⟨place, hdirectoryLeads, rfl⟩ := locate_joinPath hdirectory hslash
      (ne_of_getLast? hheader (by decide)) hheaderLeads
    obtain ⟨other, hother, rfl⟩ := locate_joinPath hdirectory hslash'
      (ne_of_getLast? hsource (by decide)) hsourceLeads
    obtain rfl : place = other := Leads.unique hdirectoryLeads hother
    exact ⟨place, hdirectoryLeads, hheaderLeads, hsourceLeads⟩
  · have hplaceHeader : place ≠ headerPlace := by
      rintro rfl
      exact hplace hheaderLeads
    have hplaceSource : place ≠ sourcePlace := by
      rintro rfl
      exact hplace' hsourceLeads
    rw [find?_insert_of_ne hplaceSource, find?_insert_of_ne hplaceHeader]
    exact hgrows.find? place

end SchemaBinding.FileTree
