import SchemaBinding.File.Tree
import Mathlib.Data.List.Basic

/-!
# Writing into a tree of files

Making directories adds directories where nothing is, and writing a file changes one place.  Neither
changes the way to a place that could be reached before, so what is written is read back, also once
another file has been written behind it.

* `Grows`: a tree that only has more directories.
* `growing_makeDirectories`: making directories leaves every file where it is.
* `follow_insert_file`: a file where no directory is does not change the way to a place.
* `follow_concat`, `locate_joinPath`: a file in a directory stands in the place of the directory.
* `find?_insert_file`, `readText_of_find?`: what is written is read back.
-/

namespace SchemaBinding.FileTree

variable {t u v : FileTree}

/-! ### More directories -/

/-- A tree in which there are more directories, and all else is as before. -/
structure Grows (t u : FileTree) : Prop where
  home : u.home = t.home
  find? : ∀ place, u.find? place = t.find? place
    ∨ t.find? place = none ∧ u.find? place = some .directory

theorem Grows.refl (t : FileTree) : Grows t t := ⟨rfl, fun _ => Or.inl rfl⟩

theorem Grows.trans (h : Grows t u) (k : Grows u v) : Grows t v := by
  refine ⟨k.home.trans h.home, fun place => ?_⟩
  rcases k.find? place with hv | ⟨hnone, hv⟩
  · rw [hv]
    exact h.find? place
  · rcases h.find? place with hu | ⟨-, hu⟩
    · exact Or.inr ⟨hu.symm.trans hnone, hv⟩
    · rw [hu] at hnone
      cases hnone

theorem not_isPrefixOf_of_find?_eq_none {place : List String} (h : t.find? place = none) :
    place.isPrefixOf t.home = false := by
  cases hprefix : place.isPrefixOf t.home with
  | false => rfl
  | true => simp [FileTree.find?, hprefix] at h

theorem grows_ensureDirectory {path : String} (h : t.ensureDirectory path = .ok u) : Grows t u := by
  unfold ensureDirectory at h
  split at h
  · cases h
  · next place _ =>
    split at h
    · next hnone =>
      cases h
      refine ⟨rfl, fun other => ?_⟩
      by_cases hother : other = place
      · subst hother
        exact Or.inr ⟨hnone, find?_insert_self (not_isPrefixOf_of_find?_eq_none hnone) _⟩
      · exact Or.inl (find?_insert_of_ne hother _ _)
    · cases h
      exact Grows.refl _
    · cases h

def Growing {α : Type} (x : StateM FileTree α) : Prop := ∀ t, Grows t (x t).2

theorem growing_pure {α : Type} (a : α) : Growing (pure a) := Grows.refl

theorem Growing.bind {α β : Type} {x : StateM FileTree α} {f : α → StateM FileTree β}
    (h : Growing x) (k : ∀ a, Growing (f a)) : Growing (x >>= f) :=
  fun t => (h t).trans (k (x t).1 (x t).2)

theorem growing_ensureDirectory (path : String) : Growing (store.ensureDirectory path) := by
  intro t
  show Grows t (change _ t).2
  unfold change
  split
  · next h => exact grows_ensureDirectory h
  · exact Grows.refl t

theorem growing_makeBehind (path : String) (outers : List String) :
    Growing (store.makeBehind path outers) := by
  induction outers generalizing path with
  | nil => exact growing_ensureDirectory path
  | cons outer rest ih =>
    refine (growing_ensureDirectory path).bind fun first => ?_
    split
    · refine (ih outer).bind fun second => ?_
      split
      · exact growing_pure _
      · exact growing_ensureDirectory path
    · exact growing_pure _

/-- **Making directories leaves every file where it is.** -/
theorem growing_makeDirectories (path : String) : Growing (store.makeDirectories path) := by
  unfold FileStore.makeDirectories
  split
  · exact growing_pure _
  · exact growing_makeBehind path _

/-! ### Names at the end of a path -/

theorem fields_concat {sep : Char} {last : List Char} (h : sep ∉ last) (cs : List Char) :
    Text.fields sep (cs ++ sep :: last) = Text.fields sep cs ++ [last] := by
  induction cs with
  | nil => simp [Text.fields, Text.fields_of_not_mem h]
  | cons c rest ih =>
    rw [List.cons_append, Text.fields, Text.fields, ih]
    split
    · rfl
    · obtain ⟨first, others, hfields⟩ :=
        List.exists_cons_of_ne_nil (Text.fields_ne_nil sep rest)
      rw [hfields]
      rfl

theorem exists_fields_eq {sep c : Char} (hc : c ≠ sep) {cs : List Char}
    (h : cs.getLast? = some c) :
    ∃ before last, Text.fields sep cs = before ++ [last] ∧ last.getLast? = some c := by
  induction cs with
  | nil => cases h
  | cons d rest ih =>
    cases rest with
    | nil =>
      obtain rfl : d = c := Option.some.inj h
      exact ⟨[], [d], by simp [Text.fields, hc], rfl⟩
    | cons e more =>
      rw [List.getLast?_cons_cons] at h
      obtain ⟨before, last, hfields, hlast⟩ := ih h
      by_cases hd : d = sep
      · exact ⟨[] :: before, last, by rw [Text.fields, if_pos hd, hfields]; rfl, hlast⟩
      · rw [Text.fields, if_neg hd, hfields]
        cases before with
        | nil =>
          refine ⟨[], d :: last, rfl, ?_⟩
          rw [List.getLast?_cons, hlast]
          rfl
        | cons first others => exact ⟨(d :: first) :: others, last, rfl, hlast⟩

/-- A path that does not end in a slash has a name at its end. -/
theorem exists_namesOf_eq {path : String} {c : Char} (h : path.toList.getLast? = some c)
    (hc : c ≠ '/') :
    ∃ before name, namesOf path = before ++ [name] ∧ name.toList.getLast? = some c := by
  obtain ⟨before, last, hfields, hlast⟩ := exists_fields_eq hc h
  refine ⟨before.map String.ofList, String.ofList last, ?_, ?_⟩
  · rw [namesOf, hfields, List.map_append]
    rfl
  · rw [String.toList_ofList]
    exact hlast

theorem getLast?_joinPath (directory : String) {name : String} {c : Char}
    (h : name.toList.getLast? = some c) : (joinPath directory name).toList.getLast? = some c := by
  have happend : ∀ front : String, (front ++ name).toList.getLast? = some c := by
    intro front
    rw [String.toList_append, List.getLast?_append, h, Option.some_or]
  unfold joinPath
  split
  · exact h
  · split
    · exact happend _
    · exact happend _

/-- A path to a file in a directory goes through the directory. -/
theorem exists_joinPath_eq {directory name : String} (hdirectory : directory ≠ "")
    (hname : '/' ∉ name.toList) :
    ∃ tail before, joinPath directory name = directory ++ tail
      ∧ namesOf (joinPath directory name) = before ++ [name]
      ∧ (namesOf directory = before ∨ namesOf directory = before ++ [""]) := by
  have hrelative : isAbsolute name = false := by
    simp only [isAbsolute, decide_eq_false_iff_not]
    intro h
    exact hname (List.mem_of_head? h)
  rw [joinPath, if_neg (by simp [hrelative, hdirectory])]
  split
  · next hslash =>
    obtain ⟨front, hfront⟩ := List.getLast?_eq_some_iff.1 hslash
    refine ⟨name, (Text.fields '/' front).map String.ofList, rfl, ?_, Or.inr ?_⟩
    · rw [namesOf, String.toList_append, hfront, List.append_assoc, List.singleton_append,
        fields_concat hname, List.map_append]
      simp
    · rw [namesOf, hfront, fields_concat List.not_mem_nil, List.map_append]
      rfl
  · refine ⟨"/" ++ name, namesOf directory, String.append_assoc, ?_, Or.inl rfl⟩
    rw [namesOf, String.toList_append, String.toList_append, List.append_assoc,
      show "/".toList = ['/'] from rfl, List.singleton_append, fields_concat hname, List.map_append]
    simp [namesOf]

/-! ### Ways -/

/-- **A file where no directory is does not change the way to a place.** -/
theorem follow_insert_file {place : List String} (h : t.hasDirectory place = false)
    (content : ByteArray) {start found : List String} {names : List String}
    (hfollow : t.follow start names = .ok found) :
    (t.insert place (.file content)).follow start names = .ok found := by
  fun_induction t.follow start names with
  | case1 start => exact hfollow
  | case2 start name rest hstay ih =>
    rw [follow, if_pos hstay]
    exact ih hfollow
  | case3 start rest hstay ih =>
    rw [follow, if_neg hstay, if_pos rfl]
    exact ih hfollow
  | case4 => cases hfollow
  | case5 start name hstay hout hlong =>
    rw [follow, if_neg hstay, if_neg hout, if_neg hlong, if_pos rfl]
    exact hfollow
  | case6 start name rest hstay hout hlong hrest hdirectory ih =>
    have hne : start ++ [name] ≠ place := by
      rintro rfl
      rw [hasDirectory, hdirectory] at h
      cases h
    rw [follow, if_neg hstay, if_neg hout, if_neg hlong, if_neg hrest, find?_insert_of_ne hne,
      hdirectory]
    exact ih hfollow
  | case7 => cases hfollow
  | case8 => cases hfollow

theorem locate_insert_file {place : List String} (h : t.hasDirectory place = false)
    (content : ByteArray) {path : String} {names found : List String}
    (hlocate : t.locate path names = .ok found) :
    (t.insert place (.file content)).locate path names = .ok found := by
  unfold locate at hlocate ⊢
  split at hlocate
  · cases hlocate
  · next hnul =>
    split at hlocate
    · cases hlocate
    · next hempty =>
      split at hlocate
      · cases hlocate
      · next hlong =>
        rw [if_neg hnul, if_neg hempty, if_neg hlong]
        exact follow_insert_file h content hlocate

/-- A name on the way leads to a directory, from which the others are followed. -/
theorem exists_step {start found rest : List String} {first : String} (hrest : rest ≠ [])
    (h : t.follow start (first :: rest) = .ok found) :
    ∃ next, t.follow next rest = .ok found ∧ t.follow start [first] = .ok next
      ∧ ∀ others, others ≠ [] → t.follow start (first :: others) = t.follow next others := by
  rw [follow] at h
  split at h
  · next hstay =>
    exact ⟨start, h, by rw [follow, if_pos hstay, follow],
      fun others _ => by rw [follow, if_pos hstay]⟩
  · next hstay =>
    split at h
    · next hout =>
      exact ⟨start.dropLast, h, by rw [follow, if_neg hstay, if_pos hout, follow],
        fun others _ => by rw [follow, if_neg hstay, if_pos hout]⟩
    · next hout =>
      split at h
      · cases h
      · next hlong =>
        split at h
        · next hdirectory =>
          refine ⟨start ++ [first], h, ?_, fun others hothers => ?_⟩
          · rw [follow, if_neg hstay, if_neg hout, if_neg hlong, if_pos rfl]
          · rw [follow, if_neg hstay, if_neg hout, if_neg hlong, if_neg hothers, hdirectory]
        · cases h
        · cases h

/-- A name at the end of a path is the last of the place, behind that of the directory. -/
theorem follow_concat {start found before : List String} {name : String}
    (hname : name ≠ "" ∧ name ≠ "." ∧ name ≠ "..")
    (h : t.follow start (before ++ [name]) = .ok found) :
    ∃ outer, found = outer ++ [name] ∧ t.follow start before = .ok outer
      ∧ t.follow start (before ++ [""]) = .ok outer := by
  induction before generalizing start with
  | nil =>
    rw [List.nil_append, follow, if_neg (by simp [hname]), if_neg hname.2.2] at h
    split at h
    · cases h
    · rw [if_pos rfl] at h
      cases h
      exact ⟨start, rfl, rfl, by rw [List.nil_append, follow, if_pos (Or.inl rfl), follow]⟩
  | cons first rest ih =>
    obtain ⟨next, hfollow, hfirst, hothers⟩ := exists_step (by simp) h
    obtain ⟨outer, hfound, hbefore, hslash⟩ := ih hfollow
    refine ⟨outer, hfound, ?_, (hothers _ (by simp)).trans hslash⟩
    cases rest with
    | nil => exact hfirst.trans hbefore
    | cons second more => exact (hothers _ (by simp)).trans hbefore

/-- A name that ends in a letter leads nowhere else. -/
theorem ne_of_getLast? {name : String} {c : Char} (h : name.toList.getLast? = some c)
    (hdot : c ≠ '.') : name ≠ "" ∧ name ≠ "." ∧ name ≠ ".." := by
  refine ⟨?_, ?_, ?_⟩
  · rintro rfl
    cases h
  · rintro rfl
    exact hdot (Option.some.inj h).symm
  · rintro rfl
    exact hdot (Option.some.inj h).symm

/-- A path that ends in a letter leads to a place whose last name ends in it. -/
theorem exists_getLast?_of_locate {path : String} {place : List String} {c : Char}
    (h : path.toList.getLast? = some c) (hslash : c ≠ '/') (hdot : c ≠ '.')
    (hlocate : t.locate path (namesOf path) = .ok place) :
    ∃ name, place.getLast? = some name ∧ name.toList.getLast? = some c := by
  obtain ⟨before, name, hnames, hname⟩ := exists_namesOf_eq h hslash
  rw [hnames] at hlocate
  unfold locate at hlocate
  split at hlocate
  · cases hlocate
  · split at hlocate
    · cases hlocate
    · split at hlocate
      · cases hlocate
      · obtain ⟨outer, rfl, -⟩ := follow_concat (ne_of_getLast? hname hdot) hlocate
        exact ⟨name, List.getLast?_concat, hname⟩

/-- Paths that end in different letters lead to different places, also in different trees. -/
theorem ne_of_locate {path other : String} {place place' : List String} {c d : Char}
    (h : path.toList.getLast? = some c) (hc : c ≠ '/' ∧ c ≠ '.')
    (k : other.toList.getLast? = some d) (hd : d ≠ '/' ∧ d ≠ '.') (hne : c ≠ d)
    (hplace : t.locate path (namesOf path) = .ok place)
    (hplace' : u.locate other (namesOf other) = .ok place') : place ≠ place' := by
  rintro rfl
  obtain ⟨name, hlast, hname⟩ := exists_getLast?_of_locate h hc.1 hc.2 hplace
  obtain ⟨name', hlast', hname'⟩ := exists_getLast?_of_locate k hd.1 hd.2 hplace'
  obtain rfl : name = name' := Option.some.inj (hlast.symm.trans hlast')
  exact hne (Option.some.inj (hname.symm.trans hname'))

/-- A file in a directory stands in the place that the directory has. -/
theorem locate_joinPath {directory name : String} {found : List String}
    (hdirectory : directory ≠ "") (hslash : '/' ∉ name.toList)
    (hname : name ≠ "" ∧ name ≠ "." ∧ name ≠ "..")
    (h : t.locate (joinPath directory name) (namesOf (joinPath directory name)) = .ok found) :
    ∃ place, t.locate directory (namesOf directory) = .ok place ∧ found = place ++ [name] := by
  obtain ⟨tail, before, hpath, hnames, hbefore⟩ := exists_joinPath_eq hdirectory hslash
  rw [hnames, hpath] at h
  unfold locate at h ⊢
  split at h
  · cases h
  · next hnul =>
    split at h
    · cases h
    · split at h
      · cases h
      · next hlong =>
        have habsolute : isAbsolute (directory ++ tail) = isAbsolute directory := by
          obtain ⟨c, rest, hcons⟩ := List.exists_cons_of_ne_nil
            (show directory.toList ≠ [] by simpa using hdirectory)
          simp only [isAbsolute, String.toList_append, hcons, List.cons_append, List.head?_cons]
        rw [habsolute] at h
        obtain ⟨outer, hfound, hleads, hleads'⟩ := follow_concat hname h
        rw [if_neg (by simp at hnul ⊢; exact hnul.1), if_neg hdirectory,
          if_neg (by rw [String.utf8ByteSize_append] at hlong; omega)]
        refine ⟨outer, ?_, hfound⟩
        rcases hbefore with hbefore | hbefore
        · rw [hbefore]
          exact hleads
        · rw [hbefore]
          exact hleads'
/-! ### What is written -/

theorem writeText_eq_ok {path text : String} (h : t.writeText path text = .ok u) :
    ∃ place, t.locate path (namesOf path) = .ok place ∧ t.hasDirectory place = false
      ∧ u = t.insert place (.file text.toUTF8) := by
  unfold writeText at h
  split at h
  · cases h
  · next place hlocate =>
    split at h
    · cases h
    · next hdirectory =>
      cases h
      exact ⟨place, hlocate, by simpa using hdirectory, rfl⟩

theorem find?_insert_file {place : List String} (h : t.hasDirectory place = false)
    (content : ByteArray) :
    (t.insert place (.file content)).find? place = some (.file content) := by
  refine find?_insert_self ?_ _
  cases hprefix : place.isPrefixOf t.home with
  | false => rfl
  | true => simp [hasDirectory, find?, hprefix] at h

theorem fromUTF8?_toUTF8 (text : String) : String.fromUTF8? text.toUTF8 = some text :=
  dif_pos text.isValidUTF8

/-- What a place holds is read there. -/
theorem readText_of_find? {path : String} {place : List String} {text : String}
    (hlocate : t.locate path (namesOf path) = .ok place)
    (hfile : t.find? place = some (.file text.toUTF8)) : t.readText path = .ok text := by
  rw [readText, hlocate]
  simp only [hfile, fromUTF8?_toUTF8]

end SchemaBinding.FileTree
