/-!
# Fields of a text

`fields sep cs` cuts a text at every separator.  There is always one more field than there are
separators, so the empty text has one empty field.

* `fields_append`: a field without separators and the separator after it are cut off first.
* `fields_of_not_mem`: a text without separators is its only field.
* `fields_flatMap`: a text is cut where it was put together.
* `lines_unlines`: lines written each with a line break after it are read back.
-/

namespace SchemaBinding.Text

def fields (sep : Char) : List Char → List (List Char)
  | [] => [[]]
  | c :: rest =>
    if c = sep then [] :: fields sep rest else (fields sep rest).modifyHead (c :: ·)

theorem fields_ne_nil (sep : Char) (cs : List Char) : fields sep cs ≠ [] := by
  cases cs with
  | nil => simp [fields]
  | cons c rest =>
    by_cases h : c = sep
    · simp [fields, h]
    · cases hf : fields sep rest with
      | nil => exact absurd hf (fields_ne_nil sep rest)
      | cons f fs => simp [fields, h, hf]

theorem fields_of_not_mem {sep : Char} {cs : List Char} (h : sep ∉ cs) : fields sep cs = [cs] := by
  induction cs with
  | nil => rfl
  | cons c rest ih =>
    simp only [List.mem_cons, not_or] at h
    simp [fields, Ne.symm h.1, ih h.2]

theorem fields_append {sep : Char} {field : List Char} (h : sep ∉ field) (rest : List Char) :
    fields sep (field ++ sep :: rest) = field :: fields sep rest := by
  induction field with
  | nil => simp [fields]
  | cons c field ih =>
    simp only [List.mem_cons, not_or] at h
    simp [fields, Ne.symm h.1, ih h.2]

/-- Only the empty text is cut into nothing but an empty field. -/
theorem eq_nil_of_fields {sep : Char} {cs : List Char} (h : fields sep cs = [[]]) : cs = [] := by
  cases cs with
  | nil => rfl
  | cons c rest =>
    obtain ⟨f, fs, hf⟩ := List.exists_cons_of_ne_nil (fields_ne_nil sep rest)
    by_cases hc : c = sep
    · simp [fields, hc, hf] at h
    · simp [fields, hc, hf] at h

/-- A text is cut where it was put together. -/
theorem fields_flatMap {sep : Char} {flags : List (List Char)} {last : List Char}
    (hflags : ∀ f ∈ flags, sep ∉ f) (hlast : sep ∉ last) :
    fields sep (flags.flatMap (· ++ [sep]) ++ last) = flags ++ [last] := by
  induction flags with
  | nil => exact fields_of_not_mem hlast
  | cons f fs ih =>
    rw [List.flatMap_cons, List.append_assoc, List.append_assoc, List.singleton_append,
      fields_append (hflags f (by simp)), ih fun g hg => hflags g (by simp [hg])]
    rfl

theorem notMem_of_mem_fields {sep : Char} {cs field : List Char} (h : field ∈ fields sep cs) :
    sep ∉ field := by
  induction cs generalizing field with
  | nil =>
    rw [fields, List.mem_singleton] at h
    rw [h]
    exact List.not_mem_nil
  | cons c rest ih =>
    by_cases hc : c = sep
    · rw [fields, if_pos hc, List.mem_cons] at h
      rcases h with rfl | h
      · exact List.not_mem_nil
      · exact ih h
    · rw [fields, if_neg hc] at h
      cases hf : fields sep rest with
      | nil => exact absurd hf (fields_ne_nil sep rest)
      | cons f fs =>
        rw [hf, List.modifyHead_cons, List.mem_cons] at h
        rcases h with rfl | h
        · have hfirst : sep ∉ f := ih (by rw [hf]; exact List.mem_cons_self)
          simp [Ne.symm hc, hfirst]
        · exact ih (by rw [hf]; exact List.mem_cons_of_mem _ h)

def unlines (ls : List String) : String :=
  String.ofList (ls.flatMap fun l => l.toList ++ ['\n'])

/-- Reads the lines of a text in which a line break follows every line. -/
def lines (s : String) : List String :=
  ((fields '\n' s.toList).dropLast).map String.ofList

theorem lines_unlines {ls : List String} (h : ∀ l ∈ ls, '\n' ∉ l.toList) :
    lines (unlines ls) = ls := by
  have key : fields '\n' (ls.flatMap fun l => l.toList ++ ['\n'])
      = ls.map String.toList ++ [[]] := by
    have hlines : ∀ f ∈ ls.map String.toList, '\n' ∉ f := fun f hf => by
      obtain ⟨l, hl, rfl⟩ := List.mem_map.1 hf
      exact h l hl
    have hcut := fields_flatMap hlines List.not_mem_nil
    rwa [List.append_nil, List.flatMap_map] at hcut
  rw [lines, unlines, String.toList_ofList, key, List.dropLast_concat, List.map_map]
  have : String.ofList ∘ String.toList = id := by
    funext s; exact String.ofList_toList
  rw [this, List.map_id]

end SchemaBinding.Text
