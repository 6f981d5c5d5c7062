/-!
# Scanning up to a mark

The readers of markup look for the end of a piece in what follows its beginning.  Each answers
with what stands before the end and what stands after it, or with nothing if the end is missing.

* `cut?_eq_some`, `closingAngle_eq_ok`: what is cut off, the mark and the rest make up the input,
  so the rest is shorter.
* `cut?_append`: the first place where the mark stands is the place of the cut.
-/

namespace SchemaBinding.Markup

def isSpace (c : Char) : Bool := c = ' ' || c = '\t' || c = '\r' || c = '\n'

/-- Cuts a text at the first place where the mark stands. -/
def cut? (mark : List Char) : List Char → Option (List Char × List Char)
  | [] => if mark = [] then some ([], []) else none
  | c :: rest =>
    if mark <+: c :: rest then some ([], (c :: rest).drop mark.length)
    else (cut? mark rest).map fun found => (c :: found.1, found.2)

/-- Cuts a text at the first `>` outside quotes.  `quote` is the quote that is open, if one is;
if the `>` is missing, the answer is the quote that is open at the end. -/
def closingAngle (quote : Option Char) :
    List Char → Except (Option Char) (List Char × List Char)
  | [] => .error quote
  | c :: rest =>
    match quote with
    | some q =>
      (closingAngle (if c = q then none else some q) rest).map fun found => (c :: found.1, found.2)
    | none =>
      if c = '>' then .ok ([], rest)
      else
        (closingAngle (if c = '"' ∨ c = '\'' then some c else none) rest).map
          fun found => (c :: found.1, found.2)

def afterStart? (start : List Char) (cs : List Char) : Option (List Char) :=
  if start <+: cs then some (cs.drop start.length) else none

/-! ### The cut and the input -/

theorem cut?_eq_some {mark cs before after : List Char} (h : cut? mark cs = some (before, after)) :
    cs = before ++ mark ++ after := by
  induction cs generalizing before with
  | nil =>
    simp only [cut?] at h
    split at h
    · next hm => simp_all
    · simp at h
  | cons c rest ih =>
    simp only [cut?] at h
    split at h
    · next hp =>
      obtain ⟨tail, ht⟩ := hp
      simp only [Option.some.injEq, Prod.mk.injEq] at h
      obtain ⟨rfl, rfl⟩ := h
      rw [← ht, List.drop_left, List.nil_append]
    · simp only [Option.map_eq_some_iff, Prod.mk.injEq] at h
      obtain ⟨⟨b, a⟩, hf, rfl, rfl⟩ := h
      simp [ih hf]

theorem length_of_cut? {mark cs before after : List Char}
    (h : cut? mark cs = some (before, after)) : after.length ≤ cs.length := by
  rw [cut?_eq_some h]
  simp only [List.length_append]
  omega

/-- The cut is at the first mark.  Text that the mark does not begin in is passed over. -/
theorem cut?_append {mark before after : List Char} (hm : mark ≠ [])
    (h : ∀ pre c post, before = pre ++ c :: post → ¬ mark <+: c :: post ++ mark ++ after) :
    cut? mark (before ++ mark ++ after) = some (before, after) := by
  induction before with
  | nil =>
    cases mark with
    | nil => exact absurd rfl hm
    | cons m ms =>
      have hp : m :: ms <+: m :: (ms ++ after) := ⟨after, by simp⟩
      simp [cut?, hp]
  | cons c rest ih =>
    have hn : ¬ mark <+: c :: (rest ++ mark ++ after) := h [] c rest rfl
    have hr := ih fun pre d post e => h (c :: pre) d post (by simp [e])
    simp only [List.cons_append, cut?, hn, if_false, hr, Option.map_some]

theorem closingAngle_eq_ok {quote : Option Char} {cs before after : List Char}
    (h : closingAngle quote cs = .ok (before, after)) : cs = before ++ '>' :: after := by
  have key : ∀ {q : Option Char} {c : Char} {rest : List Char} {before : List Char},
      (∀ {b : List Char}, closingAngle q rest = .ok (b, after) → rest = b ++ '>' :: after) →
      (closingAngle q rest).map (fun found => (c :: found.1, found.2)) = .ok (before, after) →
      c :: rest = before ++ '>' :: after := by
    intro q c rest before ih hm
    cases hc : closingAngle q rest with
    | error e => rw [hc] at hm; simp [Except.map] at hm
    | ok found =>
      obtain ⟨b, a⟩ := found
      rw [hc] at hm
      simp only [Except.map, Except.ok.injEq, Prod.mk.injEq] at hm
      obtain ⟨rfl, rfl⟩ := hm
      simp [ih hc]
  induction cs generalizing quote before with
  | nil => simp [closingAngle] at h
  | cons c rest ih =>
    cases quote with
    | some q => exact key ih (by simpa [closingAngle] using h)
    | none =>
      by_cases hc : c = '>'
      · subst hc
        simp only [closingAngle, if_true, Except.ok.injEq, Prod.mk.injEq] at h
        obtain ⟨rfl, rfl⟩ := h
        rfl
      · exact key ih (by simpa [closingAngle, hc] using h)

theorem length_of_closingAngle {quote : Option Char} {cs before after : List Char}
    (h : closingAngle quote cs = .ok (before, after)) : after.length ≤ cs.length := by
  rw [closingAngle_eq_ok h]
  simp only [List.length_append, List.length_cons]
  omega

theorem afterStart?_append (start rest : List Char) :
    afterStart? start (start ++ rest) = some rest := by
  simp [afterStart?]

theorem length_of_afterStart? {start cs rest : List Char} (h : afterStart? start cs = some rest) :
    rest.length ≤ cs.length := by
  simp only [afterStart?] at h
  split at h
  · simp only [Option.some.injEq] at h
    rw [← h, List.length_drop]
    omega
  · simp at h

theorem length_of_dropWhile {p : Char → Bool} {c : Char} {cs rest : List Char}
    (h : cs.dropWhile p = c :: rest) : rest.length < cs.length := by
  have := (List.dropWhile_suffix p (l := cs)).length_le
  rw [h, List.length_cons] at this
  omega

end SchemaBinding.Markup
