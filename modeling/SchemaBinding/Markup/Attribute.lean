import SchemaBinding.Markup.Scan

/-!
# Attributes of a tag

`readAttributes` reads the attributes of a tag from what follows its name.  Only an attribute
whose value stands in quotes and whose key is new in the tag is kept; anything else is passed
over, and reading goes on behind it.

* `readAttributes_quoted`: a quoted value under a new key is read, and then the rest.
* `keys_readAttributes`: the keys that are read are pairwise distinct.
-/

namespace SchemaBinding.Markup

/-- An attribute as it is written: its value may still hold references. -/
structure RawAttribute where
  key : String
  value : String
deriving DecidableEq, Repr

/-- A key ends before the next `=` or space. -/
def isKeyCharacter (c : Char) : Bool := c ≠ '=' && !isSpace c

def isQuote (c : Char) : Bool := c = '"' || c = '\''

/-- Reads attributes.  `seen` holds the keys met before. -/
def readAttributes (seen : List String) (cs : List Char) : List RawAttribute :=
  match hcs : cs.dropWhile isSpace with
  | [] => []
  | first :: more =>
    have := length_of_dropWhile hcs
    let key := String.ofList (first :: more.takeWhile isKeyCharacter)
    match hrest : (more.dropWhile isKeyCharacter).dropWhile isSpace with
    | [] => []
    | sign :: value =>
      have := length_of_dropWhile hrest
      have := (List.dropWhile_suffix isKeyCharacter (l := more)).length_le
      have := (List.dropWhile_suffix (!isSpace ·) (l := value)).length_le
      if sign ≠ '=' then readAttributes seen (sign :: value)
      else if key ∈ seen then readAttributes seen (value.dropWhile (!isSpace ·))
      else
        match hvalue : value.dropWhile isSpace with
        | [] => []
        | quote :: body =>
          have := length_of_dropWhile hvalue
          have := (List.dropWhile_suffix (!isSpace ·) (l := body)).length_le
          if isQuote quote then
            match hbody : cut? [quote] body with
            | none => []
            | some (text, rest) =>
              have := length_of_cut? hbody
              ⟨key, String.ofList text⟩ :: readAttributes (key :: seen) rest
          else readAttributes (key :: seen) (body.dropWhile (!isSpace ·))
termination_by cs.length

/-! ### What is read -/

theorem dropWhile_of_head {p : Char → Bool} {c : Char} (h : p c = false) (rest : List Char) :
    (c :: rest).dropWhile p = c :: rest := by
  rw [List.dropWhile_cons, h]; rfl

theorem cut?_quote {quote : Char} {text : List Char} (h : quote ∉ text) (rest : List Char) :
    cut? [quote] (text ++ quote :: rest) = some (text, rest) := by
  have first : ∀ pre c post, text = pre ++ c :: post →
      ¬ [quote] <+: c :: post ++ [quote] ++ rest := by
    intro pre c post e hp
    rw [List.append_assoc, List.cons_append, List.cons_prefix_cons] at hp
    exact h (by rw [e, hp.1]; simp)
  have key := cut?_append (List.cons_ne_nil quote []) first
  simpa using key

/-- The parts of a text that begins with a key, a sign and a quote.  There may be space before the
key and around the sign. -/
theorem parts_of_quoted {gap more before after : List Char} {first quote : Char}
    (hgap : ∀ c ∈ gap, isSpace c = true) (hfirst : isSpace first = false)
    (hmore : ∀ c ∈ more, isKeyCharacter c = true) (hbefore : ∀ c ∈ before, isSpace c = true)
    (hafter : ∀ c ∈ after, isSpace c = true) (hquote : isQuote quote = true) (body : List Char) :
    (gap ++ (first :: more ++ (before ++ '=' :: (after ++ quote :: body)))).dropWhile isSpace
      = first :: (more ++ (before ++ '=' :: (after ++ quote :: body)))
    ∧ (more ++ (before ++ '=' :: (after ++ quote :: body))).takeWhile isKeyCharacter = more
    ∧ ((more ++ (before ++ '=' :: (after ++ quote :: body))).dropWhile isKeyCharacter).dropWhile
        isSpace = '=' :: (after ++ quote :: body)
    ∧ (after ++ quote :: body).dropWhile isSpace = quote :: body := by
  have hspace : isSpace '=' = false := by decide
  have hq : isSpace quote = false := by
    simp only [isQuote, Bool.or_eq_true, decide_eq_true_eq] at hquote
    rcases hquote with rfl | rfl <;> decide
  generalize hvalue : after ++ quote :: body = value
  -- the key ends before the sign, or before the space that stands there
  obtain ⟨stop, behind, hsign, hstop⟩ : ∃ stop behind,
      before ++ '=' :: value = stop :: behind ∧ isKeyCharacter stop = false := by
    cases before with
    | nil => exact ⟨'=', value, rfl, by decide⟩
    | cons c cs => exact ⟨c, cs ++ '=' :: value, rfl, by simp [isKeyCharacter, hbefore c]⟩
  refine ⟨?_, ?_, ?_, ?_⟩
  · rw [List.dropWhile_append_of_pos hgap, List.cons_append, dropWhile_of_head hfirst]
  · rw [List.takeWhile_append_of_pos hmore, hsign, List.takeWhile_cons, hstop]; simp
  · rw [List.dropWhile_append_of_pos hmore, hsign, dropWhile_of_head hstop, ← hsign,
      List.dropWhile_append_of_pos hbefore, dropWhile_of_head hspace]
  · rw [← hvalue, List.dropWhile_append_of_pos hafter, dropWhile_of_head hq]

/-- A quoted value under a new key is read, and then the rest.  There may be space around the
sign. -/
theorem readAttributes_quoted {seen : List String} {key text : List Char} {quote : Char}
    (hkey : key ≠ []) (hchars : ∀ c ∈ key, isKeyCharacter c = true)
    (hseen : String.ofList key ∉ seen) (hquote : isQuote quote = true) (htext : quote ∉ text)
    {gap before after : List Char} (hgap : ∀ c ∈ gap, isSpace c = true)
    (hbefore : ∀ c ∈ before, isSpace c = true) (hafter : ∀ c ∈ after, isSpace c = true)
    (rest : List Char) :
    readAttributes seen
        (gap ++ (key ++ (before ++ '=' :: (after ++ quote :: (text ++ quote :: rest)))))
      = ⟨String.ofList key, String.ofList text⟩
        :: readAttributes (String.ofList key :: seen) rest := by
  obtain ⟨first, more, rfl⟩ : ∃ first more, key = first :: more := by
    cases key with
    | nil => exact absurd rfl hkey
    | cons first more => exact ⟨first, more, rfl⟩
  have hfirst : isSpace first = false := by
    have := hchars first (by simp)
    simp only [isKeyCharacter, Bool.and_eq_true, Bool.not_eq_true'] at this
    exact this.2
  have hmore : ∀ c ∈ more, isKeyCharacter c = true := fun c hc => hchars c (by simp [hc])
  obtain ⟨h1, h2, h3, h4⟩ :=
    parts_of_quoted hgap hfirst hmore hbefore hafter hquote (text ++ quote :: rest)
  generalize after ++ quote :: (text ++ quote :: rest) = value at *
  rw [readAttributes]
  split
  · next heq => rw [h1] at heq; simp at heq
  · next f m heq =>
    rw [h1] at heq
    simp only [List.cons.injEq] at heq
    obtain ⟨rfl, rfl⟩ := heq
    dsimp only
    rw [h2]
    split
    · next heq => rw [h3] at heq; simp at heq
    · next sign value heq =>
      rw [h3] at heq
      simp only [List.cons.injEq] at heq
      obtain ⟨rfl, rfl⟩ := heq
      simp only [ne_eq, not_true_eq_false, if_false, hseen]
      split
      · next heq => rw [h4] at heq; simp at heq
      · next q body heq =>
        rw [h4] at heq
        simp only [List.cons.injEq] at heq
        obtain ⟨rfl, rfl⟩ := heq
        simp only [hquote, if_true]
        split
        · next heq => rw [cut?_quote htext] at heq; simp at heq
        · next t r heq =>
          rw [cut?_quote htext] at heq
          simp only [Option.some.injEq, Prod.mk.injEq] at heq
          obtain ⟨rfl, rfl⟩ := heq
          rfl

theorem readAttributes_blank {gap : List Char} (h : ∀ c ∈ gap, isSpace c = true)
    (seen : List String) : readAttributes seen gap = [] := by
  have : gap.dropWhile isSpace = [] := by
    have hend : (gap ++ []).dropWhile isSpace = ([] : List Char).dropWhile isSpace :=
      List.dropWhile_append_of_pos h
    simpa using hend
  rw [readAttributes]
  split
  · rfl
  · next heq => rw [this] at heq; simp at heq

/-- Keys are read once.  They are pairwise distinct and none was seen before. -/
theorem keys_readAttributes (seen : List String) (cs : List Char) :
    ((readAttributes seen cs).map RawAttribute.key).Nodup
      ∧ ∀ a ∈ readAttributes seen cs, a.key ∉ seen := by
  fun_induction readAttributes seen cs with
  | case1 => simp
  | case2 => simp
  | case3 => assumption
  | case4 => assumption
  | case5 => simp
  | case6 => simp
  | case7 seen cs first more hcs _ key sign value hrest _ _ _ hsign hseen quote body hvalue _ _
      hquote text rest hbody _ ih =>
    obtain ⟨hn, hs⟩ := ih
    refine ⟨?_, ?_⟩
    · rw [List.map_cons, List.nodup_cons]
      refine ⟨?_, hn⟩
      rw [List.mem_map]
      rintro ⟨a, ha, hk⟩
      exact hs a ha (by rw [hk]; simp)
    · intro a ha
      rw [List.mem_cons] at ha
      rcases ha with rfl | ha
      · exact hseen
      · exact fun h => hs a ha (by simp [h])
  | case8 seen cs first more hcs _ key sign value hrest _ _ _ hsign hseen quote body hvalue _ _
      hquote ih =>
    exact ⟨ih.1, fun a ha h => ih.2 a ha (by simp [h])⟩

end SchemaBinding.Markup
