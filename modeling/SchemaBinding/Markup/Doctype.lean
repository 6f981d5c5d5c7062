import SchemaBinding.Markup.Scan

/-!
# Document type declarations

A document type declaration is passed over.  It ends at the first `>` outside quotes and outside
its brackets; `doctypeEnd?` finds that place in what follows `<!DOCTYPE`, and `subsetEnd?` the
bracket that closes the declarations inside.
-/

namespace SchemaBinding.Markup

/-- What follows a declaration whose `>` may stand inside quotes. -/
def afterQuotedDeclaration? (cs : List Char) : Option (List Char) :=
  match closingAngle none cs with
  | .ok (_, rest) => some rest
  | .error _ => none

/-- The declarations in which a `>` inside quotes does not count. -/
def quotedDeclarations : List (List Char) :=
  ["!ENTITY".toList, "!ATTLIST".toList, "!NOTATION".toList]

/-- What follows a declaration inside the brackets, read from behind its `<`: an instruction, a
comment, a declaration with quotes, or anything else up to the next `>`. -/
def afterDeclaration? (cs : List Char) : Option (List Char) :=
  match afterStart? ['?'] cs, afterStart? ['!', '-', '-'] cs with
  | some body, _ => (cut? ['?', '>'] body).map Prod.snd
  | none, some body => (cut? ['-', '-', '>'] body).map Prod.snd
  | none, none =>
    if quotedDeclarations.any (· <+: cs) then afterQuotedDeclaration? cs
    else (cut? ['>'] cs).map Prod.snd

theorem length_of_afterDeclaration? {cs rest : List Char} (h : afterDeclaration? cs = some rest) :
    rest.length ≤ cs.length := by
  have hcut : ∀ {mark body : List Char}, (cut? mark body).map Prod.snd = some rest →
      rest.length ≤ body.length := by
    intro mark body hm
    obtain ⟨⟨before, after⟩, hc, rfl⟩ := Option.map_eq_some_iff.1 hm
    exact length_of_cut? hc
  simp only [afterDeclaration?] at h
  split at h
  · next hs => exact Nat.le_trans (hcut h) (length_of_afterStart? hs)
  · next hs => exact Nat.le_trans (hcut h) (length_of_afterStart? hs)
  · split at h
    · simp only [afterQuotedDeclaration?] at h
      split at h
      · next hc =>
        simp only [Option.some.injEq] at h
        subst h
        exact length_of_closingAngle hc
      · simp at h
    · exact hcut h

/-- What follows the bracket that closes the declarations. -/
def subsetEnd? (cs : List Char) : Option (List Char) :=
  match cs with
  | [] => none
  | c :: rest =>
    if c = ']' then some rest
    else if c = '<' then
      match h : afterDeclaration? rest with
      | some after =>
        have := length_of_afterDeclaration? h
        subsetEnd? after
      | none => none
    else subsetEnd? rest
termination_by cs.length

/-- What follows the whole declaration, read from behind `<!DOCTYPE`. -/
def doctypeEnd? (quote : Option Char) : List Char → Option (List Char)
  | [] => none
  | c :: rest =>
    match quote with
    | some q => doctypeEnd? (if c = q then none else some q) rest
    | none =>
      if c = '>' then some rest
      else if c = '[' then (subsetEnd? rest).bind fun after => (cut? ['>'] after).map Prod.snd
      else doctypeEnd? (if c = '"' ∨ c = '\'' then some c else none) rest

theorem length_of_subsetEnd? {cs rest : List Char} (h : subsetEnd? cs = some rest) :
    rest.length ≤ cs.length := by
  fun_induction subsetEnd? cs with
  | case1 => simp at h
  | case2 rest =>
    simp only [Option.some.injEq] at h
    subst h
    simp
  | case3 tail after hafter _ _ ih =>
    have h1 := ih h
    have h2 := length_of_afterDeclaration? hafter
    simp only [List.length_cons]
    omega
  | case4 => simp at h
  | case5 c tail _ _ ih =>
    have h1 := ih h
    simp only [List.length_cons]
    omega

theorem length_of_doctypeEnd? {quote : Option Char} {cs rest : List Char}
    (h : doctypeEnd? quote cs = some rest) : rest.length ≤ cs.length := by
  induction cs generalizing quote with
  | nil => simp [doctypeEnd?] at h
  | cons c tail ih =>
    have step : ∀ {q : Option Char}, doctypeEnd? q tail = some rest →
        rest.length ≤ (c :: tail).length := by
      intro q hq
      have := ih hq
      simp only [List.length_cons]
      omega
    cases quote with
    | some q => exact step (by simpa [doctypeEnd?] using h)
    | none =>
      simp only [doctypeEnd?] at h
      split at h
      · simp only [Option.some.injEq] at h
        subst h
        simp
      · split at h
        · obtain ⟨after, hs, hc⟩ := Option.bind_eq_some_iff.1 h
          obtain ⟨⟨before, after'⟩, hcut, rfl⟩ := Option.map_eq_some_iff.1 hc
          have h1 := length_of_subsetEnd? hs
          have h2 := length_of_cut? hcut
          simp only [List.length_cons]
          omega
        · exact step h

end SchemaBinding.Markup
