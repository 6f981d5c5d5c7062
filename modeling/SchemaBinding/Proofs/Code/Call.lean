import SchemaBinding.Proofs.Code.Token

/-!
# Bodies of functions

The body of a function is a sequence of statements, and most statements are calls.  `statements?`
cuts tokens at the semicolons and `Call.ofTokens?` reads a statement as a call.

* `ReadsBody`: the lines of a body are read as these tokens, the indentation skipped.
* `statements?_append`: a statement is cut off at its semicolon.
* `Call.ofTokens?_tokens`: a call is read back from its tokens.
* `Function.calls?_eq`: a body that is written as calls is read as these calls.
-/

namespace SchemaBinding.Text

theorem unlines_cons (l : String) (ls : List String) :
    unlines (l :: ls) = l ++ "\n" ++ unlines ls := by
  rw [← String.toList_inj]
  simp [unlines]

theorem unlines_append (ls ms : List String) : unlines (ls ++ ms) = unlines ls ++ unlines ms := by
  rw [← String.toList_inj]
  simp [unlines]

end SchemaBinding.Text

namespace SchemaBinding.Code

/-! ### Lines -/

def Function.bodyText (f : Function) : String := Text.unlines (f.body.map bodyLine)

/-- The lines of a body are read as these tokens. -/
def ReadsBody (lines : List String) (ts : List Token) : Prop :=
  Reads (Text.unlines (lines.map bodyLine)) ts

theorem reads_bodyLine {l : String} {ts : List Token} (h : Reads l ts) : Reads (bodyLine l) ts := by
  unfold bodyLine
  split
  · next he => rwa [he] at h
  · have hindent : Reads "    " [] := reads_of_tokens? (by cbv) (by decide) (by decide)
    exact hindent.append h

theorem readsBody_nil : ReadsBody [] [] := reads_empty

theorem ReadsBody.cons {l : String} {ls : List String} {ts us : List Token} (h : Reads l ts)
    (hs : ReadsBody ls us) : ReadsBody (l :: ls) (ts ++ us) := by
  have hbreak : Reads "\n" [] := reads_of_tokens? (by cbv) (by decide) (by decide)
  rw [ReadsBody, List.map_cons, Text.unlines_cons]
  have hline := (reads_bodyLine h).append hbreak
  rw [List.append_nil] at hline
  exact hline.append hs

theorem ReadsBody.append {ls ms : List String} {ts us : List Token} (hl : ReadsBody ls ts)
    (hm : ReadsBody ms us) : ReadsBody (ls ++ ms) (ts ++ us) := by
  rw [ReadsBody, List.map_append, Text.unlines_append]
  exact Reads.append hl hm

theorem ReadsBody.flatMap {α : Type} {items : List α} {lines : α → List String}
    {ts : α → List Token} (h : ∀ a ∈ items, ReadsBody (lines a) (ts a)) :
    ReadsBody (items.flatMap lines) (items.flatMap ts) := by
  induction items with
  | nil => exact readsBody_nil
  | cons a rest ih =>
    rw [List.flatMap_cons, List.flatMap_cons]
    exact (h a List.mem_cons_self).append (ih fun b hb => h b (List.mem_cons_of_mem _ hb))

/-! ### Statements -/

/-- The statements of a body, without their semicolons; `current` is the beginning of the first. -/
def statements? (current : List Token) : List Token → Option (List (List Token))
  | [] => if current = [] then some [] else none
  | t :: rest =>
    if t = .mark ';' then (statements? [] rest).map (current :: ·)
    else statements? (current ++ [t]) rest

theorem statements?_append {ts : List Token} (h : .mark ';' ∉ ts) (current rest : List Token) :
    statements? current (ts ++ .mark ';' :: rest)
      = (statements? [] rest).map ((current ++ ts) :: ·) := by
  induction ts generalizing current with
  | nil => rw [List.nil_append, statements?, if_pos rfl, List.append_nil]
  | cons t ts ih =>
    rw [List.mem_cons, not_or] at h
    rw [List.cons_append, statements?, if_neg (Ne.symm h.1), ih h.2, List.append_assoc,
      List.singleton_append]

theorem statements?_flatMap {α : Type} {items : List α} {ts : α → List Token}
    (h : ∀ a ∈ items, .mark ';' ∉ ts a) :
    statements? [] (items.flatMap fun a => ts a ++ [.mark ';']) = some (items.map ts) := by
  induction items with
  | nil => rfl
  | cons a rest ih =>
    rw [List.flatMap_cons, List.append_assoc, List.singleton_append,
      statements?_append (h a List.mem_cons_self),
      ih fun b hb => h b (List.mem_cons_of_mem _ hb)]
    rfl

/-! ### Calls -/

inductive Argument where
  | name (word : String)
  | literal (l : Literal)
deriving DecidableEq, Repr

structure Call where
  callee : List String
  arguments : List Argument
deriving DecidableEq, Repr

def Argument.token : Argument → Token
  | name word => .word word
  | literal l => .literal l

def Argument.ofToken? : Token → Option Argument
  | .word word => some (name word)
  | .literal l => some (literal l)
  | .mark _ => none

namespace Call

def calleeTokens : List String → List Token
  | [] => []
  | [w] => [.word w]
  | w :: v :: rest => .word w :: .mark ':' :: .mark ':' :: calleeTokens (v :: rest)

def argumentTokens : List Argument → List Token
  | [] => []
  | [a] => [a.token]
  | a :: b :: rest => a.token :: .mark ',' :: argumentTokens (b :: rest)

def tokens (c : Call) : List Token :=
  calleeTokens c.callee ++ .mark '(' :: (argumentTokens c.arguments ++ [.mark ')'])

/-- Reads the name of a function up to the parenthesis behind it. -/
def readCallee : List Token → Option (List String × List Token)
  | .word w :: .mark ':' :: .mark ':' :: rest =>
    (readCallee rest).map fun found => (w :: found.1, found.2)
  | .word w :: .mark '(' :: rest => some ([w], rest)
  | _ => none

/-- Reads arguments up to the parenthesis behind them. -/
def readArguments : List Token → Option (List Argument)
  | [t, .mark ')'] => (Argument.ofToken? t).map ([·])
  | t :: .mark ',' :: rest => do
    let first ← Argument.ofToken? t
    let others ← readArguments rest
    return first :: others
  | _ => none

def ofTokens? (ts : List Token) : Option Call := do
  let (callee, rest) ← readCallee ts
  let arguments ← readArguments rest
  return ⟨callee, arguments⟩

theorem semicolon_notMem_calleeTokens : ∀ callee : List String, .mark ';' ∉ calleeTokens callee
  | [] => by simp [calleeTokens]
  | [w] => by simp [calleeTokens]
  | w :: v :: callee => by
    have hrest := semicolon_notMem_calleeTokens (v :: callee)
    simp [calleeTokens, hrest]

theorem semicolon_ne_token (a : Argument) : .mark ';' ≠ a.token := by
  cases a <;> exact nofun

theorem semicolon_notMem_argumentTokens :
    ∀ arguments : List Argument, .mark ';' ∉ argumentTokens arguments
  | [] => by simp [argumentTokens]
  | [a] => by simpa [argumentTokens] using semicolon_ne_token a
  | a :: b :: arguments => by
    have hrest := semicolon_notMem_argumentTokens (b :: arguments)
    simp [argumentTokens, hrest, semicolon_ne_token a]

theorem semicolon_notMem_tokens (c : Call) : .mark ';' ∉ c.tokens := by
  simp [tokens, semicolon_notMem_calleeTokens, semicolon_notMem_argumentTokens]

theorem readCallee_calleeTokens (rest : List Token) :
    ∀ callee : List String, callee ≠ [] →
      readCallee (calleeTokens callee ++ .mark '(' :: rest) = some (callee, rest)
  | [], h => absurd rfl h
  | [w], _ => rfl
  | w :: v :: callee, _ => by
    rw [calleeTokens, List.cons_append, List.cons_append, List.cons_append, readCallee,
      readCallee_calleeTokens rest (v :: callee) (List.cons_ne_nil _ _)]
    rfl

theorem ofToken?_token (a : Argument) : Argument.ofToken? a.token = some a := by
  cases a <;> rfl

theorem readArguments_argumentTokens :
    ∀ arguments : List Argument, arguments ≠ [] →
      readArguments (argumentTokens arguments ++ [.mark ')']) = some arguments
  | [], h => absurd rfl h
  | [a], _ => by
    rw [argumentTokens, List.singleton_append, readArguments, ofToken?_token]
    rfl
  | a :: b :: arguments, _ => by
    rw [argumentTokens, List.cons_append, List.cons_append, readArguments, ofToken?_token,
      readArguments_argumentTokens (b :: arguments) (List.cons_ne_nil _ _)]
    rfl

/-- **A call is read back from its tokens.** -/
theorem ofTokens?_tokens {c : Call} (hc : c.callee ≠ []) (ha : c.arguments ≠ []) :
    ofTokens? c.tokens = some c := by
  rw [ofTokens?, tokens, readCallee_calleeTokens _ _ hc]
  show (readArguments (argumentTokens c.arguments ++ [.mark ')'])).bind _ = _
  rw [readArguments_argumentTokens _ ha]
  rfl

end Call

/-! ### The calls of a function -/

/-- The calls in the body of a function, if every statement is one. -/
def Function.calls? (f : Function) : Option (List Call) := do
  let ts ← tokens? f.bodyText.toList
  let statements ← statements? [] ts
  statements.mapM Call.ofTokens?

theorem mapM_map_eq_some {α β γ : Type} {f : β → Option γ} {g : α → β} {h : α → γ} {items : List α}
    (hf : ∀ a ∈ items, f (g a) = some (h a)) : (items.map g).mapM f = some (items.map h) := by
  induction items with
  | nil => rfl
  | cons a rest ih =>
    rw [List.map_cons, List.mapM_cons, hf a List.mem_cons_self,
      ih fun b hb => hf b (List.mem_cons_of_mem _ hb)]
    rfl

/-- **A body that is written as calls is read as these calls.** -/
theorem Function.calls?_eq {f : Function} {calls : List Call}
    (hbody : ReadsBody f.body (calls.flatMap fun c => c.tokens ++ [.mark ';']))
    (hcalls : ∀ c ∈ calls, c.callee ≠ [] ∧ c.arguments ≠ []) : f.calls? = some calls := by
  have hstatements : statements? [] (calls.flatMap fun c => c.tokens ++ [.mark ';'])
      = some (calls.map Call.tokens) :=
    statements?_flatMap fun c _ => c.semicolon_notMem_tokens
  have hread : (calls.map Call.tokens).mapM Call.ofTokens? = some (calls.map id) :=
    mapM_map_eq_some fun c hc => Call.ofTokens?_tokens (hcalls c hc).1 (hcalls c hc).2
  rw [List.map_id] at hread
  have htokens : tokens? f.bodyText.toList = _ := Reads.tokens? hbody
  rw [calls?, htokens]
  show (statements? [] _).bind _ = _
  rw [hstatements]
  exact hread

end SchemaBinding.Code
