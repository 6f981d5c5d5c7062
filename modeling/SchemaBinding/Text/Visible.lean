/-!
# Visible control characters

A terminal takes some control characters for orders: to ring, to go back, to change colour.  A
message may quote any text of a schema or any path, so `visible` writes these characters by their
codes: `\x1b` for a code below 0x80, `\u{9b}` for one above.  Tabs, line breaks and the other
characters stay as they are.

* `visible_append`: texts are made visible piece by piece.
* `visible_eq_self`: a text without orders stays as it is.
* `isOrder_of_mem_visible`: no order is left.
-/

namespace SchemaBinding.Text

/-- The control characters that a terminal obeys: bell, backspace, form feed, escape and delete, and
the second block of control characters. -/
def isOrder (c : Char) : Bool :=
  [0x07, 0x08, 0x0C, 0x1B, 0x7F].contains c.toNat || (0x80 ≤ c.toNat && c.toNat ≤ 0x9F)

def twoHexDigits (n : Nat) : List Char := [Nat.digitChar (n / 16 % 16), Nat.digitChar (n % 16)]

def visibleCharacter (c : Char) : List Char :=
  if ¬ isOrder c then [c]
  else if c.toNat < 0x80 then '\\' :: 'x' :: twoHexDigits c.toNat
  else '\\' :: 'u' :: '\x7b' :: twoHexDigits c.toNat ++ ['\x7d']

/-- A text as it is written in a message. -/
def visible (s : String) : String := String.ofList (s.toList.flatMap visibleCharacter)

theorem visible_append (s t : String) : visible (s ++ t) = visible s ++ visible t := by
  rw [← String.toList_inj]
  simp [visible]

theorem visible_eq_self {s : String} (h : ∀ c ∈ s.toList, isOrder c = false) : visible s = s := by
  have key : ∀ cs : List Char, (∀ c ∈ cs, isOrder c = false) → cs.flatMap visibleCharacter = cs := by
    intro cs hcs
    induction cs with
    | nil => rfl
    | cons c rest ih =>
      rw [List.flatMap_cons, ih fun d hd => hcs d (List.mem_cons_of_mem c hd), visibleCharacter,
        if_pos (by simp [hcs c List.mem_cons_self])]
      rfl
  rw [visible, key s.toList h, String.ofList_toList]

/-- A hexadecimal digit is no order. -/
theorem isOrder_digitChar (n : Nat) : isOrder (Nat.digitChar (n % 16)) = false := by
  have key : ∀ k : Fin 16, isOrder (Nat.digitChar k.val) = false := by decide
  exact key ⟨n % 16, Nat.mod_lt n (by decide)⟩

theorem isOrder_of_mem_visibleCharacter {c d : Char} (h : d ∈ visibleCharacter c) :
    isOrder d = false := by
  rw [visibleCharacter] at h
  split at h
  · next hc =>
    rw [List.mem_singleton] at h
    simpa [h] using hc
  · have digits : ∀ e ∈ twoHexDigits c.toNat, isOrder e = false := by
      intro e he
      simp only [twoHexDigits, List.mem_cons, List.not_mem_nil, or_false] at he
      rcases he with rfl | rfl
      · exact isOrder_digitChar _
      · exact isOrder_digitChar _
    split at h
    · rcases List.mem_cons.1 h with rfl | h
      · decide
      rcases List.mem_cons.1 h with rfl | h
      · decide
      exact digits d h
    · rw [List.mem_append, List.mem_singleton] at h
      rcases h with h | rfl
      · rcases List.mem_cons.1 h with rfl | h
        · decide
        rcases List.mem_cons.1 h with rfl | h
        · decide
        rcases List.mem_cons.1 h with rfl | h
        · decide
        exact digits d h
      · decide

theorem isOrder_of_mem_visible {s : String} {c : Char} (h : c ∈ (visible s).toList) :
    isOrder c = false := by
  rw [visible, String.toList_ofList, List.mem_flatMap] at h
  obtain ⟨d, -, hd⟩ := h
  exact isOrder_of_mem_visibleCharacter hd

end SchemaBinding.Text
