import SchemaBinding.Markup.Event

/-!
# Written tags

A value may be written between quotes in many ways: a character stands for itself, unless it is `&`
or the quote, or it is written by its name.  Attributes are written in order, with space before
each.  However a tag is written, it is read as its name and its attributes.

* `unescape_of_writtenValue`: a written value is read back.
* `readAttributes_written`: so are written attributes.
* `readMarkup_opening`, `readMarkup_selfClosing`, `readMarkup_closing`: a written tag is read up to
  its closing angle.
-/

namespace SchemaBinding.Markup

/-! ### Names -/

def isNameStart (c : Char) : Bool := c.isAlpha || c = '_'

def isNameCharacter (c : Char) : Bool := isNameStart c || c.isDigit || c = '-' || c = '.'

def isName (s : String) : Bool :=
  match s.toList with
  | [] => false
  | c :: rest => isNameStart c && rest.all isNameCharacter

theorem exists_start_of_isName {s : String} (h : isName s = true) :
    ∃ c rest, s.toList = c :: rest ∧ isNameStart c = true := by
  unfold isName at h
  split at h
  · cases h
  · next c rest heq => exact ⟨c, rest, heq, (Bool.and_eq_true_iff.1 h).1⟩

theorem isNameCharacter_of_isName {s : String} (h : isName s = true) :
    ∀ c ∈ s.toList, isNameCharacter c = true := by
  unfold isName at h
  split at h
  · cases h
  · next c rest heq =>
    rw [Bool.and_eq_true, List.all_eq_true] at h
    intro d hd
    rw [heq] at hd
    rcases List.mem_cons.1 hd with rfl | hd
    · simp [isNameCharacter, h.1]
    · exact h.2 d hd

theorem ne_of_isNameStart {c d : Char} (hc : isNameStart c = true) (hd : isNameStart d = false) :
    c ≠ d := by
  rintro rfl
  rw [hc] at hd
  cases hd

theorem ne_of_isNameCharacter {c d : Char} (hc : isNameCharacter c = true)
    (hd : isNameCharacter d = false) : c ≠ d := by
  rintro rfl
  rw [hc] at hd
  cases hd

theorem isSpace_of_isNameCharacter {c : Char} (h : isNameCharacter c = true) :
    isSpace c = false := by
  have hspace : c ≠ ' ' := ne_of_isNameCharacter h (by decide)
  have htab : c ≠ '\t' := ne_of_isNameCharacter h (by decide)
  have hreturn : c ≠ '\r' := ne_of_isNameCharacter h (by decide)
  have hline : c ≠ '\n' := ne_of_isNameCharacter h (by decide)
  simp [isSpace, hspace, htab, hreturn, hline]

theorem isKeyCharacter_of_isNameCharacter {c : Char} (h : isNameCharacter c = true) :
    isKeyCharacter c = true := by
  have hsign : c ≠ '=' := ne_of_isNameCharacter h (by decide)
  simp [isKeyCharacter, hsign, isSpace_of_isNameCharacter h]

/-! ### Values -/

/-- A text that stands for a value between quotes. -/
inductive WrittenValue (quote : Char) : List Char → List Char → Prop
  | nil : WrittenValue quote [] []
  | plain {c : Char} {value text : List Char} : c ≠ '&' → c ≠ quote →
    WrittenValue quote value text → WrittenValue quote (c :: value) (c :: text)
  | named {name : List Char} {c : Char} {value text : List Char} : (name, c) ∈ namedCharacters →
    WrittenValue quote value text → WrittenValue quote (c :: value) ('&' :: (name ++ ';' :: text))

theorem dereference_of_mem {name : List Char} {c : Char} (h : (name, c) ∈ namedCharacters)
    (start : Nat) : dereference start name = .ok c := by
  simp only [namedCharacters, List.mem_cons, List.not_mem_nil, or_false, Prod.mk.injEq] at h
  rcases h with ⟨rfl, rfl⟩ | ⟨rfl, rfl⟩ | ⟨rfl, rfl⟩ | ⟨rfl, rfl⟩ | ⟨rfl, rfl⟩ <;> rfl

/-- The name of a character holds none of the marks of a reference, and no quote. -/
theorem ne_of_mem_namedCharacters {name : List Char} {c : Char} (h : (name, c) ∈ namedCharacters) :
    ∀ d ∈ name, (d ≠ '&' ∧ d ≠ ';') ∧ isQuote d = false := by
  simp only [namedCharacters, List.mem_cons, List.not_mem_nil, or_false, Prod.mk.injEq] at h
  rcases h with ⟨rfl, -⟩ | ⟨rfl, -⟩ | ⟨rfl, -⟩ | ⟨rfl, -⟩ | ⟨rfl, -⟩ <;> simp [isQuote]

namespace WrittenValue

variable {quote : Char} {value text : List Char}

theorem unescapeFrom_eq (h : WrittenValue quote value text) (total place : Nat) :
    unescapeFrom total place text = .ok value := by
  induction h generalizing place with
  | nil => rw [unescapeFrom]
  | plain hc _ _ ih =>
    rw [unescapeFrom_cons_plain hc, ih]
    rfl
  | named hname _ ih =>
    have hchars := fun d hd => (ne_of_mem_namedCharacters hname d hd).1
    rw [unescapeFrom_reference hchars, dereference_of_mem hname, ih]
    rfl

/-- The quote does not stand in a value that is written between two of it. -/
theorem quote_notMem (hquote : isQuote quote = true) (h : WrittenValue quote value text) :
    quote ∉ text := by
  induction h with
  | nil => exact List.not_mem_nil
  | plain _ hne _ ih =>
    rw [List.mem_cons, not_or]
    exact ⟨hne.symm, ih⟩
  | named hname _ ih =>
    have hamp : quote ≠ '&' := by
      rintro rfl
      exact absurd hquote (by decide)
    have hsemicolon : quote ≠ ';' := by
      rintro rfl
      exact absurd hquote (by decide)
    have hin : ∀ d ∈ _, quote ≠ d := fun d hd heq => by
      have hd' := (ne_of_mem_namedCharacters hname d hd).2
      rw [← heq, hquote] at hd'
      cases hd'
    simp only [List.mem_cons, List.mem_append, not_or]
    exact ⟨hamp, fun hmem => hin quote hmem rfl, hsemicolon, ih⟩

end WrittenValue

/-- A written value is read back. -/
theorem unescape_of_writtenValue {quote : Char} {value text : List Char}
    (h : WrittenValue quote value text) :
    unescape (String.ofList text) = .ok (String.ofList value) := by
  rw [unescape, String.toList_ofList, h.unescapeFrom_eq]
  rfl

/-- Every value can be written. -/
theorem exists_writtenValue {quote : Char} (hquote : isQuote quote = true) (value : List Char) :
    ∃ text, WrittenValue quote value text := by
  have hname : ∃ name, (name, quote) ∈ namedCharacters := by
    simp only [isQuote, Bool.or_eq_true, decide_eq_true_eq] at hquote
    rcases hquote with rfl | rfl
    · exact ⟨"quot".toList, by decide⟩
    · exact ⟨"apos".toList, by decide⟩
  induction value with
  | nil => exact ⟨[], .nil⟩
  | cons c rest ih =>
    obtain ⟨text, htext⟩ := ih
    by_cases hc : c = quote
    · obtain ⟨name, hname⟩ := hname
      rw [hc]
      exact ⟨_, .named hname htext⟩
    · by_cases hamp : c = '&'
      · have hmem : ("amp".toList, c) ∈ namedCharacters := by
          rw [hamp]
          decide
        exact ⟨_, .named hmem htext⟩
      · exact ⟨_, .plain hamp hc htext⟩

/-! ### Attributes -/

def Blank (cs : List Char) : Prop := ∀ c ∈ cs, isSpace c = true

/-- A text that stands for attributes, in order. -/
inductive WrittenAttributes : List (String × String) → List Char → Prop
  | nil : WrittenAttributes [] []
  | cons {key value : String} {rest : List (String × String)} {quote : Char}
      {gap before after text cs : List Char} :
    gap ≠ [] → Blank gap → Blank before → Blank after → isQuote quote = true →
    WrittenValue quote value.toList text → WrittenAttributes rest cs →
    WrittenAttributes ((key, value) :: rest)
      (gap ++ (key.toList ++ (before ++ '=' :: (after ++ quote :: (text ++ quote :: cs)))))

theorem exists_writtenAttributes (attributes : List (String × String)) :
    ∃ cs, WrittenAttributes attributes cs := by
  induction attributes with
  | nil => exact ⟨[], .nil⟩
  | cons pair rest ih =>
    obtain ⟨cs, hcs⟩ := ih
    have hquote : isQuote '"' = true := rfl
    obtain ⟨text, htext⟩ := exists_writtenValue hquote pair.2.toList
    have hspace : Blank [' '] := by simp [Blank, isSpace]
    have hnone : Blank [] := by simp [Blank]
    exact ⟨_, .cons (List.cons_ne_nil _ _) hspace hnone hnone hquote htext hcs⟩

/-- **Written attributes are read back.** -/
theorem readAttributes_written {attributes : List (String × String)} {cs gap : List Char}
    (h : WrittenAttributes attributes cs) (hgap : Blank gap)
    (hnames : ∀ pair ∈ attributes, isName pair.1 = true) :
    ∃ raw, unescapeAll raw = .ok attributes
      ∧ ∀ seen, (seen ++ attributes.map Prod.fst).Nodup → readAttributes seen (cs ++ gap) = raw := by
  induction h with
  | nil => exact ⟨[], rfl, fun seen _ => readAttributes_blank hgap seen⟩
  | @cons key value rest quote before signed after text cs hne hbefore hsigned hafter hquote hvalue
      _ ih =>
    obtain ⟨raw, hraw, hread⟩ := ih fun pair hm => hnames pair (List.mem_cons_of_mem _ hm)
    have hname := hnames _ List.mem_cons_self
    obtain ⟨c, more, hkey, -⟩ := exists_start_of_isName hname
    have hkey : key.toList ≠ [] := by
      rw [hkey]
      exact List.cons_ne_nil _ _
    refine ⟨⟨key, String.ofList text⟩ :: raw, ?_, fun seen hseen => ?_⟩
    · rw [unescapeAll, List.mapM_cons, unescape_of_writtenValue hvalue, String.ofList_toList]
      rw [unescapeAll] at hraw
      rw [hraw]
      rfl
    · have hnew : String.ofList key.toList ∉ seen := by
        rw [String.ofList_toList]
        intro hm
        exact (List.nodup_append.1 hseen).2.2 _ hm _ List.mem_cons_self rfl
      have hnodup : (key :: seen ++ rest.map Prod.fst).Nodup := by
        rw [List.map_cons] at hseen
        exact List.perm_middle.nodup_iff.1 hseen
      have hchars : ∀ c ∈ key.toList, isKeyCharacter c = true := fun c hc =>
        isKeyCharacter_of_isNameCharacter (isNameCharacter_of_isName hname c hc)
      have hstep := readAttributes_quoted hkey hchars hnew hquote (hvalue.quote_notMem hquote)
        hbefore hsigned hafter (cs ++ gap)
      rw [String.ofList_toList, hread _ hnodup] at hstep
      rw [← hstep]
      simp only [List.append_assoc, List.cons_append]

/-! ### The closing angle -/

/-- No closing angle of the text ends a tag: those in it stand between quotes, and all quotes are
closed. -/
def Passes (cs : List Char) : Prop :=
  ∀ rest, closingAngle none (cs ++ rest)
    = (closingAngle none rest).map fun found => (cs ++ found.1, found.2)

theorem passes_nil : Passes [] := by
  intro rest
  cases h : closingAngle none rest <;> simp [h, Except.map]

theorem Passes.append {cs ds : List Char} (hcs : Passes cs) (hds : Passes ds) :
    Passes (cs ++ ds) := by
  intro rest
  rw [List.append_assoc, hcs, hds]
  cases closingAngle none rest <;> simp [Except.map]

theorem passes_plain {c : Char} (h1 : c ≠ '>') (h2 : isQuote c = false) : Passes [c] := by
  intro rest
  have hquote : ¬ (c = '"' ∨ c = '\'') := by simpa [isQuote] using h2
  rw [List.singleton_append, closingAngle, if_neg h1, if_neg hquote]
  rfl

theorem passes_of_forall {cs : List Char} (h : ∀ c ∈ cs, c ≠ '>' ∧ isQuote c = false) :
    Passes cs := by
  induction cs with
  | nil => exact passes_nil
  | cons c rest ih =>
    obtain ⟨h1, h2⟩ := h c List.mem_cons_self
    exact (passes_plain h1 h2).append (ih fun d hd => h d (List.mem_cons_of_mem _ hd))

theorem passes_blank {cs : List Char} (h : Blank cs) : Passes cs := by
  refine passes_of_forall fun c hc => ?_
  have hspace := h c hc
  simp only [isSpace, Bool.or_eq_true, decide_eq_true_eq] at hspace
  rcases hspace with ((rfl | rfl) | rfl) | rfl <;> decide

theorem passes_name {name : String} (h : isName name = true) : Passes name.toList := by
  have hchars := isNameCharacter_of_isName h
  refine passes_of_forall fun c hc => ⟨ne_of_isNameCharacter (hchars c hc) (by decide), ?_⟩
  have hdouble : c ≠ '"' := ne_of_isNameCharacter (hchars c hc) (by decide)
  have hsingle : c ≠ '\'' := ne_of_isNameCharacter (hchars c hc) (by decide)
  simp [isQuote, hdouble, hsingle]

theorem closingAngle_some {quote : Char} {text : List Char} (h : quote ∉ text)
    (rest : List Char) :
    closingAngle (some quote) (text ++ quote :: rest)
      = (closingAngle none rest).map fun found => (text ++ quote :: found.1, found.2) := by
  induction text with
  | nil =>
    rw [List.nil_append, closingAngle]
    simp only [if_true]
    rfl
  | cons c text ih =>
    rw [List.mem_cons, not_or] at h
    rw [List.cons_append, closingAngle]
    simp only [if_neg (Ne.symm h.1), ih h.2]
    cases closingAngle none rest <;> rfl

theorem passes_quoted {quote : Char} {text : List Char} (hquote : isQuote quote = true)
    (htext : quote ∉ text) : Passes (quote :: (text ++ [quote])) := by
  intro rest
  have hangle : quote ≠ '>' := by
    rintro rfl
    exact absurd hquote (by decide)
  have hor : quote = '"' ∨ quote = '\'' := by simpa [isQuote] using hquote
  rw [List.cons_append, List.append_assoc, List.singleton_append, closingAngle, if_neg hangle,
    if_pos hor, closingAngle_some htext]
  cases closingAngle none rest <;> simp [Except.map]

theorem passes_written {attributes : List (String × String)} {cs : List Char}
    (h : WrittenAttributes attributes cs) (hnames : ∀ pair ∈ attributes, isName pair.1 = true) :
    Passes cs := by
  induction h with
  | nil => exact passes_nil
  | @cons key value rest quote gap before after text cs _ hgap hbefore hafter hquote hvalue _ ih =>
    have hkey := passes_name (hnames _ List.mem_cons_self)
    have hsign : Passes ['='] := passes_plain (by decide) (by decide)
    have htext := passes_quoted hquote (hvalue.quote_notMem hquote)
    have hrest := ih fun pair hm => hnames pair (List.mem_cons_of_mem _ hm)
    have hall := (passes_blank hgap).append (hkey.append ((passes_blank hbefore).append
      (hsign.append ((passes_blank hafter).append (htext.append hrest)))))
    simpa using hall

theorem tagText_of_passes {cs : List Char} (h : Passes cs) (rest : List Char) :
    tagText (cs ++ '>' :: rest) = .ok (cs, rest) := by
  have hangle : closingAngle none ('>' :: rest) = .ok ([], rest) := by
    rw [closingAngle, if_pos rfl]
  rw [tagText, h, hangle]
  simp [Except.map]

/-! ### Tags -/

section Tags

variable {tag : String} {attributes : List (String × String)} {written gap : List Char}

/-- What follows a name begins with a space, if anything does. -/
theorem written_cases (h : WrittenAttributes attributes written) (hgap : Blank gap) :
    written ++ gap = [] ∨ ∃ c rest, written ++ gap = c :: rest ∧ isSpace c = true := by
  cases h with
  | nil =>
    cases gap with
    | nil => exact Or.inl rfl
    | cons c rest => exact Or.inr ⟨c, rest, rfl, hgap c List.mem_cons_self⟩
  | @cons _ _ _ _ before _ _ _ _ hne hbefore =>
    cases before with
    | nil => exact absurd rfl hne
    | cons c rest => exact Or.inr ⟨c, _, rfl, hbefore c List.mem_cons_self⟩

theorem name_ofTag (htag : isName tag = true) (h : WrittenAttributes attributes written)
    (hgap : Blank gap) : Piece.ofTag.name (tag.toList ++ (written ++ gap)) = tag := by
  have hchars := isNameCharacter_of_isName htag
  have hword : ∀ c ∈ tag.toList, (!isSpace c) = true := fun c hc => by
    rw [isSpace_of_isNameCharacter (hchars c hc)]
    rfl
  rw [Piece.ofTag.name, List.takeWhile_append_of_pos hword]
  rcases written_cases h hgap with heq | ⟨c, rest, heq, hc⟩
  · rw [heq, List.takeWhile_nil, List.append_nil, String.ofList_toList]
  · rw [heq, List.takeWhile_cons, hc]
    simp

theorem attributes_ofTag (htag : isName tag = true) (h : WrittenAttributes attributes written)
    (hgap : Blank gap) :
    Piece.ofTag.attributes (tag.toList ++ (written ++ gap)) = readAttributes [] (written ++ gap) := by
  have hchars := isNameCharacter_of_isName htag
  have hword : ∀ c ∈ tag.toList, (!isSpace c) = true := fun c hc => by
    rw [isSpace_of_isNameCharacter (hchars c hc)]
    rfl
  rw [Piece.ofTag.attributes, List.dropWhile_append_of_pos hword]
  rcases written_cases h hgap with heq | ⟨c, rest, heq, hc⟩
  · rw [heq, List.dropWhile_nil]
  · rw [heq, dropWhile_of_head (by rw [hc]; rfl)]

/-- What is written ends in a quote, if there is anything. -/
theorem getLast?_of_written (h : WrittenAttributes attributes written) :
    written.getLast? ≠ some '/' := by
  induction h with
  | nil => simp
  | @cons key value rest quote gap before after text cs _ _ _ _ hquote _ _ ih =>
    have hslash : quote ≠ '/' := by
      rintro rfl
      exact absurd hquote (by decide)
    cases hcs : cs.getLast? with
    | none => simp [List.getLast?_append, List.getLast?_cons, hcs, hslash]
    | some c =>
      rw [hcs] at ih
      simpa [List.getLast?_append, List.getLast?_cons, hcs] using ih

/-- The last character of what a tag holds is no slash. -/
theorem getLast?_content (htag : isName tag = true) (h : WrittenAttributes attributes written)
    (hgap : Blank gap) : (tag.toList ++ (written ++ gap)).getLast? ≠ some '/' := by
  have hname : tag.toList.getLast? ≠ some '/' := fun heq =>
    ne_of_isNameCharacter (isNameCharacter_of_isName htag _ (List.mem_of_getLast? heq)) (by decide)
      rfl
  have hspace : gap.getLast? ≠ some '/' := fun heq =>
    absurd (hgap _ (List.mem_of_getLast? heq)) (by decide)
  rw [List.getLast?_append, List.getLast?_append]
  cases hg : gap.getLast? with
  | some c => simpa [hg] using hspace
  | none =>
    cases hw : written.getLast? with
    | some c => simpa [hw] using getLast?_of_written h
    | none => simpa using hname

/-- A tag that begins with its name closes nothing. -/
theorem readMarkup_of_isName (htag : isName tag = true) {content : List Char}
    (hpasses : Passes content) (hcontent : tag.toList <+: content) (rest : List Char) :
    readMarkup (content ++ '>' :: rest) = .ok (some (.ofTag content), rest) := by
  obtain ⟨c, more, hstart, hc⟩ := exists_start_of_isName htag
  obtain ⟨tail, rfl⟩ := hcontent
  have hbang : c ≠ '!' := ne_of_isNameStart hc (by decide)
  have hmark : c ≠ '?' := ne_of_isNameStart hc (by decide)
  have hslash : c ≠ '/' := ne_of_isNameStart hc (by decide)
  have htext := tagText_of_passes hpasses rest
  rw [hstart] at htext ⊢
  unfold readMarkup
  split
  · next heq => exact absurd (List.cons.inj heq).1 hbang
  · next heq => exact absurd (List.cons.inj heq).1 hmark
  · next heq => exact absurd (List.cons.inj heq).1 hslash
  · rw [htext]
    rfl

variable (htag : isName tag = true) (hwritten : WrittenAttributes attributes written)
  (hnames : ∀ pair ∈ attributes, isName pair.1 = true) (hgap : Blank gap)

include htag hwritten hnames hgap

theorem passes_content : Passes (tag.toList ++ (written ++ gap)) :=
  (passes_name htag).append ((passes_written hwritten hnames).append (passes_blank hgap))

/-- **A tag that opens an element is read.** -/
theorem readMarkup_opening (rest : List Char) :
    readMarkup (tag.toList ++ (written ++ gap) ++ '>' :: rest)
      = .ok (some (.opening tag (readAttributes [] (written ++ gap))), rest) := by
  rw [readMarkup_of_isName htag (passes_content htag hwritten hnames hgap)
    (List.prefix_append _ _), Piece.ofTag, if_neg (getLast?_content htag hwritten hgap),
    name_ofTag htag hwritten hgap, attributes_ofTag htag hwritten hgap]

/-- **A tag that ends in a slash closes itself.** -/
theorem readMarkup_selfClosing (rest : List Char) :
    readMarkup (tag.toList ++ (written ++ gap) ++ '/' :: '>' :: rest)
      = .ok (some (.selfClosing tag (readAttributes [] (written ++ gap))), rest) := by
  have hpasses : Passes (tag.toList ++ (written ++ gap) ++ ['/']) :=
    (passes_content htag hwritten hnames hgap).append (passes_plain (by decide) (by decide))
  have hprefix : tag.toList <+: tag.toList ++ (written ++ gap) ++ ['/'] :=
    ⟨written ++ gap ++ ['/'], by simp⟩
  have hlast : (tag.toList ++ (written ++ gap) ++ ['/']).getLast? = some '/' :=
    List.getLast?_concat
  have hread := readMarkup_of_isName htag hpasses hprefix rest
  rw [Piece.ofTag, if_pos hlast, List.dropLast_concat, name_ofTag htag hwritten hgap,
    attributes_ofTag htag hwritten hgap] at hread
  rw [← hread]
  simp

omit hwritten hnames

theorem trimName_append : trimName (tag.toList ++ gap) = tag.toList := by
  obtain ⟨c, more, hstart, -⟩ := exists_start_of_isName htag
  have hsolid : ∀ d ∈ tag.toList, isSpace d = false := fun d hd =>
    isSpace_of_isNameCharacter (isNameCharacter_of_isName htag d hd)
  have hall : (tag.toList ++ gap).all isSpace = false := by
    rw [hstart, List.cons_append, List.all_cons, hsolid c (by rw [hstart]; simp), Bool.false_and]
  have hreverse : ∃ d rest, tag.toList.reverse = d :: rest ∧ isSpace d = false := by
    cases hr : tag.toList.reverse with
    | nil => rw [List.reverse_eq_nil_iff, hstart] at hr; cases hr
    | cons d rest =>
      refine ⟨d, rest, rfl, hsolid d ?_⟩
      rw [← List.mem_reverse, hr]
      exact List.mem_cons_self
  obtain ⟨d, rest, hr, hd⟩ := hreverse
  rw [trimName, hall, if_neg Bool.false_ne_true, List.reverse_append,
    List.dropWhile_append_of_pos (by simpa [Blank] using hgap), hr, dropWhile_of_head hd, ← hr,
    List.reverse_reverse]

/-- **A tag that begins with a slash closes an element.** -/
theorem readMarkup_closing (rest : List Char) :
    readMarkup ('/' :: (tag.toList ++ gap) ++ '>' :: rest) = .ok (some (.closing tag), rest) := by
  have hpasses := (passes_name htag).append (passes_blank hgap)
  rw [List.cons_append, readMarkup, tagText_of_passes hpasses]
  simp only [Except.map, trimName_append htag hgap, String.ofList_toList]

end Tags

end SchemaBinding.Markup
