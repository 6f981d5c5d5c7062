import SchemaBinding.Binding
import SchemaBinding.Proofs.Schema.Names
import SchemaBinding.Proofs.Schema.Reports
import Mathlib.Data.List.Chain
import Mathlib.Data.List.Duplicate
import Mathlib.Data.List.Rotate
import Mathlib.Data.Nat.Find
import Mathlib.Logic.Relation

/-!
# Cycles of bases

`BaseStep` leads from a class to its base.  It is a partial function, so from a class there is one
way to go on, and a `BaseCycle` is known by the class where it starts.

* `baseCycle?_eq_some_iff`: the walk from a class finds the cycle that starts at it.
* `exists_leads`, `PlacedCycle.Leads.unique`: of the rotations of a cycle one starts at the class
  that is declared first.
* `exists_leadingFrom`: going through the classes in order, a cycle is found at its first class and
  passed over at the others.
* `transGen_baseStep_self_iff`: a class reaches itself exactly when a cycle starts at it.
* `filter_isFatal_load`: nothing but a cycle is fatal.
* `Binding.cycleReports_ofNode`: every cycle is reported once, and only then is a binding refused.
-/

namespace SchemaBinding.Schema.Document

open Relation (TransGen)

variable {doc : Document}

/-- The second class is the base of the first. -/
def BaseStep (doc : Document) (c d : ClassDecl) : Prop := doc.class? c.base = some d

instance {c d : ClassDecl} : Decidable (doc.BaseStep c d) :=
  inferInstanceAs (Decidable (doc.class? c.base = some d))

theorem BaseStep.unique {c d e : ClassDecl} (hd : doc.BaseStep c d) (he : doc.BaseStep c e) :
    d = e :=
  Option.some.inj (hd.symm.trans he)

theorem BaseStep.mem {c d : ClassDecl} (h : doc.BaseStep c d) : d ∈ doc.classes.items :=
  Registry.mem_items_of_find? h

theorem mem_items_of_isChain {a : ClassDecl} {l : List ClassDecl}
    (h : (a :: l).IsChain doc.BaseStep) : ∀ d ∈ l, d ∈ doc.classes.items := by
  induction l generalizing a with
  | nil => simp
  | cons b l ih =>
    intro d hd
    rw [List.isChain_cons_cons] at h
    rcases List.mem_cons.1 hd with rfl | hd
    · exact h.1.mem
    · exact ih h.2 d hd

/-- From the first class the bases lead through the others, none twice, back to the first. -/
structure BaseCycle (doc : Document) (first : ClassDecl) (others : List ClassDecl) : Prop where
  chain : (first :: (others ++ [first])).IsChain doc.BaseStep
  nodup : (first :: others).Nodup

namespace BaseCycle

variable {first : ClassDecl} {others : List ClassDecl}

theorem first_notMem (h : doc.BaseCycle first others) : first ∉ others :=
  (List.nodup_cons.1 h.nodup).1

/-- Every class of a cycle is declared: it is the base of another. -/
theorem mem_items (h : doc.BaseCycle first others) {c : ClassDecl} (hc : c ∈ first :: others) :
    c ∈ doc.classes.items := by
  refine mem_items_of_isChain h.chain c ?_
  rcases List.mem_cons.1 hc with rfl | hc
  · simp
  · simp [hc]

/-- A cycle may be entered at any of its classes. -/
theorem rotate {d : ClassDecl} {before after : List ClassDecl}
    (h : doc.BaseCycle first (before ++ d :: after)) :
    doc.BaseCycle d (after ++ first :: before) := by
  have hc := h.chain
  rw [List.append_assoc, List.cons_append, List.isChain_cons_split] at hc
  constructor
  · rw [List.append_assoc, List.cons_append, List.isChain_cons_split]
    exact ⟨hc.2, hc.1⟩
  · have hperm : ((first :: before) ++ d :: after).Perm ((d :: after) ++ first :: before) :=
      List.perm_append_comm
    exact hperm.nodup_iff.1 h.nodup

/-- Two ways from one class to the first return to another are the same. -/
theorem others_eq_of_isChain {last : ClassDecl} :
    ∀ (l m : List ClassDecl) (a : ClassDecl), (a :: (l ++ [last])).IsChain doc.BaseStep →
      (a :: (m ++ [last])).IsChain doc.BaseStep → last ∉ l → last ∉ m → l = m := by
  intro l
  induction l with
  | nil =>
    intro m a hl hm _ hlm
    cases m with
    | nil => rfl
    | cons b m =>
      rw [List.nil_append, List.isChain_cons_cons] at hl
      rw [List.cons_append, List.isChain_cons_cons] at hm
      exact absurd (hl.1.unique hm.1) fun he => hlm (he ▸ List.mem_cons_self)
  | cons b l ih =>
    intro m a hl hm hll hlm
    cases m with
    | nil =>
      rw [List.nil_append, List.isChain_cons_cons] at hm
      rw [List.cons_append, List.isChain_cons_cons] at hl
      exact absurd (hm.1.unique hl.1) fun he => hll (he ▸ List.mem_cons_self)
    | cons c m =>
      rw [List.cons_append, List.isChain_cons_cons] at hl hm
      obtain rfl := hl.1.unique hm.1
      rw [List.mem_cons, not_or] at hll hlm
      rw [ih m b hl.2 hm.2 hll.2 hlm.2]

/-- **A cycle is known by its first class.** -/
theorem others_eq (h : doc.BaseCycle first others) {others' : List ClassDecl}
    (h' : doc.BaseCycle first others') : others = others' :=
  others_eq_of_isChain _ _ _ h.chain h'.chain h.first_notMem h'.first_notMem

end BaseCycle

/-! ### Reaching oneself -/

theorem transGen_of_isChain {R : ClassDecl → ClassDecl → Prop} {b : ClassDecl} :
    ∀ (l : List ClassDecl) (a : ClassDecl), (a :: (l ++ [b])).IsChain R → TransGen R a b := by
  intro l
  induction l with
  | nil => intro a h; exact .single (by simpa using h)
  | cons c l ih =>
    intro a h
    rw [List.cons_append, List.isChain_cons_cons] at h
    exact .head h.1 (ih c h.2)

theorem exists_isChain_of_transGen {R : ClassDecl → ClassDecl → Prop} {a b : ClassDecl}
    (h : TransGen R a b) : ∃ l, (a :: (l ++ [b])).IsChain R := by
  induction h using TransGen.head_induction_on with
  | single h => exact ⟨[], by simpa using h⟩
  | head h _ ih =>
    obtain ⟨l, hl⟩ := ih
    exact ⟨_ :: l, List.isChain_cons_cons.2 ⟨h, hl⟩⟩

theorem exists_split_of_duplicate {d : ClassDecl} {l : List ClassDecl} (h : l.Duplicate d) :
    ∃ before middle after, l = before ++ d :: (middle ++ d :: after) := by
  induction h with
  | cons_mem hm =>
    obtain ⟨middle, after, rfl⟩ := List.append_of_mem hm
    exact ⟨[], middle, after, rfl⟩
  | cons_duplicate _ ih =>
    obtain ⟨before, middle, after, rfl⟩ := ih
    exact ⟨_ :: before, middle, after, rfl⟩

/-- A way back that meets a class twice can be cut short. -/
theorem exists_baseCycle_of_isChain {c : ClassDecl} {l : List ClassDecl}
    (h : (c :: (l ++ [c])).IsChain doc.BaseStep) : ∃ others, doc.BaseCycle c others := by
  induction hn : l.length using Nat.strong_induction_on generalizing l with
  | _ n ih =>
    by_cases hd : (c :: l).Nodup
    · exact ⟨l, h, hd⟩
    rw [← List.exists_duplicate_iff_not_nodup] at hd
    obtain ⟨d, hd⟩ := hd
    rcases List.duplicate_cons_iff.1 hd with ⟨rfl, hm⟩ | hd
    · -- the class itself is met on the way: leave out what lies before
      obtain ⟨before, after, rfl⟩ := List.append_of_mem hm
      rw [List.append_assoc, List.cons_append, List.isChain_cons_split] at h
      refine ih _ ?_ h.2 rfl
      simp only [List.length_append, List.length_cons] at hn
      omega
    · -- another class is met twice: leave out what lies between
      obtain ⟨before, middle, after, rfl⟩ := exists_split_of_duplicate hd
      have hshort : (c :: ((before ++ d :: after) ++ [c])).IsChain doc.BaseStep := by
        simp only [List.append_assoc, List.cons_append] at h ⊢
        obtain ⟨hbefore, hafter⟩ := List.isChain_cons_split.1 h
        exact List.isChain_cons_split.2 ⟨hbefore, (List.isChain_cons_split.1 hafter).2⟩
      refine ih _ ?_ hshort rfl
      simp only [List.length_append, List.length_cons] at hn ⊢
      omega

theorem transGen_baseStep_self_iff {c : ClassDecl} :
    TransGen doc.BaseStep c c ↔ ∃ others, doc.BaseCycle c others := by
  constructor
  · intro h
    obtain ⟨l, hl⟩ := exists_isChain_of_transGen h
    exact exists_baseCycle_of_isChain hl
  · rintro ⟨others, h⟩
    exact transGen_of_isChain others c h.chain

/-! ### The walk -/

theorem baseWalk_of_none {names : List String} {c : ClassDecl} (h : doc.class? c.base = none) :
    doc.baseWalk names c = ⟨names, none⟩ := by
  rw [baseWalk]
  split
  · rfl
  · next hd => rw [h] at hd; cases hd

theorem baseWalk_of_mem {names : List String} {c d : ClassDecl} (h : doc.BaseStep c d)
    (hd : d.name ∈ names) : doc.baseWalk names c = ⟨names, some d.name⟩ := by
  rw [baseWalk]
  split
  · next hn => rw [BaseStep, hn] at h; cases h
  · next e he =>
    obtain rfl := BaseStep.unique he h
    rw [dif_pos hd]

theorem baseWalk_of_notMem {names : List String} {c d : ClassDecl} (h : doc.BaseStep c d)
    (hd : d.name ∉ names) : doc.baseWalk names c = doc.baseWalk (names ++ [d.name]) d := by
  rw [baseWalk]
  split
  · next hn => rw [BaseStep, hn] at h; cases h
  · next e he =>
    obtain rfl := BaseStep.unique he h
    rw [dif_neg hd]

/-- A walk that does not meet a name twice follows the bases to the end of a chain. -/
theorem baseWalk_of_isChain {last : ClassDecl} :
    ∀ (l : List ClassDecl) (names : List String) (c : ClassDecl),
      (c :: (l ++ [last])).IsChain doc.BaseStep → (names ++ l.map ClassDecl.name).Nodup →
      last.name ∈ names →
      doc.baseWalk names c = ⟨names ++ l.map ClassDecl.name, some last.name⟩ := by
  intro l
  induction l with
  | nil =>
    intro names c hc _ hlast
    rw [List.nil_append, List.isChain_cons_cons] at hc
    rw [baseWalk_of_mem hc.1 hlast, List.map_nil, List.append_nil]
  | cons d l ih =>
    intro names c hc hn hlast
    rw [List.cons_append, List.isChain_cons_cons] at hc
    have hd : d.name ∉ names := by
      intro hm
      exact (List.nodup_append.1 hn).2.2 _ hm _ List.mem_cons_self rfl
    rw [List.map_cons, List.append_cons] at hn ⊢
    rw [baseWalk_of_notMem hc.1 hd]
    exact ih _ d hc.2 hn (List.mem_append_left _ hlast)

/-- A walk that comes back follows the bases: it adds the names of a chain of classes, and the last
of them has the class that was met again for its base. -/
theorem exists_isChain_of_baseWalk (names : List String) (c : ClassDecl) {name : String}
    (h : (doc.baseWalk names c).back? = some name) :
    ∃ l last, (c :: (l ++ [last])).IsChain doc.BaseStep ∧ last.name = name
      ∧ (doc.baseWalk names c).names = names ++ l.map ClassDecl.name := by
  fun_induction baseWalk doc names c with
  | case1 => cases h
  | case2 names c d hd _ =>
    refine ⟨[], d, List.isChain_cons_cons.2 ⟨hd, .singleton _⟩, Option.some.inj h, ?_⟩
    rw [List.map_nil, List.append_nil]
  | case3 names c d hd _ _ ih =>
    obtain ⟨l, last, hl, hlast, hnames⟩ := ih h
    refine ⟨d :: l, last, List.isChain_cons_cons.2 ⟨hd, hl⟩, hlast, ?_⟩
    rw [hnames, List.map_cons, List.append_assoc, List.singleton_append]

theorem nodup_names_of_nodup (hd : doc.WellNamed) {l : List ClassDecl}
    (hl : ∀ c ∈ l, c ∈ doc.classes.items) (hn : l.Nodup) : (l.map ClassDecl.name).Nodup :=
  hn.map_on fun _ hx _ hy => hd.classes.eq_of_name_eq (hl _ hx) (hl _ hy)

/-- **The walk from a class finds the cycle that starts at it.** -/
theorem baseCycle?_eq_some_iff (hd : doc.WellNamed) {c : ClassDecl} (hc : c ∈ doc.classes.items)
    {names : List String} :
    doc.baseCycle? c = some names
      ↔ ∃ others, doc.BaseCycle c others ∧ names = (c :: others).map ClassDecl.name := by
  rw [baseCycle?]
  constructor
  · intro h
    split at h
    · next hback =>
      obtain ⟨l, last, hl, hname, hnames⟩ := exists_isChain_of_baseWalk [c.name] c hback
      have hlast : last = c :=
        hd.classes.eq_of_name_eq (mem_items_of_isChain hl last (by simp)) hc hname
      subst hlast
      have hnodup := nodup_names_baseWalk doc last (List.nodup_singleton last.name)
      rw [hnames] at hnodup
      refine ⟨l, ⟨hl, List.Nodup.of_map ClassDecl.name hnodup⟩, ?_⟩
      rw [← Option.some.inj h, hnames]
      rfl
    · cases h
  · rintro ⟨others, h, rfl⟩
    have hnodup := nodup_names_of_nodup hd (fun _ => h.mem_items) h.nodup
    have hwalk := baseWalk_of_isChain others [c.name] c h.chain hnodup (List.mem_singleton.2 rfl)
    rw [hwalk]
    simp

theorem baseCycle?_eq_none_iff (hd : doc.WellNamed) {c : ClassDecl} (hc : c ∈ doc.classes.items) :
    doc.baseCycle? c = none ↔ ∀ others, ¬ doc.BaseCycle c others := by
  rw [Option.eq_none_iff_forall_ne_some]
  constructor
  · intro h others hcycle
    exact h _ ((baseCycle?_eq_some_iff hd hc).2 ⟨others, hcycle, rfl⟩)
  · intro h names hn
    obtain ⟨others, hcycle, -⟩ := (baseCycle?_eq_some_iff hd hc).1 hn
    exact h others hcycle

/-! ### The first class of a cycle -/

structure PlacedCycle where
  index : Nat
  first : ClassDecl
  others : List ClassDecl

def PlacedCycle.classes (p : PlacedCycle) : List ClassDecl := p.first :: p.others

/-- The first class stands at the place, and none of the classes stands before. -/
structure PlacedCycle.Leads (p : PlacedCycle) (doc : Document) : Prop where
  place : doc.classes.items[p.index]? = some p.first
  cycle : doc.BaseCycle p.first p.others
  earliest : ∀ j d, doc.classes.items[j]? = some d → d ∈ p.classes → p.index ≤ j

/-- Of the rotations of a cycle one starts at the class that is declared first. -/
theorem exists_leads {c : ClassDecl} {others : List ClassDecl} (h : doc.BaseCycle c others) :
    ∃ p : PlacedCycle, p.Leads doc ∧ p.classes ~r (c :: others) := by
  classical
  have hex : ∃ i : Nat, ∃ d, doc.classes.items[i]? = some d ∧ d ∈ c :: others := by
    obtain ⟨i, hi⟩ := List.mem_iff_getElem?.1 (h.mem_items List.mem_cons_self)
    exact ⟨i, c, hi, List.mem_cons_self⟩
  obtain ⟨d, hplace, hmem⟩ := Nat.find_spec hex
  have hmin : ∀ j e, doc.classes.items[j]? = some e → e ∈ c :: others → Nat.find hex ≤ j :=
    fun j e hj he => Nat.find_min' hex ⟨e, hj, he⟩
  obtain ⟨others', hcycle, hrot⟩ :
      ∃ others', doc.BaseCycle d others' ∧ (d :: others') ~r (c :: others) := by
    rcases List.mem_cons.1 hmem with rfl | hmem
    · exact ⟨others, h, List.IsRotated.refl _⟩
    · obtain ⟨before, after, rfl⟩ := List.append_of_mem hmem
      have hrot : ((d :: after) ++ (c :: before)) ~r ((c :: before) ++ (d :: after)) :=
        List.isRotated_append
      exact ⟨after ++ c :: before, h.rotate, hrot⟩
  exact ⟨⟨_, d, others'⟩,
    ⟨hplace, hcycle, fun j e hj he => hmin j e hj (hrot.mem_iff.1 he)⟩, hrot⟩

/-- Two leading cycles with the same classes are the same. -/
theorem PlacedCycle.Leads.unique {p q : PlacedCycle} (hp : p.Leads doc) (hq : q.Leads doc)
    (hrot : p.classes ~r q.classes) : p = q := by
  have hle : p.index ≤ q.index :=
    hp.earliest _ _ hq.place (hrot.mem_iff.2 List.mem_cons_self)
  have hge : q.index ≤ p.index :=
    hq.earliest _ _ hp.place (hrot.mem_iff.1 List.mem_cons_self)
  obtain ⟨i, c, others⟩ := p
  obtain ⟨j, d, others'⟩ := q
  obtain rfl : i = j := Nat.le_antisymm hle hge
  obtain rfl : c = d := Option.some.inj (hp.place.symm.trans hq.place)
  obtain rfl : others = others' := hp.cycle.others_eq hq.cycle
  rfl

/-- The cycles that start at a place or behind it, in the order of their places. -/
structure LeadingFrom (doc : Document) (n : Nat) (cycles : List PlacedCycle) : Prop where
  sorted : cycles.Pairwise fun p q => p.index < q.index
  mem_iff : ∀ p, p ∈ cycles ↔ p.Leads doc ∧ n ≤ p.index

namespace LeadingFrom

variable {n : Nat} {cycles : List PlacedCycle}

theorem nil (hn : doc.classes.items.length ≤ n) : doc.LeadingFrom n [] := by
  refine ⟨.nil, fun p => ⟨fun h => (nomatch h), ?_⟩⟩
  rintro ⟨h, hle⟩
  have hplace := h.place
  rw [List.getElem?_eq_none (hn.trans hle)] at hplace
  cases hplace

theorem skip (h : doc.LeadingFrom (n + 1) cycles)
    (hn : ∀ p : PlacedCycle, p.Leads doc → p.index ≠ n) : doc.LeadingFrom n cycles := by
  refine ⟨h.sorted, fun p => ?_⟩
  rw [h.mem_iff]
  refine and_congr_right fun hp => ?_
  have := hn p hp
  omega

theorem cons (h : doc.LeadingFrom (n + 1) cycles) {p : PlacedCycle} (hp : p.Leads doc)
    (hn : p.index = n) : doc.LeadingFrom n (p :: cycles) := by
  constructor
  · refine List.pairwise_cons.2 ⟨fun q hq => ?_, h.sorted⟩
    have := ((h.mem_iff q).1 hq).2
    omega
  · intro q
    rw [List.mem_cons, h.mem_iff]
    constructor
    · rintro (rfl | ⟨hq, hle⟩)
      · exact ⟨hp, hn.ge⟩
      · exact ⟨hq, by omega⟩
    · rintro ⟨hq, hle⟩
      rcases Nat.eq_or_lt_of_le hle with heq | hlt
      · -- two leading cycles at one place start at the same class
        obtain ⟨i, c, others⟩ := p
        obtain ⟨j, d, others'⟩ := q
        obtain rfl : i = j := hn.trans heq
        obtain rfl : c = d := Option.some.inj (hp.place.symm.trans hq.place)
        obtain rfl : others = others' := hp.cycle.others_eq hq.cycle
        exact Or.inl rfl
      · exact Or.inr ⟨hq, hlt⟩

end LeadingFrom

/-! ### Going through the classes -/

/-- The class lies on the cycle that starts at one of some classes. -/
def OnCycleOf (doc : Document) (starts : List ClassDecl) (c : ClassDecl) : Prop :=
  ∃ e ∈ starts, ∃ others, doc.BaseCycle e others ∧ c ∈ others

/-- The cycles that start at two classes of one cycle have the same classes. -/
theorem BaseCycle.mem_iff_of_mem {c d : ClassDecl} {others others' : List ClassDecl}
    (h : doc.BaseCycle c others) (h' : doc.BaseCycle d others') (hd : d ∈ others) {e : ClassDecl} :
    e ∈ d :: others' ↔ e ∈ c :: others := by
  obtain ⟨before, after, rfl⟩ := List.append_of_mem hd
  rw [h'.others_eq h.rotate]
  have hrot : ((d :: after) ++ (c :: before)) ~r ((c :: before) ++ (d :: after)) :=
    List.isRotated_append
  exact hrot.mem_iff

/-- Another class is named on the cycle of a class exactly if it lies on it. -/
theorem mem_names_baseCycle_iff (hd : doc.WellNamed) {c d : ClassDecl} {others : List ClassDecl}
    (h : doc.BaseCycle c others) (hm : d ∈ doc.classes.items) (hne : d ≠ c) :
    d.name ∈ (c :: others).map ClassDecl.name
      ↔ ∃ others', doc.BaseCycle c others' ∧ d ∈ others' := by
  constructor
  · intro hname
    obtain ⟨e, he, hname⟩ := List.mem_map.1 hname
    obtain rfl := hd.classes.eq_of_name_eq (h.mem_items he) hm hname
    exact ⟨others, h, List.mem_of_ne_of_mem hne he⟩
  · rintro ⟨others', h', hmem⟩
    rw [h.others_eq h']
    exact List.mem_map_of_mem (List.mem_cons_of_mem _ hmem)

theorem onCycleOf_append_singleton {before : List ClassDecl} {c d : ClassDecl} :
    doc.OnCycleOf (before ++ [c]) d
      ↔ doc.OnCycleOf before d ∨ ∃ others, doc.BaseCycle c others ∧ d ∈ others := by
  constructor
  · rintro ⟨e, he, others, h, hm⟩
    rcases List.mem_append.1 he with he | he
    · exact Or.inl ⟨e, he, others, h, hm⟩
    · rw [List.mem_singleton.1 he] at h
      exact Or.inr ⟨others, h, hm⟩
  · rintro (⟨e, he, others, h, hm⟩ | ⟨others, h, hm⟩)
    · exact ⟨e, List.mem_append_left _ he, others, h, hm⟩
    · exact ⟨c, by simp, others, h, hm⟩

/-- The cycle of a class that lies on the cycle of an earlier one adds nothing. -/
theorem onCycleOf_append_of_onCycleOf {before : List ClassDecl} {c : ClassDecl}
    (h : doc.OnCycleOf before c) {d : ClassDecl} (hd : d ∉ before) :
    doc.OnCycleOf (before ++ [c]) d ↔ doc.OnCycleOf before d := by
  rw [onCycleOf_append_singleton, or_iff_left_iff_imp]
  rintro ⟨others, hcycle, hm⟩
  obtain ⟨e, he, others', hcycle', hm'⟩ := h
  have hmem := (hcycle'.mem_iff_of_mem hcycle hm').1 (List.mem_cons_of_mem _ hm)
  rcases List.mem_cons.1 hmem with rfl | hmem
  · exact absurd he hd
  · exact ⟨e, he, others', hcycle', hmem⟩

section Traversal

variable {before rest : List ClassDecl} {c : ClassDecl}

theorem index_ne_of_onCycleOf (hitems : doc.classes.items = before ++ c :: rest)
    (h : doc.OnCycleOf before c) (p : PlacedCycle) (hp : p.Leads doc) :
    p.index ≠ before.length := by
  intro hindex
  have hplace := hp.place
  rw [hitems, hindex, List.getElem?_append_right (Nat.le_refl _), Nat.sub_self] at hplace
  obtain rfl : c = p.first := Option.some.inj hplace
  obtain ⟨e, he, others, hcycle, hm⟩ := h
  obtain ⟨j, hj⟩ := List.mem_iff_getElem?.1 he
  have hlt : j < before.length := (List.getElem?_eq_some_iff.1 hj).1
  have hle : p.index ≤ j := by
    refine hp.earliest j e ?_ ((hcycle.mem_iff_of_mem hp.cycle hm).2 List.mem_cons_self)
    rw [hitems, List.getElem?_append_left hlt, hj]
  omega

theorem index_ne_of_not_baseCycle (hitems : doc.classes.items = before ++ c :: rest)
    (h : ∀ others, ¬ doc.BaseCycle c others) (p : PlacedCycle) (hp : p.Leads doc) :
    p.index ≠ before.length := by
  intro hindex
  have hplace := hp.place
  rw [hitems, hindex, List.getElem?_append_right (Nat.le_refl _), Nat.sub_self] at hplace
  obtain rfl : c = p.first := Option.some.inj hplace
  exact h _ hp.cycle

theorem leads_of_not_onCycleOf (hd : doc.WellNamed)
    (hitems : doc.classes.items = before ++ c :: rest) {others : List ClassDecl}
    (hcycle : doc.BaseCycle c others) (h : ¬ doc.OnCycleOf before c) :
    PlacedCycle.Leads ⟨before.length, c, others⟩ doc := by
  refine ⟨by rw [hitems]; simp, hcycle, fun j d hj hm => ?_⟩
  by_contra hlt
  rw [Nat.not_le] at hlt
  rw [hitems, List.getElem?_append_left hlt] at hj
  have hbefore : d ∈ before := List.mem_of_getElem? hj
  rcases List.mem_cons.1 hm with rfl | hm
  · have hnodup := hd.classes.nodup_items
    rw [hitems] at hnodup
    exact (List.nodup_append.1 hnodup).2.2 d hbefore d List.mem_cons_self rfl
  · obtain ⟨l, m, rfl⟩ := List.append_of_mem hm
    exact h ⟨d, hbefore, _, hcycle.rotate, by simp⟩

end Traversal

/-- **Going through the classes, a cycle is found at its first class** and passed over at the
others.  The names found so far are those on the cycles of the classes gone through. -/
theorem exists_leadingFrom (hd : doc.WellNamed) :
    ∀ (rest before : List ClassDecl) (found : List String),
      doc.classes.items = before ++ rest →
      (∀ d ∈ rest, d.name ∈ found ↔ doc.OnCycleOf before d) →
      ∃ cycles, doc.LeadingFrom before.length cycles
        ∧ doc.baseCyclesFrom found before.length rest
          = cycles.map fun p => (p.index, p.classes.map ClassDecl.name) := by
  intro rest
  induction rest with
  | nil =>
    intro before found hitems _
    exact ⟨[], .nil (by rw [hitems, List.append_nil]), rfl⟩
  | cons c rest ih =>
    intro before found hitems hfound
    have hitems' : doc.classes.items = (before ++ [c]) ++ rest := by
      rw [hitems, List.append_assoc, List.singleton_append]
    have hmem : ∀ d ∈ c :: rest, d ∈ doc.classes.items := by
      intro d hm
      rw [hitems]
      exact List.mem_append_right _ hm
    have hnodup := hd.classes.nodup_items
    rw [hitems, List.nodup_append, List.nodup_cons] at hnodup
    obtain ⟨-, ⟨hc, -⟩, hdisjoint⟩ := hnodup
    have hfound' : ∀ d ∈ rest, d.name ∈ found ↔ doc.OnCycleOf before d := fun d hm =>
      hfound d (List.mem_cons_of_mem _ hm)
    have hlength : (before ++ [c]).length = before.length + 1 := by simp
    by_cases hf : c.name ∈ found
    · have hon := (hfound c List.mem_cons_self).1 hf
      obtain ⟨cycles, hlead, heq⟩ := ih (before ++ [c]) found hitems' fun d hm => by
        have hbefore : d ∉ before := fun hb => hdisjoint d hb d (List.mem_cons_of_mem _ hm) rfl
        rw [hfound' d hm, onCycleOf_append_of_onCycleOf hon hbefore]
      rw [hlength] at hlead heq
      refine ⟨cycles, hlead.skip (index_ne_of_onCycleOf hitems hon), ?_⟩
      rw [baseCyclesFrom, if_pos hf, heq]
    have hon := mt (hfound c List.mem_cons_self).2 hf
    cases hcycle : doc.baseCycle? c with
    | none =>
      have hno := (baseCycle?_eq_none_iff hd (hmem c List.mem_cons_self)).1 hcycle
      obtain ⟨cycles, hlead, heq⟩ := ih (before ++ [c]) found hitems' fun d hm => by
        rw [hfound' d hm, onCycleOf_append_singleton]
        exact ⟨Or.inl, fun h => h.resolve_right fun ⟨others, h, _⟩ => hno others h⟩
      rw [hlength] at hlead heq
      refine ⟨cycles, hlead.skip (index_ne_of_not_baseCycle hitems hno), ?_⟩
      rw [baseCyclesFrom, if_neg hf, hcycle, heq]
    | some names =>
      obtain ⟨others, hbase, rfl⟩ :=
        (baseCycle?_eq_some_iff hd (hmem c List.mem_cons_self)).1 hcycle
      obtain ⟨cycles, hlead, heq⟩ :=
        ih (before ++ [c]) ((c :: others).map ClassDecl.name ++ found) hitems' fun d hm => by
          have hne : d ≠ c := by
            rintro rfl
            exact hc hm
          rw [List.mem_append, hfound' d hm, onCycleOf_append_singleton,
            mem_names_baseCycle_iff hd hbase (hmem d (List.mem_cons_of_mem _ hm)) hne, or_comm]
      rw [hlength] at hlead heq
      refine ⟨⟨before.length, c, others⟩ :: cycles,
        hlead.cons (leads_of_not_onCycleOf hd hitems hbase hon) rfl, ?_⟩
      rw [baseCyclesFrom, if_neg hf, hcycle]
      exact congrArg ((before.length, (c :: others).map ClassDecl.name) :: ·) heq

/-! ### Reports -/

def PlacedCycle.report (p : PlacedCycle) : Diagnostic :=
  .error (.cyclicBase (p.classes.map ClassDecl.name ++ [p.first.name]))
    (.classAt p.index p.first.name)

/-- The report names the classes of the cycle with an arrow behind each, and the first again. -/
theorem PlacedCycle.message_report (p : PlacedCycle) :
    p.report.problem.message
      = "cyclic base class chain: "
        ++ String.join (p.classes.map (·.name ++ " -> ")) ++ p.first.name := by
  have key : ∀ (l : List ClassDecl) (last : String),
      " -> ".intercalate (l.map ClassDecl.name ++ [last])
        = String.join (l.map (·.name ++ " -> ")) ++ last := by
    intro l last
    induction l with
    | nil => simp
    | cons c l ih =>
      rw [List.map_cons, List.map_cons, List.cons_append,
        String.intercalate_cons_of_ne_nil (by simp), ih, String.join_cons]
      simp only [String.append_assoc]
  rw [String.append_assoc, ← key]
  rfl

theorem exists_cycleReports_eq (hd : doc.WellNamed) :
    ∃ cycles, doc.LeadingFrom 0 cycles ∧ doc.cycleReports = cycles.map PlacedCycle.report := by
  obtain ⟨cycles, hlead, heq⟩ := exists_leadingFrom hd doc.classes.items [] [] rfl (by
    intro d _
    simp [OnCycleOf])
  refine ⟨cycles, hlead, ?_⟩
  rw [cycleReports, baseCycles, ← List.length_nil, heq, List.map_map]
  rfl

theorem cycleReports_eq_nil_iff (hd : doc.WellNamed) :
    doc.cycleReports = [] ↔ ∀ c, ¬ TransGen doc.BaseStep c c := by
  obtain ⟨cycles, hlead, heq⟩ := exists_cycleReports_eq hd
  rw [heq, List.map_eq_nil_iff]
  constructor
  · rintro rfl c hc
    obtain ⟨others, hcycle⟩ := transGen_baseStep_self_iff.1 hc
    obtain ⟨p, hp, -⟩ := exists_leads hcycle
    exact nomatch (hlead.mem_iff p).2 ⟨hp, Nat.zero_le _⟩
  · intro h
    rw [List.eq_nil_iff_forall_not_mem]
    intro p hp
    have hcycle := ((hlead.mem_iff p).1 hp).1.cycle
    exact h p.first (transGen_baseStep_self_iff.2 ⟨p.others, hcycle⟩)

/-! ### What is fatal -/

/-- Reading a tree finds nothing fatal. -/
theorem isFatal_of_mem_ofNode {root : Node} {d : Diagnostic} (hd : d ∈ (ofNode root).2) :
    d.isFatal = false := by
  rw [Diagnostic.isFatal]
  rcases problem_of_mem_ofNode hd with ⟨element, key, h⟩ | ⟨key, value, -, h⟩ | ⟨name, h⟩
    | ⟨name, h⟩ <;> rw [h]

theorem isFatal_of_mem_baseReports {index : Nat} {c : ClassDecl} {d : Diagnostic}
    (hd : d ∈ doc.baseReports index c) : d.isFatal = false := by
  obtain ⟨-, ⟨-, rfl⟩ | ⟨base, -, -, rfl⟩⟩ := mem_baseReports_iff.1 hd <;> rfl

theorem isFatal_of_mem_typeReports {owner : String} {index : Nat} {m : Member} {d : Diagnostic}
    (hd : d ∈ doc.typeReports owner index m) : d.isFatal = false := by
  obtain ⟨-, ⟨-, rfl⟩ | ⟨e, -, -, -, -, rfl⟩⟩ := mem_typeReports_iff.1 hd
  · unfold missingTarget
    split <;> rfl
  · rfl

theorem isFatal_of_mem_flatten_baseReports {d : Diagnostic}
    (hd : d ∈ (doc.classes.items.mapIdx doc.baseReports).flatten) : d.isFatal = false := by
  obtain ⟨j, c, -, hd⟩ := mem_flatten_mapIdx_iff.1 hd
  exact isFatal_of_mem_baseReports hd

theorem isFatal_of_mem_flatMap_typeReports {d : Diagnostic}
    (hd : d ∈ doc.classes.items.flatMap fun c =>
      (c.members.mapIdx (doc.typeReports c.name)).flatten) : d.isFatal = false := by
  obtain ⟨c, -, hd⟩ := List.mem_flatMap.1 hd
  obtain ⟨j, m, -, hd⟩ := mem_flatten_mapIdx_iff.1 hd
  exact isFatal_of_mem_typeReports hd

/-- **Nothing but a cycle is fatal.** -/
theorem filter_isFatal_load (root : Node) :
    (load root).2.filter Diagnostic.isFatal = (ofNode root).1.cycleReports := by
  have hnone : ∀ ds : List Diagnostic, (∀ d ∈ ds, d.isFatal = false) →
      ds.filter Diagnostic.isFatal = [] := fun ds h =>
    List.filter_eq_nil_iff.2 fun d hd => by simp [h d hd]
  have hcycles : (ofNode root).1.cycleReports.filter Diagnostic.isFatal
      = (ofNode root).1.cycleReports := by
    refine List.filter_eq_self.2 fun d hd => ?_
    obtain ⟨p, -, rfl⟩ := List.mem_map.1 hd
    rfl
  rw [load, resolve, resolveReports, List.filter_append, List.filter_append, List.filter_append,
    hnone (ofNode root).2 fun d hd => isFatal_of_mem_ofNode hd, hcycles,
    hnone _ fun d hd => isFatal_of_mem_flatten_baseReports hd,
    hnone _ fun d hd => isFatal_of_mem_flatMap_typeReports hd, List.nil_append, List.append_nil,
    List.append_nil]

theorem anyFatal_load_iff (root : Node) :
    Diagnostic.anyFatal (load root).2 = true
      ↔ ∃ c, TransGen (ofNode root).1.BaseStep c c := by
  rw [← not_iff_not, not_exists, ← cycleReports_eq_nil_iff (wellNamed_ofNode root),
    ← filter_isFatal_load, List.filter_eq_nil_iff, Diagnostic.anyFatal, List.any_eq_true]
  simp

end SchemaBinding.Schema.Document

namespace SchemaBinding.Binding

open Schema
open Relation (TransGen)

/-- A class that reaches itself is declared: it is the base of another. -/
theorem mem_items_of_transGen {doc : Document} {c d : ClassDecl}
    (h : TransGen doc.BaseStep c d) : d ∈ doc.classes.items := by
  induction h with
  | single h => exact h.mem
  | tail _ h _ => exact h.mem

/-- **Every cycle of bases is reported once**, at the class of the cycle that is declared first,
with the names along the cycle from there, and in the order of these classes.  A binding is refused
exactly if some class reaches itself by its bases. -/
theorem cycleReports_ofNode (settings : Code.Settings) (root : Node) :
    (∃ cycles : List Document.PlacedCycle,
      (Document.ofNode root).1.cycleReports = cycles.map Document.PlacedCycle.report
      ∧ cycles.Pairwise (fun p q => p.index < q.index)
      ∧ (∀ p ∈ cycles, p.Leads (Document.ofNode root).1
        ∧ p.report.problem.message
          = "cyclic base class chain: "
            ++ String.join (p.classes.map (·.name ++ " -> ")) ++ p.first.name
        ∧ p.report.location = .classAt p.index p.first.name)
      ∧ ∀ first others, (Document.ofNode root).1.BaseCycle first others →
        ∃! p, p ∈ cycles ∧ p.classes ~r (first :: others))
    ∧ ((∃ diagnostics, generate settings root = .error diagnostics)
      ↔ ∃ c ∈ (Document.ofNode root).1.classes.items,
        TransGen (Document.ofNode root).1.BaseStep c c) := by
  constructor
  · obtain ⟨cycles, hlead, heq⟩ := Document.exists_cycleReports_eq (Document.wellNamed_ofNode root)
    refine ⟨cycles, heq, hlead.sorted, fun p hp => ?_, fun first others hcycle => ?_⟩
    · exact ⟨((hlead.mem_iff p).1 hp).1, p.message_report, rfl⟩
    · obtain ⟨p, hp, hrot⟩ := Document.exists_leads hcycle
      refine ⟨p, ⟨(hlead.mem_iff p).2 ⟨hp, Nat.zero_le _⟩, hrot⟩, fun q ⟨hq, hrot'⟩ => ?_⟩
      exact ((hlead.mem_iff q).1 hq).1.unique hp (hrot'.trans hrot.symm)
  · constructor
    · rintro ⟨diagnostics, h⟩
      have hfatal : Diagnostic.anyFatal (Document.load root).2 = true := by
        by_contra hno
        simp [generate, hno] at h
      obtain ⟨c, hc⟩ := (Document.anyFatal_load_iff root).1 hfatal
      exact ⟨c, mem_items_of_transGen hc, hc⟩
    · rintro ⟨c, -, hc⟩
      have hfatal := (Document.anyFatal_load_iff root).2 ⟨c, hc⟩
      exact ⟨(Document.load root).2, by simp [generate, hfatal]⟩

end SchemaBinding.Binding
