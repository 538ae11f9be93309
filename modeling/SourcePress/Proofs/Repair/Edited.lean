import Mathlib.Tactic
import SourcePress.Proofs.Repair.Splice

/-!
# Edits in any order

What edits make of a text, told without an order of them: at each offset stands the replacement of
the edit that starts there, and then the code point of the offset unless it lies in the part of an
edit. Edits that start at different offsets are applied with this result exactly if none of them
starts inside the part of another, and in whatever order they are given.
-/

namespace SourcePress.Repair

/-- True of edits that replace parts of a text and start at different offsets. -/
structure AreEditsOf (t : Text) (edits : List Edit) : Prop where
  /-- No part starts before the text. -/
  nonneg : ∀ e ∈ edits, 0 ≤ e.start
  /-- No part stops before it starts. -/
  start_le_stop : ∀ e ∈ edits, e.start ≤ e.stop
  /-- No part stops behind the text. -/
  stop_le : ∀ e ∈ edits, e.stop ≤ t.length
  /-- No two parts start at one offset. -/
  distinct : (edits.map Edit.start).Nodup

/-- True of edits of which one starts inside the part of another, behind its start. -/
def Overlapping (edits : List Edit) : Prop :=
  ∃ a ∈ edits, ∃ b ∈ edits, a.start < b.start ∧ b.start < a.stop

/-- True of two edits of which the one that starts first stops before the other one starts. -/
def Edit.KeepsApart (a b : Edit) : Prop :=
  (a.start < b.start → a.stop ≤ b.start) ∧ (b.start < a.start → b.stop ≤ a.start)

instance : Std.Symm Edit.KeepsApart := ⟨fun _ _ h => h.symm⟩

/-- True of an offset that lies in the part of an edit. -/
def Edit.Covers (e : Edit) (i : Nat) : Prop := e.start ≤ i ∧ i < e.stop

instance (e : Edit) (i : Nat) : Decidable (e.Covers i) := inferInstanceAs (Decidable (_ ∧ _))

/-- What edits put in at an offset: the replacement of an edit that starts there. -/
def insertedAt (edits : List Edit) (i : Nat) : Text :=
  (edits.filter fun e => e.start = (i : Int)).flatMap Edit.replacement

/-- What edits make of the place at an offset: what they put in there, and the code point unless it
lies in the part of an edit. -/
def editedAt (t : Text) (edits : List Edit) (i : Nat) : Text :=
  insertedAt edits i ++ if ∃ e ∈ edits, e.Covers i then [] else t[i]?.toList

/-- What edits make of a text from an offset on, up to the place behind its last code point. -/
def editedFrom (t : Text) (edits : List Edit) (offset : Nat) : Text :=
  (List.range' offset (t.length + 1 - offset)).flatMap (editedAt t edits)

/-- What edits make of a text. -/
def edited (t : Text) (edits : List Edit) : Text := editedFrom t edits 0

/-- The code points that edits add to a text, less those that they take away. -/
def lengthAdded (edits : List Edit) : Int :=
  (edits.map fun e => (e.replacement.length : Int) - (e.stop - e.start)).sum

/-- True of edits that follow each other from an offset on: none starts before the one in front of
it has stopped. -/
def Follow (offset : Int) : List Edit → Prop
  | [] => True
  | e :: edits => offset ≤ e.start ∧ Follow e.stop edits

/-- Edits are spliced into a text exactly if they follow each other. -/
theorem exists_spliceFrom_iff (t : Text) (offset : Int) (edits : List Edit) :
    (∃ spliced, spliceFrom t offset edits = .ok spliced) ↔ Follow offset edits := by
  induction edits generalizing offset with
  | nil => simp [spliceFrom, Follow]
  | cons e edits ih =>
    rw [Follow, ← ih e.stop, spliceFrom]
    by_cases hstart : e.start < offset
    · rw [if_pos hstart]
      simp only [reduceCtorEq, exists_false, false_iff, not_and]
      omega
    · rw [if_neg hstart]
      cases spliceFrom t e.stop edits with
      | error => simp [Except.map]
      | ok rest => simpa [Except.map] using hstart

/-- Edits follow each other if each of them stops before all those behind it start. -/
theorem follow_iff {edits : List Edit} (hle : ∀ e ∈ edits, e.start ≤ e.stop) (offset : Int) :
    Follow offset edits ↔
      (∀ e ∈ edits, offset ≤ e.start) ∧ edits.Pairwise fun a b => a.stop ≤ b.start := by
  induction edits generalizing offset with
  | nil => simp [Follow]
  | cons e edits ih =>
    have hfirst : e.start ≤ e.stop := hle e List.mem_cons_self
    rw [Follow, ih (fun x hx => hle x (List.mem_cons_of_mem e hx)), List.forall_mem_cons,
      List.pairwise_cons]
    constructor
    · rintro ⟨hoffset, hbehind, hpairs⟩
      refine ⟨⟨hoffset, fun x hx => ?_⟩, hbehind, hpairs⟩
      have := hbehind x hx
      omega
    · rintro ⟨⟨hoffset, -⟩, hbehind, hpairs⟩
      exact ⟨hoffset, hbehind, hpairs⟩

/-- Edits in order start in order. -/
theorem pairwise_inOrder (edits : List Edit) :
    (inOrder edits).Pairwise fun a b => a.start ≤ b.start := by
  refine (List.pairwise_mergeSort (fun a b c hab hbc => ?_) (fun a b => ?_) edits).imp
    of_decide_eq_true
  · simp only [decide_eq_true_eq] at hab hbc ⊢
    omega
  · simp only [Bool.or_eq_true, decide_eq_true_eq]
    omega

namespace AreEditsOf

variable {t : Text} {edits edits' : List Edit}

/-- Edits of a text are edits of it in any order. -/
theorem perm (h : AreEditsOf t edits) (hperm : edits.Perm edits') : AreEditsOf t edits' where
  nonneg e he := h.nonneg e (hperm.mem_iff.mpr he)
  start_le_stop e he := h.start_le_stop e (hperm.mem_iff.mpr he)
  stop_le e he := h.stop_le e (hperm.mem_iff.mpr he)
  distinct := (hperm.map Edit.start).nodup_iff.mp h.distinct

/-- Edits of a text are edits of it in the order of their starts. -/
theorem inOrder (h : AreEditsOf t edits) : AreEditsOf t (inOrder edits) :=
  h.perm (List.mergeSort_perm edits _).symm

/-- The order of the starts does not hang on the order in which the edits are given. -/
theorem inOrder_eq (h : AreEditsOf t edits) (hperm : edits.Perm edits') :
    Repair.inOrder edits' = Repair.inOrder edits := by
  have hsorted : (Repair.inOrder edits').Perm (Repair.inOrder edits) :=
    ((List.mergeSort_perm edits' _).trans hperm.symm).trans (List.mergeSort_perm edits _).symm
  refine hsorted.eq_of_pairwise (fun a b ha hb hab hba => ?_) (pairwise_inOrder edits')
    (pairwise_inOrder edits)
  -- Sorting keeps edits with one start as they came, and here no two have one start.
  have hstart : a.start = b.start := by omega
  exact List.inj_on_of_nodup_map h.inOrder.distinct (hsorted.mem_iff.mp ha) hb hstart

/-- In their order the edits start one strictly before the next. -/
theorem pairwise_lt (h : AreEditsOf t edits) :
    (Repair.inOrder edits).Pairwise fun a b => a.start < b.start := by
  have hne : (Repair.inOrder edits).Pairwise fun a b => a.start ≠ b.start :=
    List.pairwise_map.mp h.inOrder.distinct
  exact ((pairwise_inOrder edits).and hne).imp fun hab => lt_of_le_of_ne hab.1 hab.2

/-- In their order the edits follow each other exactly if they do not overlap. -/
theorem follow_inOrder_iff (h : AreEditsOf t edits) :
    Follow 0 (Repair.inOrder edits) ↔ ¬Overlapping edits := by
  have hmem : ∀ e, e ∈ Repair.inOrder edits ↔ e ∈ edits := fun e =>
    (List.mergeSort_perm edits _).mem_iff
  rw [follow_iff h.inOrder.start_le_stop]
  constructor
  · rintro ⟨-, hpairs⟩ ⟨a, ha, b, hb, hstart, hstop⟩
    -- Only neighbours are compared, but the later of two edits is behind all those in between.
    have hboth : (Repair.inOrder edits).Pairwise Edit.KeepsApart :=
      (h.pairwise_lt.and hpairs).imp fun hab => ⟨fun _ => hab.2, fun _ => by omega⟩
    have hself : ∀ e ∈ Repair.inOrder edits, e.KeepsApart e := fun e _ =>
      ⟨fun hlt => absurd hlt (lt_irrefl _), fun hlt => absurd hlt (lt_irrefl _)⟩
    have hapart := hboth.forall_of_forall hself ((hmem a).mpr ha) ((hmem b).mpr hb)
    exact not_lt.mpr (hapart.1 hstart) hstop
  · intro hnot
    refine ⟨h.inOrder.nonneg, h.pairwise_lt.imp_of_mem fun {a b} ha hb hstart => ?_⟩
    by_contra hstop
    exact hnot ⟨a, (hmem a).mp ha, b, (hmem b).mp hb, hstart, by omega⟩

/-- What edits make of a text does not hang on the order in which they are given. -/
theorem edited_eq (h : AreEditsOf t edits) (hperm : edits.Perm edits') :
    edited t edits = edited t edits' := by
  refine List.flatMap_congr fun i _ => ?_
  have hinserted : insertedAt edits i = insertedAt edits' i := by
    have hnone : ∀ {es : List Edit}, (es.map Edit.start).Nodup →
        (es.filter fun e => e.start = (i : Int)).Pairwise fun _ _ => False := by
      intro es hdistinct
      refine ((List.pairwise_map.mp hdistinct).filter _).imp_of_mem fun {a b} ha hb hne => hne ?_
      rw [of_decide_eq_true (List.mem_filter.mp ha).2, of_decide_eq_true (List.mem_filter.mp hb).2]
    have hfilter := (hperm.filter fun e => e.start = (i : Int)).eq_of_pairwise
      (fun _ _ _ _ hfalse => hfalse.elim) (hnone h.distinct) (hnone (h.perm hperm).distinct)
    rw [insertedAt, insertedAt, hfilter]
  have hcover : (∃ e ∈ edits, e.Covers i) ↔ ∃ e ∈ edits', e.Covers i := by
    simp only [hperm.mem_iff]
  rw [editedAt, editedAt, hinserted]
  simp only [hcover]

end AreEditsOf

section Splicing

variable {t : Text} {e : Edit} {edits : List Edit} {i offset : Nat}

/-- From an offset on, edits make something of each place up to a later one, and then go on. -/
theorem editedFrom_split {stop : Nat} (hoffset : offset ≤ stop) (hstop : stop ≤ t.length + 1) :
    editedFrom t edits offset =
      (List.range' offset (stop - offset)).flatMap (editedAt t edits) ++
        editedFrom t edits stop := by
  have hrange : List.range' offset (t.length + 1 - offset) =
      List.range' offset (stop - offset) ++ List.range' stop (t.length + 1 - stop) := by
    obtain ⟨n, rfl⟩ := Nat.exists_eq_add_of_le hoffset
    rw [Nat.add_sub_cancel_left, List.range'_append_1]
    congr 1
    omega
  rw [editedFrom, hrange, List.flatMap_append, editedFrom]

/-- At an offset edits make something of its place, and then go on. -/
theorem editedFrom_succ (edits : List Edit) (h : offset ≤ t.length) :
    editedFrom t edits offset = editedAt t edits offset ++ editedFrom t edits (offset + 1) := by
  rw [editedFrom, Nat.succ_sub h, List.range'_succ, List.flatMap_cons, editedFrom,
    Nat.add_sub_add_right]

/-- The code points of a stretch of a text, one by one. -/
theorem flatMap_range'_getElem? (t : Text) (offset n : Nat) :
    (List.range' offset n).flatMap (fun i => t[i]?.toList) = (t.drop offset).take n := by
  induction n generalizing offset with
  | zero => simp
  | succ n ih =>
    rw [List.range'_succ, List.flatMap_cons, ih]
    by_cases hlt : offset < t.length
    · rw [List.drop_eq_getElem_cons hlt, List.take_succ_cons, List.getElem?_eq_getElem hlt]
      rfl
    · rw [List.getElem?_eq_none (by omega), List.drop_of_length_le (by omega),
        List.drop_of_length_le (by omega), List.take_nil, List.take_nil]
      rfl

/-- A slice between two offsets of a text. -/
theorem slice_eq_take {stop : Nat} (hstop : stop ≤ t.length) (hoffset : offset ≤ stop) :
    t.slice offset stop = (t.drop offset).take (stop - offset) := by
  have hbound : ∀ n : Nat, n ≤ t.length → t.bound n = n := by
    intro n hn
    rw [Text.bound, if_neg (by omega)]
    omega
  rw [Text.slice, hbound offset (by omega), hbound stop hstop]

/-- Where no edit starts nothing is put in. -/
theorem insertedAt_eq_nil (h : ∀ e ∈ edits, e.start ≠ i) : insertedAt edits i = [] := by
  rw [insertedAt, List.filter_eq_nil_iff.mpr fun e he => by simpa using h e he, List.flatMap_nil]

/-- Before the first edit starts the text is kept. -/
theorem editedFrom_of_before {start : Nat} (hstart : start ≤ t.length) (hoffset : offset ≤ start)
    (hbefore : ∀ e ∈ edits, (start : Int) ≤ e.start) :
    editedFrom t edits offset = t.slice offset start ++ editedFrom t edits start := by
  have hkept : ∀ i ∈ List.range' offset (start - offset), editedAt t edits i = t[i]?.toList := by
    intro i hi
    have hi' := List.mem_range'_1.mp hi
    have hbehind : ∀ e ∈ edits, (i : Int) < e.start := by
      intro e he
      have := hbefore e he
      omega
    have hcover : ¬∃ e ∈ edits, e.Covers i := by
      rintro ⟨e, he, hcovers⟩
      exact absurd (hbehind e he) (not_lt.mpr hcovers.1)
    rw [editedAt, insertedAt_eq_nil fun e he => (hbehind e he).ne', if_neg hcover, List.nil_append]
  have hlast : start ≤ t.length + 1 := by omega
  rw [editedFrom_split hoffset hlast, List.flatMap_congr hkept, flatMap_range'_getElem?,
    slice_eq_take hstart hoffset]

/-- An edit in front of those that start where it has stopped puts its replacement in where it
starts and takes its part away. -/
theorem editedAt_cons (hbehind : ∀ x ∈ edits, e.stop ≤ x.start) (i : Nat) :
    editedAt t (e :: edits) i =
      (if e.start = i then e.replacement else []) ++
        if e.Covers i then [] else editedAt t edits i := by
  have hfirst : insertedAt (e :: edits) i =
      (if e.start = i then e.replacement else []) ++ insertedAt edits i := by
    rw [insertedAt, List.filter_cons]
    by_cases hstart : e.start = i <;> simp [hstart, insertedAt]
  have hcover : (∃ x ∈ e :: edits, x.Covers i) ↔ e.Covers i ∨ ∃ x ∈ edits, x.Covers i :=
    List.exists_mem_cons_iff _ _ _
  rw [editedAt, hfirst, List.append_assoc]
  congr 1
  by_cases hcovers : e.Covers i
  · have hnone : ∀ x ∈ edits, x.start ≠ i := by
      intro x hx
      have := hbehind x hx
      have := hcovers.2
      omega
    rw [insertedAt_eq_nil hnone, if_pos (hcover.mpr (.inl hcovers)), if_pos hcovers,
      List.nil_append]
  · rw [if_neg hcovers, editedAt]
    simp only [hcover, hcovers, false_or]

/-- Behind the start of an edit its part is left out, and then those go on that follow. -/
theorem editedFrom_cons_behind (hbehind : ∀ x ∈ edits, e.stop ≤ x.start) {k stop : Nat}
    (hk : e.start < k) (hle : k ≤ stop) (hstop : e.stop ≤ stop) (hend : stop = k ∨ stop = e.stop)
    (hlast : stop ≤ t.length + 1) :
    editedFrom t (e :: edits) k = editedFrom t edits stop := by
  have hgone : ∀ i ∈ List.range' k (stop - k), editedAt t (e :: edits) i = [] := by
    intro i hi
    have hi' := List.mem_range'_1.mp hi
    have hcovers : e.Covers i := ⟨by omega, by omega⟩
    rw [editedAt_cons hbehind, if_neg (by omega), if_pos hcovers, List.nil_append]
  have hrest : ∀ i ∈ List.range' stop (t.length + 1 - stop),
      editedAt t (e :: edits) i = editedAt t edits i := by
    intro i hi
    have hi' := (List.mem_range'_1.mp hi).1
    have hcovers : ¬e.Covers i := fun hcovers => by
      have := hcovers.2
      omega
    rw [editedAt_cons hbehind, if_neg (by omega), if_neg hcovers, List.nil_append]
  rw [editedFrom_split hle hlast, List.flatMap_eq_nil_iff.mpr hgone, List.nil_append, editedFrom,
    List.flatMap_congr hrest, editedFrom]

/-- Where an edit starts stands its replacement, and behind its part the edits go on that
follow. -/
theorem editedFrom_cons_start {start stop : Nat} {replacement : Text} (hle : start ≤ stop)
    (hstop : stop ≤ t.length) (hbehind : ∀ x ∈ edits, (stop : Int) ≤ x.start) :
    editedFrom t (⟨start, stop, replacement⟩ :: edits) start =
      replacement ++ editedFrom t edits stop := by
  have hlength : start ≤ t.length := hle.trans hstop
  have hfirst := editedAt_cons (t := t) (e := ⟨start, stop, replacement⟩) hbehind start
  rw [if_pos rfl] at hfirst
  rw [editedFrom_succ _ hlength, hfirst, List.append_assoc]
  congr 1
  by_cases hlt : start < stop
  · have hcovers : (⟨start, stop, replacement⟩ : Edit).Covers start :=
      ⟨le_rfl, Int.ofNat_lt.mpr hlt⟩
    rw [if_pos hcovers, List.nil_append]
    exact editedFrom_cons_behind hbehind (by simp) hlt le_rfl (.inr rfl) (by omega)
  · obtain rfl : start = stop := by omega
    have hcovers : ¬(⟨start, start, replacement⟩ : Edit).Covers start := fun hcovers =>
      lt_irrefl _ hcovers.2
    have hnext := editedFrom_cons_behind (t := t) (e := ⟨start, start, replacement⟩) hbehind
      (k := start + 1) (by simp) le_rfl (by simp) (.inl rfl) (by omega)
    rw [if_neg hcovers, hnext, editedFrom_succ edits hlength]

/-- The parts of edits that lie in a text are given by two offsets of it. -/
theorem exists_offsets (hstart : (offset : Int) ≤ e.start) (hle : e.start ≤ e.stop) :
    ∃ (start stop : Nat) (replacement : Text), e = ⟨start, stop, replacement⟩ ∧ offset ≤ start ∧
      start ≤ stop := by
  obtain ⟨first, last, replacement⟩ := e
  dsimp only at hstart hle
  lift first to ℕ using by omega
  lift last to ℕ using by omega
  exact ⟨first, last, replacement, rfl, by omega, by omega⟩

/-- Edits that follow each other, in order, are spliced into a text as it is edited from an offset
on. -/
theorem spliceFrom_eq (hfollow : Follow offset edits)
    (hle : ∀ e ∈ edits, e.start ≤ e.stop) (hstop : ∀ e ∈ edits, e.stop ≤ t.length)
    (hstrict : edits.Pairwise fun a b => a.start < b.start) (hoffset : offset ≤ t.length) :
    spliceFrom t offset edits = .ok (editedFrom t edits offset) := by
  induction edits generalizing offset with
  | nil =>
    have hlast : editedFrom t [] t.length = [] := by
      simp [editedFrom, editedAt, insertedAt]
    rw [spliceFrom, editedFrom_of_before le_rfl hoffset (by simp), hlast, List.append_nil]
  | cons e edits ih =>
    have hbefore := ((follow_iff hle offset).mp hfollow).1
    have hpairs := List.pairwise_cons.mp ((follow_iff hle offset).mp hfollow).2
    obtain ⟨start, stop, replacement, rfl, hstart, hwithin⟩ :=
      exists_offsets (hbefore e List.mem_cons_self) (hle e List.mem_cons_self)
    have hlast : stop ≤ t.length := by
      have := hstop _ List.mem_cons_self
      dsimp only at this
      omega
    have hfirst := List.pairwise_cons.mp hstrict
    have hi := ih hfollow.2 (fun x hx => hle x (List.mem_cons_of_mem _ hx))
      (fun x hx => hstop x (List.mem_cons_of_mem _ hx)) hfirst.2 hlast
    have hsorted : ∀ x ∈ (⟨start, stop, replacement⟩ : Edit) :: edits,
        (start : Int) ≤ x.start :=
      List.forall_mem_cons.mpr ⟨le_rfl, fun x hx => (hfirst.1 x hx).le⟩
    have hkept := editedFrom_of_before (hwithin.trans hlast) hstart hsorted
    have hafter : ¬((start : Nat) : Int) < offset := by omega
    rw [spliceFrom, if_neg hafter, hi, hkept, editedFrom_cons_start hwithin hlast hpairs.1,
      ← List.append_assoc]
    rfl

/-- What is spliced has the length of the text behind the offset and what the edits add. -/
theorem length_spliceFrom {spliced : Text} (h : spliceFrom t offset edits = .ok spliced)
    (hle : ∀ e ∈ edits, e.start ≤ e.stop) (hstop : ∀ e ∈ edits, e.stop ≤ t.length)
    (hoffset : offset ≤ t.length) :
    (spliced.length : Int) = t.length - offset + lengthAdded edits := by
  induction edits generalizing offset spliced with
  | nil =>
    rw [spliceFrom] at h
    cases h
    rw [slice_eq_take le_rfl hoffset, List.length_take, List.length_drop, lengthAdded]
    simp only [List.map_nil, List.sum_nil]
    omega
  | cons e edits ih =>
    rw [spliceFrom] at h
    split at h
    · cases h
    · next hstart =>
      obtain ⟨start, stop, replacement, rfl, hfirst, hwithin⟩ :=
        exists_offsets (not_lt.mp hstart) (hle e List.mem_cons_self)
      have hlast := hstop _ List.mem_cons_self
      dsimp only at hlast
      dsimp only at h
      cases hrest : spliceFrom t stop edits with
      | error => rw [hrest] at h; cases h
      | ok rest =>
        have hi := ih hrest (fun x hx => hle x (List.mem_cons_of_mem _ hx))
          (fun x hx => hstop x (List.mem_cons_of_mem _ hx)) (by omega)
        have hlength : start ≤ t.length := by omega
        rw [hrest] at h
        cases h
        rw [slice_eq_take hlength hfirst, lengthAdded, List.map_cons, List.sum_cons, ← lengthAdded]
        simp only [List.length_append, List.length_take, List.length_drop]
        push_cast
        omega

end Splicing

/-- Edits of a text that start at different offsets are refused exactly if they overlap. Otherwise
each of them replaces its part, all other code points are kept once and in order, and the length
grows by what the edits add. In another order the same edits have the same outcome. -/
theorem applyEdits_inAnyOrder {t : Text} {edits : List Edit} (h : AreEditsOf t edits) :
    ((∃ overlap, applyEdits t edits = .error overlap) ↔ Overlapping edits) ∧
      (¬Overlapping edits → applyEdits t edits = .ok (edited t edits) ∧
        ((edited t edits).length : Int) = t.length + lengthAdded edits) ∧
      ∀ edits', edits.Perm edits' → applyEdits t edits' = applyEdits t edits := by
  have hfollow := h.follow_inOrder_iff
  refine ⟨?_, fun hnot => ?_, fun edits' hperm => ?_⟩
  · rw [← not_iff_not, ← hfollow, ← exists_spliceFrom_iff t, applyEdits]
    cases spliceFrom t 0 (inOrder edits) <;> simp
  · have hperm : (inOrder edits).Perm edits := List.mergeSort_perm edits _
    have hspliced : spliceFrom t (0 : Nat) (inOrder edits) = .ok (edited t (inOrder edits)) :=
      spliceFrom_eq (hfollow.mpr hnot) h.inOrder.start_le_stop h.inOrder.stop_le h.pairwise_lt
        (Nat.zero_le t.length)
    have hlength := length_spliceFrom hspliced h.inOrder.start_le_stop h.inOrder.stop_le
      (Nat.zero_le t.length)
    have hadded : lengthAdded (inOrder edits) = lengthAdded edits := (hperm.map _).sum_eq
    rw [h.inOrder.edited_eq hperm] at hspliced hlength
    rw [applyEdits, hlength, hadded]
    exact ⟨hspliced, by simp⟩
  · rw [applyEdits, applyEdits, h.inOrder_eq hperm]

/-- Edits of a text that touch each other: one replaces, one takes away, one puts in. -/
def touchingEdits : List Edit := [⟨4, 6, "XYZ"⟩, ⟨0, 2, ""⟩, ⟨2, 2, "-"⟩]

/-- Edits that touch each other do not overlap, and they may be given in the reverse order. -/
theorem applyEdits_touchingEdits :
    (AreEditsOf "abcdef" touchingEdits ∧ ¬Overlapping touchingEdits) ∧
      applyEdits "abcdef" touchingEdits = .ok "-cdXYZ" ∧
      applyEdits "abcdef" touchingEdits.reverse = .ok "-cdXYZ" := by
  have hedits : AreEditsOf "abcdef" touchingEdits :=
    ⟨by decide, by decide, by decide, by decide⟩
  have hapart : ¬Overlapping touchingEdits := by
    unfold Overlapping
    decide
  obtain ⟨-, happlied, hperm⟩ := applyEdits_inAnyOrder hedits
  have htext : edited "abcdef" touchingEdits = "-cdXYZ" := by decide
  have hgiven : applyEdits "abcdef" touchingEdits = .ok "-cdXYZ" := by
    rw [(happlied hapart).1, htext]
  exact ⟨⟨hedits, hapart⟩, hgiven,
    by rw [hperm _ (List.reverse_perm touchingEdits).symm, hgiven]⟩

end SourcePress.Repair
