import SourcePress.Proofs.Repair.Splice
import SourcePress.Proofs.Script.Complaints

/-!
# The diagnosis of unbalanced code

Code is refused with a record for each bracket and construct that lacks its partner, and with no
others. Each record is at the place of its bracket or construct, with the number of its line and the
column in it, and no two records are at one place.
-/

namespace SourcePress.Script

open Lexis

/-- True of a record that stands in a code where it says. What is before it ends with a line of
which it says the number and, by its column, the start. -/
def Imbalance.IsPlaced (r : Imbalance) (code : Text) : Prop :=
  ∃ lead line rest : Text, code = lead ++ line ++ (r.char ++ rest) ∧ r.char ≠ [] ∧
    r.position = (lead ++ line).length ∧
    r.line = 1 + (lead ++ line).count (.scalar '\n') ∧
    (lead = [] ∨ lead.getLast? = some (.scalar '\n')) ∧ .scalar '\n' ∉ line ∧
    r.position = lead.length + r.column - 1

/-- What the records of a code must be. -/
structure IsDiagnosis (code : Text) (records : List Imbalance) : Prop where
  /-- They say what there is to say of the code, in its order, and there is something. -/
  complaints : records.map Imbalance.complaint = complaints code ∧ records ≠ []
  /-- No two of them are at one offset. -/
  nodup : (records.map Imbalance.position).Nodup
  /-- Each of them is where it says. -/
  placed : ∀ r ∈ records, r.IsPlaced code

/-- True of a record with the line and the column of its offset. -/
def Imbalance.IsLocated (r : Imbalance) (code : Text) : Prop :=
  r.line = code.lineNumber r.position ∧ r.column = code.columnNumber r.position

/-- The records of brackets have the lines and the columns of their offsets. -/
theorem isLocated_imbalancesFrom (code : Text) (stack : List (Bracket × Nat)) (offset : Nat)
    (ms : List Mark) : ∀ r ∈ imbalancesFrom code stack offset ms, r.IsLocated code := by
  induction ms generalizing stack offset with
  | nil =>
    intro r hr
    obtain ⟨b, -, rfl⟩ := List.mem_map.mp hr
    exact ⟨rfl, rfl⟩
  | cons m ms ih =>
    rw [imbalancesFrom]
    split
    · exact ih _ _
    · exact ih _ _
    · cases stack with
      | nil => exact List.forall_mem_cons.mpr ⟨⟨rfl, rfl⟩, ih _ _⟩
      | cons top stack =>
        dsimp only
        split
        · exact ih _ _
        · exact List.forall_mem_cons.mpr ⟨⟨rfl, rfl⟩, ih _ _⟩

/-- The records of a code have the lines and the columns of their offsets. -/
theorem isLocated_imbalances (code : Text) : ∀ r ∈ imbalances code, r.IsLocated code := by
  intro r hr
  rcases List.mem_append.mp hr with hbracket | hend
  · exact isLocated_imbalancesFrom code [] 0 (scan code) r hbracket
  · rw [unterminated] at hend
    split at hend
    · cases hend
    · split at hend
      · cases hend
      · rw [List.mem_singleton.mp hend]
        exact ⟨rfl, rfl⟩

/-- True of a complaint about what stands at its offset. -/
def Complaint.Stands (c : Complaint) (code : Text) : Prop :=
  ∃ before rest, code = before ++ (c.char ++ rest) ∧ c.char ≠ [] ∧ c.position = before.length

/-- The end of a text is a line that begins behind a line break or at the start. -/
theorem exists_lastLine (t : Text) :
    ∃ lead line, t = lead ++ line ∧ (lead = [] ∨ lead.getLast? = some (.scalar '\n')) ∧
      .scalar '\n' ∉ line ∧
      lead.length = t.length - (t.reverse.takeWhile (· ≠ .scalar '\n')).length := by
  have hsplit := List.takeWhile_append_dropWhile (p := (· ≠ .scalar '\n')) (l := t.reverse)
  have hhead := List.head?_dropWhile_not (· ≠ .scalar '\n') t.reverse
  have hline : ∀ c ∈ t.reverse.takeWhile (· ≠ .scalar '\n'), c ≠ .scalar '\n' :=
    fun c hc => by simpa using List.mem_takeWhile_imp hc
  generalize t.reverse.takeWhile (· ≠ .scalar '\n') = line at hsplit hline ⊢
  generalize t.reverse.dropWhile (· ≠ .scalar '\n') = lead at hsplit hhead
  have ht : t = lead.reverse ++ line.reverse := by
    rw [← List.reverse_append, hsplit, List.reverse_reverse]
  refine ⟨lead.reverse, line.reverse, ht, ?_, ?_, ?_⟩
  · cases lead with
    | nil => exact .inl rfl
    | cons c lead =>
      right
      simpa using hhead
  · intro hmem
    exact hline _ (List.mem_reverse.mp hmem) rfl
  · rw [ht, List.length_append, List.length_reverse, List.length_reverse, Nat.add_sub_cancel]

/-- A record at the offset of what stands there is placed. -/
theorem Imbalance.IsLocated.isPlaced {code : Text} {r : Imbalance} (h : r.IsLocated code)
    (hstands : r.complaint.Stands code) : r.IsPlaced code := by
  obtain ⟨before, rest, hcode, hne, hposition⟩ := hstands
  obtain ⟨lead, line, hbefore, hlead, hline, hlength⟩ := exists_lastLine before
  have hslice : code.slice 0 r.position = before := by
    have hmiddle := Repair.slice_middle [] before (r.char ++ rest)
    rw [List.nil_append, List.length_nil, Nat.zero_add, ← hposition] at hmiddle
    rw [hcode]
    exact hmiddle
  obtain ⟨hnumber, hcolumn⟩ := h
  rw [Text.lineNumber, hslice] at hnumber
  rw [Text.columnNumber, Text.lineStart, hslice, ← hlength] at hcolumn
  refine ⟨lead, line, rest, ?_, hne, ?_, ?_, hlead, hline, ?_⟩
  · rw [← hbefore]
    exact hcode
  · rw [← hbefore]
    exact hposition
  · rw [← hbefore, hnumber, Nat.cast_add, Nat.cast_one, Int.add_comm]
  · rw [hcolumn]
    omega

/-- What is said of a closing bracket is said at its offset. -/
theorem closerComplaint?_eq_some {partner? : Option PlacedBracket} {b : PlacedBracket}
    {c : Complaint} (h : closerComplaint? partner? b = some c) :
    c.char = [b.kind.closer] ∧ c.position = b.offset := by
  unfold closerComplaint? at h
  split at h
  · cases h
    exact ⟨rfl, rfl⟩
  · split at h
    · cases h
    · cases h
      exact ⟨rfl, rfl⟩

/-- Every complaint about the brackets of a code is about one of them. -/
theorem exists_bracket_of_mem {ps : List BracketPair} {bs : List PlacedBracket} {c : Complaint}
    (h : c ∈ closerComplaints ps bs ++ openerComplaints ps bs) :
    ∃ b ∈ bs, c.char = [b.point] ∧ c.position = b.offset := by
  rcases List.mem_append.mp h with hcloser | hopener
  · obtain ⟨b, hb, hc⟩ := List.mem_filterMap.mp hcloser
    obtain ⟨hmem, hcloses⟩ := List.mem_filter.mp hb
    obtain ⟨hchar, hposition⟩ := closerComplaint?_eq_some hc
    refine ⟨b, hmem, ?_, hposition⟩
    rw [hchar, PlacedBracket.point, if_neg (by simpa using hcloses)]
  · obtain ⟨b, hb, rfl⟩ := List.mem_map.mp hopener
    obtain ⟨hmem, hfree⟩ := List.mem_filter.mp hb
    refine ⟨b, hmem, ?_, rfl⟩
    rw [PlacedBracket.point, if_pos (Bool.and_eq_true_iff.mp hfree).1]

/-- The complaint about the end of a code is about the segment that nothing closes. -/
theorem exists_segment_of_mem {code : Text} {c : Complaint} (h : c ∈ endComplaints code) :
    ∃ front s, segments code = front ++ [s] ∧ s.region ≠ .code ∧ c.position = s.start ∧
      c.char ≠ [] ∧ c.char <+: s.text := by
  rw [endComplaints] at h
  split at h
  · cases h
  · next hterminated =>
    obtain ⟨front, s, hsegments, hunclosed, hcode, -, -⟩ :=
      exists_open_segment (Bool.eq_false_of_not_eq_true hterminated)
    rw [hsegments, List.getLast?_concat] at h
    rw [List.mem_singleton.mp h]
    refine ⟨front, s, hsegments, hcode, rfl, ?_⟩
    obtain ⟨region, text, start⟩ := s
    cases region with
    | code => exact hunclosed.elim
    | lineComment => exact hunclosed.elim
    | string q =>
      obtain ⟨content, htext, -⟩ := hunclosed
      exact ⟨List.cons_ne_nil _ _, content, htext.symm⟩
    | blockComment =>
      obtain ⟨body, htext, -⟩ := hunclosed
      exact ⟨List.cons_ne_nil _ _, body, htext.symm⟩

/-- Every complaint is about what stands at its offset. -/
theorem stands_of_mem_complaints {code : Text} {c : Complaint} (h : c ∈ complaints code) :
    c.Stands code := by
  rcases List.mem_append.mp h with hbracket | hend
  · obtain ⟨b, hb, hchar, hposition⟩ := exists_bracket_of_mem hbracket
    obtain ⟨front, m, back, hscan, hoffset, -, hpoint⟩ := exists_of_mem_bracketsFrom hb
    refine ⟨points front, points back, ?_, by simp [hchar], ?_⟩
    · rw [hchar, ← hpoint, ← points_scanFrom .start code, ← scan, hscan, points_append,
        points_cons, List.singleton_append]
    · rw [hposition, hoffset, Nat.zero_add, points, List.length_map]
  · obtain ⟨front, s, hsegments, -, hposition, hne, rest, htext⟩ := exists_segment_of_mem hend
    refine ⟨front.flatMap Segment.text, rest, ?_, hne, ?_⟩
    · rw [htext, ← flatMap_text_segments code, hsegments, List.flatMap_append,
        List.flatMap_singleton]
    · rw [hposition, start_segmentsAt hsegments, Nat.zero_add]

/-- A span has a mark for each code point. -/
theorem length_marks (s : Span) : s.marks.length = s.text.length := by
  have hpoints : points s.marks = s.text := by
    rw [Span.marks]
    split
    · exact points_map_mark _ _
    · exact Region.points_construct _ _
  rw [← hpoints, points, List.length_map]

/-- No live bracket is where a construct begins. -/
theorem offset_ne_start {code : Text} {front : List Segment} {s : Segment} {b : PlacedBracket}
    (hsegments : segments code = front ++ [s]) (hs : s.region ≠ .code)
    (hb : b ∈ placedBrackets code) : b.offset ≠ s.start := by
  intro heq
  obtain ⟨before, m, back, hscan, hoffset, hlive, -⟩ := exists_of_mem_bracketsFrom hb
  have hmarks : scan code = (front.map Segment.span).flatMap Span.marks ++ s.span.marks := by
    rw [← flatMap_marks_spans, spans, hsegments, List.map_append, List.flatMap_append,
      List.map_singleton, List.flatMap_singleton]
  have hlength : ((front.map Segment.span).flatMap Span.marks).length = before.length := by
    rw [start_segmentsAt hsegments, hoffset, Nat.zero_add, Nat.zero_add] at heq
    rw [heq, List.flatMap_map, List.length_flatMap, List.length_flatMap]
    simp only [length_marks, Segment.span]
  have hlast : s.span.marks = m :: back := List.append_inj_right (hmarks.symm.trans hscan) hlength
  have hm : m ∈ s.region.construct s.text := by
    have hconstruct : s.span.marks = s.region.construct s.text := if_neg hs
    rw [← hconstruct, hlast]
    exact List.mem_cons_self
  rw [Mark.isLive, region_of_mem_construct hm, isLive_eq_false hs] at hlive
  cases hlive

/-- The complaints about closing brackets are at their offsets, in their order. -/
theorem position_closerComplaints_sublist (ps : List BracketPair) (bs : List PlacedBracket) :
    ((closerComplaints ps bs).map Complaint.position).Sublist
      ((bs.filter fun b => !b.opens).map fun b => (b.offset : Int)) := by
  rw [closerComplaints]
  induction bs.filter fun b => !b.opens with
  | nil => exact .slnil
  | cons b bs ih =>
    rw [List.filterMap_cons, List.map_cons]
    split
    · exact ih.cons _
    · next c hc =>
      rw [List.map_cons, (closerComplaint?_eq_some hc).2]
      exact ih.cons_cons _

/-- The complaints about opening brackets are at their offsets, in their order. -/
theorem position_openerComplaints_sublist (ps : List BracketPair) (bs : List PlacedBracket) :
    ((openerComplaints ps bs).map Complaint.position).Sublist
      ((bs.filter fun b => b.opens).map fun b => (b.offset : Int)) := by
  have hfree : bs.filter (isFree ps) = (bs.filter fun b => b.opens).filter (isFree ps) := by
    rw [List.filter_filter]
    refine List.filter_congr fun b _ => ?_
    rw [isFree, Bool.and_comm, Bool.and_assoc, Bool.and_self]
  rw [openerComplaints, hfree, List.map_map]
  exact List.filter_sublist.map _

/-- No two complaints about brackets are about one offset. -/
theorem nodup_position_brackets {bs : List PlacedBracket}
    (h : (bs.map PlacedBracket.offset).Nodup) (ps : List BracketPair) :
    ((closerComplaints ps bs ++ openerComplaints ps bs).map Complaint.position).Nodup := by
  have hparts : (bs.filter (fun b => b.opens) ++ bs.filter fun b => !b.opens).Perm bs :=
    List.filter_append_perm _ bs
  have hcast : (bs.map fun b => (b.offset : Int)) = (bs.map PlacedBracket.offset).map Nat.cast :=
    (List.map_map ..).symm
  have hoffsets : ((bs.filter (fun b => !b.opens) ++ bs.filter fun b => b.opens).map
      fun b => (b.offset : Int)).Nodup := by
    rw [((List.perm_append_comm.trans hparts).map _).nodup_iff, hcast]
    exact h.map Nat.cast_injective
  rw [List.map_append] at hoffsets ⊢
  exact hoffsets.sublist
    ((position_closerComplaints_sublist ps bs).append (position_openerComplaints_sublist ps bs))

/-- No two complaints are about one offset. -/
theorem nodup_position_complaints (code : Text) :
    ((complaints code).map Complaint.position).Nodup := by
  have hbrackets := nodup_position_brackets (nodup_offset_bracketsFrom 0 (scan code))
    (pairs (placedBrackets code).reverse)
  have hend : ((endComplaints code).map Complaint.position).Nodup := by
    rw [endComplaints]
    split
    · exact List.nodup_nil
    · cases (segments code).getLast? with
      | none => exact List.nodup_nil
      | some s => exact List.nodup_singleton _
  rw [complaints, List.map_append]
  refine List.Nodup.append hbrackets hend ?_
  intro p hp hp'
  obtain ⟨c, hc, rfl⟩ := List.mem_map.mp hp
  obtain ⟨c', hc', heq⟩ := List.mem_map.mp hp'
  obtain ⟨b, hb, -, hposition⟩ := exists_bracket_of_mem hc
  obtain ⟨front, s, hsegments, hs, hstart, -⟩ := exists_segment_of_mem hc'
  rw [hposition, hstart] at heq
  exact offset_ne_start hsegments hs hb (Nat.cast_injective heq.symm)

/-- Refused code is refused with its diagnosis. -/
theorem validate_diagnosis {code : Text} {f : Failure} (h : validate code = .error f) :
    ∃ records, f = .problem (.unbalanced records) ∧ IsDiagnosis code records := by
  have hcomplaints := complaints_imbalances code
  have hpositions : (imbalances code).map Imbalance.position =
      (complaints code).map Complaint.position := by
    rw [← hcomplaints, List.map_map]
    rfl
  rw [validate] at h
  split at h
  · cases h
  · next hne =>
    cases h
    refine ⟨imbalances code, rfl, ⟨hcomplaints, hne⟩, ?_, fun r hr => ?_⟩
    · rw [hpositions]
      exact nodup_position_complaints code
    · refine (isLocated_imbalances code r hr).isPlaced (stands_of_mem_complaints ?_)
      rw [← hcomplaints]
      exact List.mem_map_of_mem hr

/-- A code with an imbalance of each kind. -/
def unbalancedSample : Text := "(]\n) \x7b 'a"

/-- The sample is refused with its diagnosis. -/
theorem validate_diagnosis_sample :
    validate unbalancedSample = .error (.problem (.unbalanced (imbalances unbalancedSample))) ∧
      ∃ records, Failure.problem (.unbalanced (imbalances unbalancedSample)) =
        .problem (.unbalanced records) ∧ IsDiagnosis unbalancedSample records :=
  ⟨rfl, validate_diagnosis rfl⟩

example : complaints unbalancedSample =
    [⟨"]", 1, .mismatch, some [')']⟩, ⟨")", 3, .unexpected, none⟩, ⟨"\x7b", 5, .unclosed, none⟩,
      ⟨"'", 7, .unterminated, none⟩] := by
  decide

end SourcePress.Script
