import SourcePress.Proofs.Lexis.Reading
import SourcePress.Proofs.Script.Pairing

/-!
# What there is to say of unbalanced code

Of a code it is said which brackets and constructs lack their partners. First come the closing
brackets without a partner or with one of another kind, then the opening brackets without a partner,
then the string literal or block comment that the code leaves open. A single pass with a stack of
open brackets says this and nothing else.
-/

namespace SourcePress.Script

open Lexis

/-- What is said of a bracket or a construct of a code, the line and the column apart. -/
structure Complaint where
  /-- The bracket, or the mark that opens the construct. -/
  char : Text
  /-- Its offset. -/
  position : Int
  /-- The kind of imbalance. -/
  kind : ImbalanceKind
  /-- The bracket that was expected. -/
  expected : Option Text
  deriving DecidableEq, Repr

/-- What a record says, the line and the column apart. -/
def Imbalance.complaint (r : Imbalance) : Complaint := ⟨r.char, r.position, r.kind, r.expected⟩

/-- What is said of a closing bracket, given its partner. -/
def closerComplaint? (partner? : Option PlacedBracket) (b : PlacedBracket) : Option Complaint :=
  match partner? with
  | none => some ⟨[b.kind.closer], b.offset, .unexpected, none⟩
  | some partner =>
    if partner.kind = b.kind then none
    else some ⟨[b.kind.closer], b.offset, .mismatch, some [partner.kind.closer]⟩

/-- What is said of the closing brackets among brackets, given the pairs. -/
def closerComplaints (ps : List BracketPair) (bs : List PlacedBracket) : List Complaint :=
  (bs.filter fun b => !b.opens).filterMap fun b => closerComplaint? (partnerOf? ps b) b

/-- What is said of the opening brackets among brackets, given the pairs. -/
def openerComplaints (ps : List BracketPair) (bs : List PlacedBracket) : List Complaint :=
  (bs.filter (isFree ps)).map fun b => ⟨[b.kind.opener], b.offset, .unclosed, none⟩

/-- What is said of the string literal or block comment that a code leaves open, which is the last
segment of the code. -/
def endComplaints (code : Text) : List Complaint :=
  if isTerminated code then []
  else (segments code).getLast?.toList.map fun s =>
    ⟨openMark s.region, s.start, .unterminated, none⟩

/-- What is said of a code. -/
def complaints (code : Text) : List Complaint :=
  let bs := placedBrackets code
  let ps := pairs bs.reverse
  closerComplaints ps bs ++ openerComplaints ps bs ++ endComplaints code

/-- What is still to say behind brackets, which are given with the last one first: the closing
brackets before them are done with, the opening ones are not. -/
def restComplaints (before bs : List PlacedBracket) : List Complaint :=
  let ps := pairs (bs.reverse ++ before)
  closerComplaints ps bs ++ openerComplaints ps (before.reverse ++ bs)

/-- Nothing is said of an opening bracket before the end. -/
theorem restComplaints_cons_opener {b : PlacedBracket} (h : b.opens = true)
    (before bs : List PlacedBracket) :
    restComplaints before (b :: bs) = restComplaints (b :: before) bs := by
  have hcloser : ∀ ps, closerComplaints ps (b :: bs) = closerComplaints ps bs := by
    intro ps
    rw [closerComplaints, List.filter_cons_of_neg (by simp [h]), closerComplaints]
  rw [restComplaints, restComplaints, List.reverse_cons, List.reverse_cons, List.append_assoc,
    List.append_assoc, List.singleton_append, List.singleton_append, hcloser]

/-- Of a closing bracket it is said whether its partner is the last opening bracket without one. -/
theorem restComplaints_cons_closer {b : PlacedBracket} (h : b.opens = false)
    {before bs : List PlacedBracket} (hnodup : (bs.reverse ++ b :: before).Nodup) :
    restComplaints before (b :: bs) =
      (closerComplaint? (unpaired before).head? b).toList ++ restComplaints (b :: before) bs := by
  have hbefore : b ∉ before := (List.nodup_cons.mp hnodup.of_append_right).1
  have hlater : b ∉ bs.reverse := fun hmem =>
    List.disjoint_of_nodup_append hnodup hmem List.mem_cons_self
  have hpartner : partnerOf? (pairs (bs.reverse ++ b :: before)) b = (unpaired before).head? := by
    rw [partnerOf?_pairs_append hlater, partnerOf?_pairs_cons h hbefore]
  have hcloser : ∀ ps, closerComplaints ps (b :: bs) =
      (closerComplaint? (partnerOf? ps b) b).toList ++ closerComplaints ps bs := by
    intro ps
    rw [closerComplaints, List.filter_cons_of_pos (by simp [h]), List.filterMap_cons,
      closerComplaints]
    cases closerComplaint? (partnerOf? ps b) b <;> rfl
  rw [restComplaints, restComplaints, List.reverse_cons, List.reverse_cons, List.append_assoc,
    List.append_assoc, List.singleton_append, List.singleton_append, hcloser, hpartner,
    List.append_assoc]

/-- A stack of open brackets as the scan keeps it. -/
def stackOf (bs : List PlacedBracket) : List (Bracket × Nat) := bs.map fun b => (b.kind, b.offset)

/-- Behind brackets the stack holds those that have no partner yet, so what is left to say depends
on the brackets alone. -/
theorem complaints_imbalancesFrom (code : Text) {before : List PlacedBracket}
    {stack : List (Bracket × Nat)} (hstack : stack = stackOf (unpaired before))
    {offset : Nat} {ms : List Mark} (hnodup : ((bracketsFrom offset ms).reverse ++ before).Nodup) :
    (imbalancesFrom code stack offset ms).map Imbalance.complaint =
      restComplaints before (bracketsFrom offset ms) := by
  induction ms generalizing before stack offset with
  | nil =>
    simp [imbalancesFrom, bracketsFrom, restComplaints, closerComplaints, openerComplaints, hstack,
      stackOf, unpaired, Imbalance.complaint, Imbalance.locate, List.filter_reverse]
  | cons m ms ih =>
    rcases ofMark?_cases offset m with
      ⟨kind, hopened, hpoint, hmark⟩ | ⟨kind, hopened, hclosed, hpoint, hmark⟩ |
      ⟨hopened, hclosed, hmark⟩
    -- an opening bracket has no partner yet, so it is pushed
    · have hbrackets : bracketsFrom offset (m :: ms) =
          ⟨offset, kind, true⟩ :: bracketsFrom (offset + 1) ms := by
        rw [bracketsFrom, hmark, Option.toList_some, List.singleton_append]
      rw [hbrackets, List.reverse_cons, List.append_assoc, List.singleton_append] at hnodup
      have hbefore := (List.nodup_cons.mp hnodup.of_append_right).1
      have hpushed : (kind, offset) :: stack =
          stackOf (unpaired (⟨offset, kind, true⟩ :: before)) := by
        rw [unpaired_cons_opener rfl hbefore, stackOf, List.map_cons, hstack, stackOf]
      rw [hbrackets, restComplaints_cons_opener rfl, ← ih hpushed hnodup, imbalancesFrom, hopened]
    -- a closing one takes the last bracket without a partner, of whatever kind it is
    · have hbrackets : bracketsFrom offset (m :: ms) =
          ⟨offset, kind, false⟩ :: bracketsFrom (offset + 1) ms := by
        rw [bracketsFrom, hmark, Option.toList_some, List.singleton_append]
      rw [hbrackets, List.reverse_cons, List.append_assoc, List.singleton_append] at hnodup
      have hbefore := (List.nodup_cons.mp hnodup.of_append_right).2
      have hpopped : stack.tail = stackOf (unpaired (⟨offset, kind, false⟩ :: before)) := by
        rw [unpaired_cons_closer rfl hbefore, stackOf, List.map_tail, hstack, stackOf]
      rw [hbrackets, restComplaints_cons_closer rfl hnodup, ← ih hpopped hnodup, imbalancesFrom,
        hopened, hclosed, hstack]
      cases unpaired before with
      | nil => simp [stackOf, closerComplaint?, Imbalance.complaint, Imbalance.locate, hpoint]
      | cons partner others =>
        by_cases hkind : partner.kind = kind
        · simp [stackOf, closerComplaint?, hkind]
        · simp [stackOf, closerComplaint?, hkind, Imbalance.complaint, Imbalance.locate, hpoint]
    · have hbrackets : bracketsFrom offset (m :: ms) = bracketsFrom (offset + 1) ms := by
        rw [bracketsFrom, hmark, Option.toList_none, List.nil_append]
      rw [hbrackets] at hnodup ⊢
      rw [imbalancesFrom, hopened, hclosed]
      exact ih hstack hnodup

/-- A code that is not terminated ends with a segment that nothing closes, and the scan knows its
region and its start. -/
theorem exists_open_segment {code : Text} (h : isTerminated code = false) :
    ∃ front s, segments code = front ++ [s] ∧ s.span.IsUnclosed ∧ s.region ≠ .code ∧
      (finalMode code).region = s.region ∧ openStart? code = some s.start := by
  have hne : code ≠ [] := by
    rintro rfl
    cases h
  obtain ⟨front, s, hsegments, hlast⟩ := exists_last_segment hne
  obtain ⟨s', hs', hunclosed⟩ := (isTerminated_eq_false_iff code).mp h
  rw [hsegments, List.getLast?_concat] at hs'
  cases hs'
  rcases hlast with ⟨-, hregion, hcode, hstart⟩ | ⟨hend, -⟩
  · exact ⟨front, s, hsegments, hunclosed, hcode, hregion, hstart⟩
  · exact absurd (.inl hunclosed) hend

/-- What is said of the end of a code is the record of the construct that it leaves open. -/
theorem complaints_unterminated (code : Text) :
    (unterminated code).map Imbalance.complaint = endComplaints code := by
  rw [unterminated, endComplaints]
  split
  · rfl
  · next h =>
    obtain ⟨front, s, hsegments, -, -, hregion, hstart⟩ :=
      exists_open_segment (Bool.eq_false_of_not_eq_true h)
    rw [hstart, hsegments, hregion, List.getLast?_concat]
    rfl

/-- The records of a code say what there is to say of it. -/
theorem complaints_imbalances (code : Text) :
    (imbalances code).map Imbalance.complaint = complaints code := by
  have hnodup : (placedBrackets code).Nodup := (nodup_offset_bracketsFrom 0 (scan code)).of_map _
  have hnodup' : ((bracketsFrom 0 (scan code)).reverse ++ []).Nodup := by
    rwa [List.append_nil, List.nodup_reverse]
  have hbrackets : (imbalancesFrom code [] 0 (scan code)).map Imbalance.complaint =
      restComplaints [] (placedBrackets code) := complaints_imbalancesFrom code rfl hnodup'
  rw [restComplaints, List.append_nil, List.reverse_nil, List.nil_append] at hbrackets
  rw [imbalances, List.map_append, hbrackets, complaints_unterminated, complaints]

end SourcePress.Script
