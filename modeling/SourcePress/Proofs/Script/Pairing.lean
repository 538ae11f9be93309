import SourcePress.Script.Balance

/-!
# Partners of brackets

The live brackets of a code are paired by nesting depth alone: a closing bracket takes the last
opening one in front of it that has no partner yet, whatever the kinds. The opening brackets without
a partner, the last one first, are what a stack of open brackets holds: an opening bracket goes on
top of it, and a closing one takes the top away.
-/

namespace SourcePress.Script

open Lexis

/-- A live bracket of a code. -/
structure PlacedBracket where
  /-- Its offset. -/
  offset : Nat
  /-- Its kind. -/
  kind : Bracket
  /-- True of an opening bracket, false of a closing one. -/
  opens : Bool
  deriving DecidableEq, Repr

namespace PlacedBracket

/-- The code point of a bracket. -/
def point (b : PlacedBracket) : CodePoint := if b.opens then b.kind.opener else b.kind.closer

/-- The bracket that a mark at an offset is, if it is a live one. -/
def ofMark? (offset : Nat) (m : Mark) : Option PlacedBracket :=
  m.live?.bind fun c =>
    match Bracket.opened? c with
    | some kind => some ⟨offset, kind, true⟩
    | none => (Bracket.closed? c).map fun kind => ⟨offset, kind, false⟩

end PlacedBracket

/-- The brackets of marks that begin at an offset. -/
def bracketsFrom (offset : Nat) : List Mark → List PlacedBracket
  | [] => []
  | m :: ms => (PlacedBracket.ofMark? offset m).toList ++ bracketsFrom (offset + 1) ms

/-- The live brackets of a code in their order. -/
def placedBrackets (code : Text) : List PlacedBracket := bracketsFrom 0 (scan code)

/-- What a mark can be: an opening bracket, a closing one, or none. -/
theorem ofMark?_cases (offset : Nat) (m : Mark) :
    (∃ kind, m.live?.bind Bracket.opened? = some kind ∧ m.point = kind.opener ∧
      PlacedBracket.ofMark? offset m = some ⟨offset, kind, true⟩) ∨
    (∃ kind, m.live?.bind Bracket.opened? = none ∧ m.live?.bind Bracket.closed? = some kind ∧
      m.point = kind.closer ∧ PlacedBracket.ofMark? offset m = some ⟨offset, kind, false⟩) ∨
    m.live?.bind Bracket.opened? = none ∧ m.live?.bind Bracket.closed? = none ∧
      PlacedBracket.ofMark? offset m = none := by
  rw [PlacedBracket.ofMark?]
  cases hm : m.live? with
  | none => exact .inr (.inr ⟨rfl, rfl, rfl⟩)
  | some c =>
    have hpoint : m.point = c := by
      rw [Mark.live?] at hm
      split at hm
      · exact Option.some.inj hm
      · cases hm
    simp only [Option.bind_some]
    cases hopened : Bracket.opened? c with
    | some kind =>
      have hkind : kind.opener = c := by simpa using List.find?_some hopened
      exact .inl ⟨kind, rfl, hpoint.trans hkind.symm, rfl⟩
    | none =>
      cases hclosed : Bracket.closed? c with
      | some kind =>
        have hkind : kind.closer = c := by simpa using List.find?_some hclosed
        exact .inr (.inl ⟨kind, rfl, rfl, hpoint.trans hkind.symm, rfl⟩)
      | none => exact .inr (.inr ⟨rfl, rfl, rfl⟩)

/-- A bracket is a live mark at its offset. -/
theorem exists_of_mem_bracketsFrom {offset : Nat} {ms : List Mark} {b : PlacedBracket}
    (h : b ∈ bracketsFrom offset ms) :
    ∃ front m back, ms = front ++ m :: back ∧ b.offset = offset + front.length ∧
      m.isLive = true ∧ m.point = b.point := by
  induction ms generalizing offset with
  | nil => cases h
  | cons m ms ih =>
    rcases List.mem_append.mp h with hmark | hrest
    · have hmark := Option.mem_toList.mp hmark
      have hlive : m.isLive = true := by
        cases hm : m.isLive with
        | true => rfl
        | false => simp [PlacedBracket.ofMark?, Mark.live?, hm] at hmark
      rcases ofMark?_cases offset m with
        ⟨kind, -, hpoint, heq⟩ | ⟨kind, -, -, hpoint, heq⟩ | ⟨-, -, heq⟩
      · rw [heq] at hmark
        cases hmark
        exact ⟨[], m, ms, rfl, rfl, hlive, hpoint⟩
      · rw [heq] at hmark
        cases hmark
        exact ⟨[], m, ms, rfl, rfl, hlive, hpoint⟩
      · rw [heq] at hmark
        cases hmark
    · obtain ⟨front, m', back, rfl, hoffset, hlive, hpoint⟩ := ih hrest
      refine ⟨m :: front, m', back, rfl, ?_, hlive, hpoint⟩
      rw [hoffset, List.length_cons]
      omega

/-- No two brackets are at one offset. -/
theorem nodup_offset_bracketsFrom (offset : Nat) (ms : List Mark) :
    ((bracketsFrom offset ms).map PlacedBracket.offset).Nodup := by
  induction ms generalizing offset with
  | nil => exact List.nodup_nil
  | cons m ms ih =>
    have hrest := ih (offset + 1)
    have hbehind : offset ∉ (bracketsFrom (offset + 1) ms).map PlacedBracket.offset := by
      intro hmem
      obtain ⟨b, hb, heq⟩ := List.mem_map.mp hmem
      obtain ⟨front, -, -, -, hoffset, -⟩ := exists_of_mem_bracketsFrom hb
      omega
    rw [bracketsFrom, List.map_append]
    rcases ofMark?_cases offset m with
      ⟨kind, -, -, hmark⟩ | ⟨kind, -, -, -, hmark⟩ | ⟨-, -, hmark⟩
    · rw [hmark]
      exact List.nodup_cons.mpr ⟨hbehind, hrest⟩
    · rw [hmark]
      exact List.nodup_cons.mpr ⟨hbehind, hrest⟩
    · rw [hmark]
      exact hrest

/-- An opening bracket and the closing one that is its partner. -/
abbrev BracketPair := PlacedBracket × PlacedBracket

/-- True of an opening bracket that is in no pair. -/
def isFree (ps : List BracketPair) (b : PlacedBracket) : Bool :=
  b.opens && !ps.any fun p => p.1 = b

/-- The pairs of brackets, which are given with the last one first: a closing bracket takes the last
opening one before it that has no partner yet. -/
def pairs : List PlacedBracket → List BracketPair
  | [] => []
  | b :: before =>
    if b.opens then pairs before
    else match before.find? (isFree (pairs before)) with
      | none => pairs before
      | some partner => (partner, b) :: pairs before

/-- The partner that a closing bracket has in pairs. -/
def partnerOf? (ps : List BracketPair) (b : PlacedBracket) : Option PlacedBracket :=
  (ps.find? fun p => p.2 = b).map Prod.fst

/-- The opening brackets without a partner, the last one first. -/
def unpaired (before : List PlacedBracket) : List PlacedBracket :=
  before.filter (isFree (pairs before))

variable {b : PlacedBracket} {before : List PlacedBracket}

/-- An opening bracket is in no pair yet. -/
theorem pairs_cons_opener (h : b.opens = true) : pairs (b :: before) = pairs before := by
  rw [pairs, if_pos h]

/-- A closing bracket takes the last opening one that has no partner. -/
theorem pairs_cons_closer (h : b.opens = false) :
    pairs (b :: before) = ((unpaired before).head?.map (·, b)).toList ++ pairs before := by
  rw [pairs, h, if_neg Bool.false_ne_true, unpaired, List.head?_filter]
  cases before.find? (isFree (pairs before)) <;> rfl

/-- Only brackets that are there are in pairs. -/
theorem mem_of_mem_pairs {p : BracketPair} (h : p ∈ pairs before) :
    p.1 ∈ before ∧ p.2 ∈ before := by
  induction before with
  | nil => cases h
  | cons b before ih =>
    cases hb : b.opens with
    | true =>
      rw [pairs_cons_opener hb] at h
      exact ⟨List.mem_cons_of_mem b (ih h).1, List.mem_cons_of_mem b (ih h).2⟩
    | false =>
      rw [pairs_cons_closer hb] at h
      rcases List.mem_append.mp h with hnew | hold
      · obtain ⟨partner, hpartner, rfl⟩ := Option.map_eq_some_iff.mp (Option.mem_toList.mp hnew)
        have hmem : partner ∈ before := (List.mem_filter.mp (List.mem_of_head? hpartner)).1
        exact ⟨List.mem_cons_of_mem b hmem, List.mem_cons_self⟩
      · exact ⟨List.mem_cons_of_mem b (ih hold).1, List.mem_cons_of_mem b (ih hold).2⟩

/-- A bracket that is not there is free if it opens. -/
theorem isFree_of_not_mem (hopens : b.opens = true) (h : b ∉ before) :
    isFree (pairs before) b = true := by
  rw [isFree, hopens, Bool.true_and, Bool.not_eq_true', List.any_eq_false]
  intro p hp hfirst
  exact h (of_decide_eq_true hfirst ▸ (mem_of_mem_pairs hp).1)

/-- An opening bracket has no partner when it is met. -/
theorem unpaired_cons_opener (hopens : b.opens = true) (h : b ∉ before) :
    unpaired (b :: before) = b :: unpaired before := by
  rw [unpaired, pairs_cons_opener hopens, List.filter_cons_of_pos (isFree_of_not_mem hopens h),
    unpaired]

/-- A closing bracket takes the last of the brackets without a partner away. -/
theorem unpaired_cons_closer (hcloses : b.opens = false) (h : before.Nodup) :
    unpaired (b :: before) = (unpaired before).tail := by
  have hfilter : unpaired (b :: before) =
      before.filter (isFree (pairs (b :: before))) := by
    rw [unpaired, List.filter_cons_of_neg (by simp [isFree, hcloses])]
  rw [hfilter, pairs_cons_closer hcloses]
  cases hfree : unpaired before with
  | nil =>
    rw [List.head?_nil, Option.map_none, Option.toList_none, List.nil_append, List.tail_nil,
      ← hfree, unpaired]
  | cons partner others =>
    -- of the free brackets the partner alone is free no more
    have hpartner : partner ∉ others := by
      have hnodup : (unpaired before).Nodup := h.filter _
      rw [hfree] at hnodup
      exact (List.nodup_cons.mp hnodup).1
    have hsplit : isFree ((partner, b) :: pairs before) =
        fun c => decide (partner ≠ c) && isFree (pairs before) c := by
      funext c
      simp only [isFree, List.any_cons, Bool.not_or, decide_not]
      rw [Bool.and_left_comm]
    have hothers : others.filter (fun c => decide (partner ≠ c)) = others :=
      List.filter_eq_self.mpr fun c hc => decide_eq_true fun heq => hpartner (heq ▸ hc)
    rw [List.head?_cons, Option.map_some, Option.toList_some, List.singleton_append, hsplit,
      ← List.filter_filter, ← unpaired, hfree, List.filter_cons_of_neg (by simp), hothers,
      List.tail_cons]

/-- A closing bracket has the partner that it takes. -/
theorem partnerOf?_pairs_cons (hcloses : b.opens = false) (h : b ∉ before) :
    partnerOf? (pairs (b :: before)) b = (unpaired before).head? := by
  rw [pairs_cons_closer hcloses, partnerOf?]
  cases (unpaired before).head? with
  | some partner => simp
  | none =>
    have hnone : (pairs before).find? (fun p => p.2 = b) = none := by
      rw [List.find?_eq_none]
      intro p hp hsecond
      exact h (of_decide_eq_true hsecond ▸ (mem_of_mem_pairs hp).2)
    simpa using hnone

/-- A closing bracket keeps its partner. -/
theorem partnerOf?_pairs_append {later : List PlacedBracket} (h : b ∉ later) :
    partnerOf? (pairs (later ++ b :: before)) b = partnerOf? (pairs (b :: before)) b := by
  induction later with
  | nil => rfl
  | cons c later ih =>
    obtain ⟨hne, hlater⟩ := not_or.mp (mt List.mem_cons.mpr h)
    rw [List.cons_append, ← ih hlater]
    cases hc : c.opens with
    | true => rw [pairs_cons_opener hc]
    | false =>
      rw [pairs_cons_closer hc]
      cases (unpaired (later ++ b :: before)).head? with
      | none => rfl
      | some partner => simp [partnerOf?, Ne.symm hne]

end SourcePress.Script
