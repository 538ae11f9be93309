import SourcePress.Proofs.Repair.Mend
import SourcePress.Repair.BareValues

/-!
# Passes that make one pass

The rules of repair run one after the other, each on the text that the one before it has left. A
later rule asks for an opening bracket, a comma or a colon before a lexeme and for a colon behind
it, and an earlier one changes none of these where it matters: a dropped comma stands before a
closing bracket, and what gets quotation marks was neither. So the rules act as if all of them had
looked at the lexemes of the first text.
-/

namespace SourcePress.Repair

open Lexis

/-- True of the code points that a rule asks for before a lexeme. -/
def IsOpener (c : CodePoint) : Prop :=
  c = .scalar '{' ∨ c = .scalar '[' ∨ c = .scalar ',' ∨ c = .scalar ':'

/-- No key character is asked for before a lexeme. -/
theorem IsOpener.isKeyPoint_eq_false [Alphabet] {c : CodePoint} (h : IsOpener c) : isKeyPoint c = false := by
  rcases h with rfl | rfl | rfl | rfl <;> exact isKeyPoint_of_isAsciiMark (by decide)

/-- True of neighbours before a lexeme that no rule tells apart. -/
def AlikeBefore (b b' : Neighbour) : Prop :=
  ∀ blank, IsBlankClass blank → ∀ c, IsOpener c → (b blank = some c ↔ b' blank = some c)

/-- No rule tells neighbours apart from themselves. -/
theorem AlikeBefore.refl (b : Neighbour) : AlikeBefore b b := fun _ _ _ _ => Iff.rfl

/-- Neighbours that no rule tells apart may change places. -/
theorem AlikeBefore.symm {b b' : Neighbour} (h : AlikeBefore b b') : AlikeBefore b' b :=
  fun blank hblank c hc => (h blank hblank c hc).symm

/-- True of neighbours behind a lexeme that no later rule tells apart. -/
def AlikeAhead (a a' : Neighbour) : Prop :=
  ∀ blank, IsBlankClass blank → (a blank = some (.scalar ':') ↔ a' blank = some (.scalar ':'))

/-- What the remedies of a later rule have in common. -/
structure Remedies.Late (r : Remedies) : Prop where
  /-- Only the first rule drops commas. -/
  drops : ∀ b a, r.drops b a = false
  /-- Words are told by openers and colons. -/
  quotes : ∀ {b b' a a'}, AlikeBefore b b' → AlikeAhead a a' → r.quotes b a = r.quotes b' a'
  /-- Literals are told by openers and colons. -/
  requotes : ∀ {b b' a a'}, AlikeBefore b b' → AlikeAhead a a' →
    r.requotes b a = r.requotes b' a'

/-- The remedies of two rules together. -/
def Remedies.join (r s : Remedies) : Remedies where
  drops := fun b a => r.drops b a || s.drops b a
  quotes := fun b a => r.quotes b a || s.quotes b a
  requotes := fun b a => r.requotes b a || s.requotes b a

/-- Two rules together are sound if each of them is. -/
theorem Remedies.Sound.join {r s : Remedies} (hr : r.Sound) (hs : s.Sound) : (r.join s).Sound where
  drops h := (Bool.or_eq_true_iff.mp h).elim hr.drops hs.drops
  quotes h := (Bool.or_eq_true_iff.mp h).elim hr.quotes hs.quotes

variable [Alphabet]

/-- A closing bracket that spacing is passed over for is the front for all blanks. -/
theorem closes_frontOf? {blank : CodePoint → Bool} (hblank : IsBlankClass blank)
    {ls : List Lexeme} (hs : ∀ l ∈ ls, Shape l) (h : Closes (frontOf? CodePoint.isSpacing ls)) :
    Closes (frontOf? blank ls) := by
  induction ls with
  | nil => exact h
  | cons l ls ih =>
    obtain ⟨c, rest, hl, hc, -⟩ :=
      mendFrom_of_closes hs h ⟨fun _ _ => false, fun _ _ => false, fun _ _ => false⟩ noNeighbour
    obtain ⟨rfl, rfl⟩ := List.cons.inj hl
    by_cases hspacing : c.isSpacing
    · rw [frontOf?, Lexeme.isBlank_point, if_pos hspacing] at h
      rw [frontOf?, Lexeme.isBlank_point, if_pos (hblank.of_isSpacing hspacing)]
      exact ih (fun l hl => hs l (List.mem_cons_of_mem _ hl)) h
    · have hcloses : Closes (some c) := hc.resolve_left hspacing
      have hnot : c.isBlank = false := by
        rcases hcloses with hc | hc <;> cases hc <;> decide
      rw [frontOf?, Lexeme.isBlank_point, if_neg (by simp [hblank.eq_false hnot])]
      exact hcloses

/-- True of words and constructs. -/
def Solid (l : Lexeme) : Prop :=
  (∃ w : Text, (∀ c ∈ w, isKeyPoint c) ∧ l = w.map live) ∨
    ∃ (r : Region) (t : Text), r ≠ .code ∧ l = r.construct t

/-- A literal between quotation marks is solid. -/
theorem solid_doubleLiteral (content : Text) : Solid (doubleLiteral content) :=
  .inr ⟨_, _, by simp, rfl⟩

/-- No word and no construct is blank. -/
theorem Solid.isBlank_eq_false {l : Lexeme} (hl : Solid l) {blank : CodePoint → Bool}
    (hblank : IsBlankClass blank) : Lexeme.isBlank blank l = false := by
  rcases hl with ⟨w, hkey, rfl⟩ | ⟨r, t, hr, rfl⟩
  · exact Lexeme.isBlank_word hblank hkey
  · exact Lexeme.isBlank_construct blank hr t

/-- A word or a construct begins with no live code point but a key character. -/
theorem Solid.front?_ne {l : Lexeme} (hl : Solid l) {c : CodePoint} (hc : isKeyPoint c = false) :
    Lexeme.front? l ≠ some c := by
  rcases hl with ⟨w, hkey, rfl⟩ | ⟨r, t, hr, rfl⟩
  · rw [Lexeme.front?_word]
    exact fun h => ne_of_isKeyPoint_eq_false (hkey _ (List.mem_of_head? h)) hc rfl
  · rw [Lexeme.front?_construct hr]
    exact fun h => Option.some_ne_none c h.symm

/-- A word or a construct in front is no code point but a key character. -/
theorem Solid.frontOf?_ne {l : Lexeme} (hl : Solid l) {blank : CodePoint → Bool}
    (hblank : IsBlankClass blank) {c : CodePoint} (hc : isKeyPoint c = false)
    (rest : List Lexeme) : frontOf? blank (l :: rest) ≠ some c := by
  rw [frontOf?, hl.isBlank_eq_false hblank, if_neg Bool.false_ne_true]
  exact hl.front?_ne hc

/-- A word or a construct in front is no closing bracket. -/
theorem not_closes_cons {l : Lexeme} {rest : List Lexeme} (hl : Solid l) :
    ¬Closes (frontOf? CodePoint.isSpacing (l :: rest)) := by
  rintro (h | h)
  · exact hl.frontOf?_ne (.inl rfl) (isKeyPoint_of_isAsciiMark (by decide)) rest h
  · exact hl.frontOf?_ne (.inl rfl) (isKeyPoint_of_isAsciiMark (by decide)) rest h

/-- A lexeme is a point alone, or it is solid and one solid lexeme comes of it. -/
theorem Shape.point_or_solid {l : Lexeme} (h : Shape l) :
    (∃ c, isKeyPoint c = false ∧ l = [live c]) ∨
      Solid l ∧ ∀ (r : Remedies) (b a : Neighbour), ∃ l', Solid l' ∧ r.apply b a l = [l'] := by
  cases h with
  | point hkey => exact .inl ⟨_, hkey, rfl⟩
  | @word w hne hkey =>
    have hword : Solid (w.map live) := .inl ⟨w, hkey, rfl⟩
    refine .inr ⟨hword, fun r b a => ?_⟩
    rw [Remedies.apply_word hne hkey]
    split
    · exact ⟨_, solid_doubleLiteral w, rfl⟩
    · exact ⟨_, hword, rfl⟩
  | @construct region c t hregion =>
    have hconstruct : Solid (region.construct (c :: t)) := .inr ⟨_, _, hregion, rfl⟩
    refine .inr ⟨hconstruct, fun r b a => ?_⟩
    rw [Remedies.apply_construct hregion]
    split
    · exact ⟨_, solid_doubleLiteral _, rfl⟩
    · exact ⟨_, hconstruct, rfl⟩

/-- A colon in front stays in front, and none comes there. -/
theorem alikeAhead_mendFrom {r : Remedies} (hr : r.Sound) (before : Neighbour)
    {ls : List Lexeme} (hs : ∀ l ∈ ls, Shape l) :
    AlikeAhead (ahead (mendFrom r before ls)) (ahead ls) := by
  have hcolon : isKeyPoint (.scalar ':') = false := isKeyPoint_of_isAsciiMark (by decide)
  intro blank hblank
  induction ls generalizing before with
  | nil => rfl
  | cons l rest ih =>
    obtain ⟨hl, hrest⟩ := List.forall_mem_cons.mp hs
    rcases hl.point_or_solid with ⟨c, hkey, rfl⟩ | ⟨hsolid, happly⟩
    · have hi := ih (behind before [live c]) hrest
      rw [mendFrom, Remedies.apply_point hkey]
      split
      -- a comma that is dropped stands before a closing bracket, and neither is a colon
      · next hdrop =>
        have hcloses := closes_frontOf? hblank hrest (hr.drops hdrop.2)
        have hcomma : blank c = false := by
          rw [hdrop.1]
          exact hblank.eq_false (by decide)
        rw [List.nil_append, hi, ahead, ahead, frontOf?, Lexeme.isBlank_point, hcomma,
          if_neg Bool.false_ne_true, Lexeme.front?_point, hdrop.1]
        rcases hcloses with h | h
        · rw [h]
          simp
        · rw [h]
          simp
      · simp only [ahead] at hi ⊢
        rw [List.singleton_append, frontOf?, frontOf?, Lexeme.isBlank_point]
        split
        · exact hi
        · rfl
    · obtain ⟨l', hsolid', hl'⟩ := happly r before (ahead rest)
      rw [mendFrom, hl']
      exact iff_of_false (hsolid'.frontOf?_ne hblank hcolon _) (hsolid.frontOf?_ne hblank hcolon _)

omit [Alphabet] in
/-- Behind a point that is not passed over the neighbours are alike again. -/
theorem alikeBefore_point {b b' : Neighbour} {c : CodePoint} {rest : List Lexeme}
    (h : AlikeBefore b b' ∨ Closes (frontOf? CodePoint.isSpacing ([live c] :: rest))) :
    AlikeBefore (behind b [live c]) (behind b' [live c]) ∨
      Closes (frontOf? CodePoint.isSpacing rest) := by
  rcases h with h | h
  · refine .inl fun blank hblank d hd => ?_
    rw [behind, behind, Lexeme.isBlank_point]
    split
    · exact h blank hblank d hd
    · rfl
  · rw [frontOf?, Lexeme.isBlank_point] at h
    split at h
    · exact .inr h
    · refine .inl fun blank hblank d hd => ?_
      have hnot : c.isBlank = false := by
        rcases h with h | h <;> cases h <;> decide
      rw [behind, behind, Lexeme.isBlank_point, hblank.eq_false hnot]
      rfl

/-- No word and no construct ends in an opener. -/
theorem Solid.back?_ne {l : Lexeme} (hl : Solid l) {c : CodePoint} (hc : IsOpener c) :
    Lexeme.back? l ≠ some c := by
  rcases hl with ⟨w, hkey, rfl⟩ | ⟨r, t, hr, rfl⟩
  · intro h
    rw [Lexeme.back?_word] at h
    have hk := hkey c (List.mem_of_getLast? h)
    rw [hc.isKeyPoint_eq_false] at hk
    cases hk
  · rw [Lexeme.back?_construct hr]
    simp

/-- Behind words and constructs the neighbours are alike. -/
theorem alikeBefore_solid (b b' : Neighbour) {l l' : Lexeme} (hl : Solid l) (hl' : Solid l') :
    AlikeBefore (behind b l) (behind b' l') := by
  intro blank hblank c hc
  rw [behind, behind, hl.isBlank_eq_false hblank, hl'.isBlank_eq_false hblank]
  exact iff_of_false (hl.back?_ne hc) (hl'.back?_ne hc)

/-- What a rule makes of a solid lexeme and a late rule makes of that is what both together make of
the lexeme. -/
theorem Remedies.Late.apply_apply {r s : Remedies} (hs : s.Late) {b b' a a' : Neighbour}
    (hb : AlikeBefore b b') (ha : AlikeAhead a' a) {l : Lexeme} (hl : Shape l) (hsolid : Solid l) :
    ∃ l', Solid l' ∧ r.apply b a l = [l'] ∧ s.apply b' a' l' = (r.join s).apply b a l := by
  cases hl with
  | point hkey =>
    exact absurd (Lexeme.front?_point _) (hsolid.front?_ne hkey)
  | @word w hne hkey =>
    have hlater := hs.quotes hb.symm ha
    rw [Remedies.apply_word hne hkey, Remedies.apply_word hne hkey]
    by_cases hquote : r.quotes b a = true
    · rw [if_pos hquote, if_pos (by simp [join, hquote])]
      exact ⟨_, solid_doubleLiteral w, rfl, Remedies.apply_inert (by simp) (.inl rfl)⟩
    · refine ⟨_, hsolid, if_neg hquote, ?_⟩
      rw [Remedies.apply_word hne hkey, hlater]
      simp [join, hquote]
  | @construct region c t hregion =>
    have hlater := hs.requotes hb.symm ha
    rw [Remedies.apply_construct hregion, Remedies.apply_construct hregion]
    by_cases hsingle : Lexeme.isSingleQuoted (region.construct (c :: t)) ∧
        isClosed (region.construct (c :: t))
    · by_cases hquote : r.requotes b a = true
      · rw [if_pos ⟨hsingle, hquote⟩, if_pos ⟨hsingle, by simp [join, hquote]⟩]
        exact ⟨_, solid_doubleLiteral _, rfl, Remedies.apply_inert (by simp) (.inl rfl)⟩
      · refine ⟨_, hsolid, if_neg fun hq => hquote hq.2, ?_⟩
        rw [Remedies.apply_construct hregion, hlater]
        simp [join, hquote]
    · refine ⟨_, hsolid, if_neg fun hq => hsingle hq.1, ?_⟩
      rw [Remedies.apply_construct hregion, if_neg fun hq => hsingle hq.1,
        if_neg fun hq => hsingle hq.1]

/-- Mending what is mended is mending once with both remedies. -/
theorem mendFrom_mendFrom {r s : Remedies} (hr : r.Sound) (hs : s.Late) {b b' : Neighbour}
    {ls : List Lexeme} (hshape : ∀ l ∈ ls, Shape l)
    (h : AlikeBefore b b' ∨ Closes (frontOf? CodePoint.isSpacing ls)) :
    mendFrom s b' (mendFrom r b ls) = mendFrom (r.join s) b ls := by
  induction ls generalizing b b' with
  | nil => rfl
  | cons l rest ih =>
    obtain ⟨hl, hrest⟩ := List.forall_mem_cons.mp hshape
    rcases hl.point_or_solid with ⟨c, hkey, rfl⟩ | ⟨hsolid, -⟩
    · have hjoin : ∀ b a, (r.join s).drops b a = r.drops b a := by
        simp [Remedies.join, hs.drops]
      rw [mendFrom, mendFrom, Remedies.apply_point hkey, Remedies.apply_point hkey, hjoin]
      split
      -- behind a dropped comma the neighbours differ, but a closing bracket is next
      · next hdrop => exact ih hrest (.inr (hr.drops hdrop.2))
      · rw [List.singleton_append, List.singleton_append, mendFrom, Remedies.apply_point hkey,
          hs.drops, if_neg fun hd => Bool.false_ne_true hd.2, ih hrest (alikeBefore_point h)]
        rfl
    · have hb : AlikeBefore b b' := h.resolve_right (not_closes_cons hsolid)
      have hahead := alikeAhead_mendFrom hr (behind b l) hrest
      obtain ⟨l', hsolid', hfirst, hboth⟩ := hs.apply_apply (r := r) hb hahead hl hsolid
      rw [mendFrom, mendFrom, hfirst, List.singleton_append, mendFrom, hboth,
        ih hrest (.inl (alikeBefore_solid b b' hsolid hsolid'))]

/-- True of a word that is a bare value behind a neighbour. -/
def isBareWord (before : Option CodePoint) (l : Lexeme) : Bool :=
  before = some (.scalar ':') && (Lexeme.front? l).any isNameStart && !isLiteralWord (points l)

/-- The bare values among lexemes behind a neighbour. -/
def bareFrom (before : Neighbour) : List Lexeme → List Text
  | [] => []
  | l :: rest =>
    (if isBareWord (before CodePoint.isSpacing) l then [points l] else []) ++
      bareFrom (behind before l) rest

/-- No point alone is a bare value. -/
theorem isBareWord_point {c : CodePoint} (hkey : isKeyPoint c = false) (before : Option CodePoint) :
    isBareWord before [live c] = false := by
  have hname : isNameStart c = false := by
    simp only [isKeyPoint, Bool.or_eq_false_iff] at hkey
    simp [isNameStart, hkey]
  simp [isBareWord, hname]

/-- No construct is a bare value. -/
theorem isBareWord_construct {region : Region} (hr : region ≠ .code) (t : Text)
    (before : Option CodePoint) : isBareWord before (region.construct t) = false := by
  simp [isBareWord, Lexeme.front?_construct hr]

/-- Words are bare values behind a colon only, so alike neighbours have the same ones. -/
theorem isBareWord_eq {b b' : Neighbour} (h : AlikeBefore b b') (l : Lexeme) :
    isBareWord (b CodePoint.isSpacing) l = isBareWord (b' CodePoint.isSpacing) l := by
  have hcolon := h CodePoint.isSpacing (.inl rfl) (.scalar ':') (by simp [IsOpener])
  simp only [isBareWord]
  rw [decide_eq_decide.mpr hcolon]

/-- Mending a solid lexeme neither makes nor hides a bare value. -/
theorem isBareWord_apply {r : Remedies} (hr : r.Sound) {b b' a : Neighbour} (hb : AlikeBefore b b')
    {l : Lexeme} (hl : Shape l) (hsolid : Solid l) :
    ∃ l', Solid l' ∧ r.apply b a l = [l'] ∧
      (isBareWord (b' CodePoint.isSpacing) l' = true → l' = l) ∧
      isBareWord (b' CodePoint.isSpacing) l' = isBareWord (b CodePoint.isSpacing) l := by
  cases hl with
  | point hkey => exact absurd (Lexeme.front?_point _) (hsolid.front?_ne hkey)
  | @word w hne hkey =>
    rw [Remedies.apply_word hne hkey]
    split
    -- quotation marks are put behind a brace or a comma, and a bare value stands behind a colon
    · next hquote =>
      have hbare : isBareWord (b CodePoint.isSpacing) (w.map live) = false := by
        rcases hr.quotes hquote with hbrace | hcomma
        · simp [isBareWord, hbrace]
        · simp [isBareWord, hcomma]
      refine ⟨_, solid_doubleLiteral w, rfl, ?_, ?_⟩
      · rw [doubleLiteral, isBareWord_construct (by simp)]
        exact fun h => absurd h Bool.false_ne_true
      · rw [hbare, doubleLiteral, isBareWord_construct (by simp)]
    · exact ⟨_, hsolid, rfl, fun _ => rfl, (isBareWord_eq hb _).symm⟩
  | @construct region c t hregion =>
    rw [Remedies.apply_construct hregion, isBareWord_construct hregion]
    split
    · refine ⟨_, solid_doubleLiteral _, rfl, ?_, ?_⟩
      · rw [doubleLiteral, isBareWord_construct (by simp)]
        exact fun h => absurd h Bool.false_ne_true
      · rw [doubleLiteral, isBareWord_construct (by simp)]
    · exact ⟨_, hsolid, rfl, fun _ => rfl, isBareWord_construct hregion _ _⟩

/-- Mending neither makes nor hides a bare value. -/
theorem bareFrom_mendFrom {r : Remedies} (hr : r.Sound) {b b' : Neighbour} {ls : List Lexeme}
    (hshape : ∀ l ∈ ls, Shape l)
    (h : AlikeBefore b b' ∨ Closes (frontOf? CodePoint.isSpacing ls)) :
    bareFrom b' (mendFrom r b ls) = bareFrom b ls := by
  induction ls generalizing b b' with
  | nil => rfl
  | cons l rest ih =>
    obtain ⟨hl, hrest⟩ := List.forall_mem_cons.mp hshape
    rcases hl.point_or_solid with ⟨c, hkey, rfl⟩ | ⟨hsolid, -⟩
    · rw [mendFrom, Remedies.apply_point hkey, bareFrom, isBareWord_point hkey]
      split
      · next hdrop => exact ih hrest (.inr (hr.drops hdrop.2))
      · rw [List.singleton_append, bareFrom, isBareWord_point hkey]
        exact ih hrest (alikeBefore_point h)
    · have hb : AlikeBefore b b' := h.resolve_right (not_closes_cons hsolid)
      obtain ⟨l', hsolid', hl', hsame, hbare⟩ :=
        isBareWord_apply (a := ahead rest) hr hb hl hsolid
      rw [mendFrom, hl', List.singleton_append, bareFrom, bareFrom, ← hbare,
        ih hrest (.inl (alikeBefore_solid b b' hsolid hsolid'))]
      split
      · next hword => rw [hsame hword]
      · rfl

end SourcePress.Repair
