import SourcePress.Proofs.Script.CompactMarks
import SourcePress.Proofs.Script.Lines

/-!
# Laid out code made compact

Laying out code puts line breaks next to braces and semicolons, where compact code keeps no space,
and takes blanks away only where a line break stays. So compact code is the same before and after,
unless the code ends inside a string literal: the blanks at its end are the text of the literal,
and they are trimmed with the last line.
-/

namespace SourcePress.Script

open Lexis

/-- True of marks that compact code is made of alike, whatever stands before them. -/
def CompactAlike (ms ns : List Mark) : Prop :=
  ∀ previous gap, compactFrom previous gap ms = compactFrom previous gap ns

/-- What is left out leaves a gap. -/
theorem compactFrom_cons_dropped {m : Mark} (hm : isDropped m = true)
    (previous : Option CodePoint) (gap : Bool) (ms : List Mark) :
    compactFrom previous gap (m :: ms) = compactFrom previous true ms := by
  rw [compactFrom, if_pos hm]

/-- What is kept stands behind the space that stays. -/
theorem compactFrom_cons_kept {m : Mark} (hm : isDropped m = false)
    (previous : Option CodePoint) (gap : Bool) (ms : List Mark) :
    compactFrom previous gap (m :: ms) =
      gapBefore previous gap m ++ m.point :: compactFrom (some m.point) false ms := by
  rw [compactFrom, hm]
  rfl

/-- A gap that is there already grows. -/
theorem compactFrom_append_dropped {ms : List Mark} (hms : ∀ m ∈ ms, isDropped m = true)
    (previous : Option CodePoint) (ns : List Mark) :
    compactFrom previous true (ms ++ ns) = compactFrom previous true ns := by
  induction ms with
  | nil => rfl
  | cons m ms ih =>
    obtain ⟨hm, hms⟩ := List.forall_mem_cons.mp hms
    rw [List.cons_append, compactFrom_cons_dropped hm, ih hms]

/-- Before marks that are left out a gap makes no difference. -/
theorem compactFrom_of_head? {ms : List Mark} (hms : ∀ m ∈ ms.head?, isDropped m = true)
    (previous : Option CodePoint) (gap : Bool) :
    compactFrom previous gap ms = compactFrom previous true ms := by
  cases ms with
  | nil => rfl
  | cons m ms =>
    have hm := hms m rfl
    rw [compactFrom_cons_dropped hm, compactFrom_cons_dropped hm]

/-- Where no space can stay a gap makes no difference. -/
theorem compactFrom_of_gapBefore {previous : Option CodePoint}
    (h : ∀ m, gapBefore previous true m = []) (gap gap' : Bool) (ms : List Mark) :
    compactFrom previous gap ms = compactFrom previous gap' ms := by
  have hnone : ∀ gap m, gapBefore previous gap m = [] := by
    intro gap m
    cases gap with
    | false => exact gapBefore_false previous m
    | true => exact h m
  cases ms with
  | nil => rfl
  | cons m ms =>
    cases hm : isDropped m with
    | true => rw [compactFrom_cons_dropped hm, compactFrom_cons_dropped hm]
    | false => rw [compactFrom_cons_kept hm, compactFrom_cons_kept hm, hnone, hnone]

/-- A live blank is left out. -/
theorem isDropped_blank {c : CodePoint} (hc : c.isBlank = true) :
    isDropped (Region.code.mark c) = true := by
  simp [isDropped, Mark.isLive, Region.isLive, hc]

/-- No space stays before live punctuation that is no sign. -/
theorem needsSpace_before {c : CodePoint} (hc : isPunctuation c = true) (hplus : c ≠ .scalar '+')
    (hminus : c ≠ .scalar '-') (previous : CodePoint) :
    needsSpace previous (Region.code.mark c) = false := by
  simp [needsSpace, Region.mark, Mark.isLive, Region.isLive, hc, hplus, hminus]

namespace CompactAlike

variable {ms ns os : List Mark}

theorem trans (h : CompactAlike ms ns) (h' : CompactAlike ns os) : CompactAlike ms os :=
  fun previous gap => (h previous gap).trans (h' previous gap)

/-- The same marks may be put in front. -/
theorem append_left (h : CompactAlike ns os) (ms : List Mark) :
    CompactAlike (ms ++ ns) (ms ++ os) := by
  induction ms with
  | nil => exact h
  | cons m ms ih =>
    intro previous gap
    cases hm : isDropped m with
    | true =>
      rw [List.cons_append, List.cons_append, compactFrom_cons_dropped hm,
        compactFrom_cons_dropped hm, ih]
    | false =>
      rw [List.cons_append, List.cons_append, compactFrom_cons_kept hm,
        compactFrom_cons_kept hm, ih]

/-- What is left out may be put in front of marks that are left out. -/
theorem of_dropped (hms : ∀ m ∈ ms, isDropped m = true)
    (hns : ∀ m ∈ ns.head?, isDropped m = true) : CompactAlike (ms ++ ns) ns := by
  intro previous gap
  have hhead : ∀ m ∈ (ms ++ ns).head?, isDropped m = true := by
    cases ms with
    | nil => exact hns
    | cons m ms =>
      rintro n ⟨⟩
      exact hms m List.mem_cons_self
  rw [compactFrom_of_head? hhead, compactFrom_of_head? hns, compactFrom_append_dropped hms]

end CompactAlike

/-- The mark of a line break. -/
def lineFeed : Mark := Region.code.mark (.scalar '\n')

/-- Compact code has no line break. -/
theorem isDropped_lineFeed : isDropped lineFeed = true := isDropped_blank (by decide)

/-- The marks of pieces with a line break in front of each. -/
def brokenPieces (ps : List (List Mark)) : List Mark := ps.flatMap (lineFeed :: ·)

/-- The marks of pieces with a line break between each two. -/
def joinedPieces : List (List Mark) → List Mark
  | [] => []
  | p :: ps => p ++ brokenPieces ps

/-- A line break in front of all of them makes the difference between the two. -/
theorem brokenPieces_pieces (ms : List Mark) :
    brokenPieces (pieces ms) = lineFeed :: joinedPieces (pieces ms) := by
  obtain ⟨piece, ps, h⟩ := List.exists_cons_of_ne_nil (pieces_ne_nil ms)
  rw [h]
  rfl

/-- No space stays behind a brace or a semicolon. -/
theorem gapBefore_behind {p : CodePoint}
    (hp : p = .scalar '{' ∨ p = .scalar '}' ∨ p = .scalar ';') (m : Mark) :
    gapBefore (some p) true m = [] := by
  have hspace : needsSpace p m = false := by
    rcases hp with rfl | rfl | rfl <;>
      exact needsSpace_behind (by decide) (by decide) (by decide) m
  rw [gapBefore, hspace]
  rfl

/-- A mark in front of the first piece is in front of all marks. -/
theorem joinedPieces_consPiece (m : Mark) (ms : List Mark) :
    joinedPieces (consPiece m (pieces ms)) = m :: joinedPieces (pieces ms) := by
  obtain ⟨piece, ps, h⟩ := List.exists_cons_of_ne_nil (pieces_ne_nil ms)
  rw [h]
  rfl

/-- Behind a brace or a semicolon the pieces may begin a new line. -/
theorem compactAlike_behind {c : CodePoint}
    (hc : c = .scalar '{' ∨ c = .scalar '}' ∨ c = .scalar ';') {ms : List Mark}
    (h : CompactAlike (joinedPieces (pieces ms)) ms) :
    CompactAlike (Region.code.mark c :: brokenPieces (pieces ms)) (Region.code.mark c :: ms) := by
  intro previous gap
  have hkept : isDropped (Region.code.mark c) = false := by
    rcases hc with rfl | rfl | rfl <;> decide
  rw [compactFrom_cons_kept hkept, compactFrom_cons_kept hkept, brokenPieces_pieces,
    compactFrom_cons_dropped isDropped_lineFeed, h, Region.mark_point,
    compactFrom_of_gapBefore (gapBefore_behind hc) true false]

/-- Before a closing brace the pieces may begin a new line. -/
theorem compactAlike_closing (ms : List Mark) :
    CompactAlike (lineFeed :: Region.code.mark (.scalar '}') :: ms)
      (Region.code.mark (.scalar '}') :: ms) := by
  intro previous gap
  have hkept : isDropped (Region.code.mark (.scalar '}')) = false := by decide
  have hgap : ∀ gap, gapBefore previous gap (Region.code.mark (.scalar '}')) = [] := by
    intro gap
    cases previous with
    | none => rfl
    | some p =>
      rw [gapBefore, needsSpace_before (by decide) (by decide) (by decide), Bool.and_false]
      rfl
  rw [compactFrom_cons_dropped isDropped_lineFeed, compactFrom_cons_kept hkept,
    compactFrom_cons_kept hkept, hgap, hgap]

/-- Compact code can be made from the pieces of code, with a line break between each two. -/
theorem compactAlike_pieces (mode : Mode) (t : Text) :
    CompactAlike (joinedPieces (pieces (scanFrom mode t))) (scanFrom mode t) := by
  induction t generalizing mode with
  | nil => exact fun _ _ => rfl
  | cons c t ih =>
    rw [scanFrom, pieces]
    have hrest := ih (mode.after c t.head?)
    generalize scanFrom (mode.after c t.head?) t = ms at hrest ⊢
    have hnone : CompactAlike (joinedPieces (consPiece (mode.mark c t.head?) (pieces ms)))
        (mode.mark c t.head? :: ms) := by
      rw [joinedPieces_consPiece]
      exact hrest.append_left [_]
    cases hlive : (mode.mark c t.head?).isLive with
    | false =>
      have hcut : cutAt (mode.mark c t.head?) ms = .none := by
        rw [cutAt, hlive]
        rfl
      rw [hcut]
      exact hnone
    | true =>
      rw [mark_of_isLive hlive] at hnone ⊢
      rcases cutAt_live c ms with ⟨hcut, -⟩ | ⟨hcut, hc⟩ | ⟨hcut, rfl⟩ | ⟨hcut, hc⟩
      all_goals rw [hcut]; dsimp only
      · exact hnone
      · exact compactAlike_behind (hc.imp_right .inr) hrest
      · exact (compactAlike_closing _).trans (compactAlike_behind (.inr (.inl rfl)) hrest)
      · intro previous gap
        have hdropped : isDropped (Region.code.mark c) = true :=
          isDropped_blank (CodePoint.isBlank_of_isLineEnd hc)
        rw [joinedPieces, List.nil_append, brokenPieces_pieces,
          compactFrom_cons_dropped isDropped_lineFeed, compactFrom_cons_dropped hdropped, hrest]

/-- True of code that ends inside a string literal whose text ends in a blank. -/
def leavesBlankLiteral (code : Text) : Bool :=
  (finalMode code).region.isString && code.getLast?.any CodePoint.isBlank

/-- What leaves no string literal open leaves no blanks in one. -/
theorem leavesBlankLiteral_of_isTerminated {t : Text} (h : isTerminated t = true) :
    leavesBlankLiteral t = false := by
  rw [isTerminated, Mode.isTerminated] at h
  rw [leavesBlankLiteral]
  cases hr : (finalMode t).region with
  | string q =>
    rw [hr] at h
    cases h
  | _ => rfl

/-- The last part of a text leaves no blanks in a string literal if the text does not, and both
end alike. -/
theorem leavesBlankLiteral_of_append {s t : Text} (h : leavesBlankLiteral (s ++ t) = false)
    (hmode : finalMode (s ++ t) = finalMode t) : leavesBlankLiteral t = false := by
  cases t with
  | nil => rfl
  | cons c t =>
    rw [leavesBlankLiteral, hmode, List.getLast?_append_of_ne_nil _ (List.cons_ne_nil c t)] at h
    exact h

/-- Blanks are left out, unless they are the text of a string literal. -/
theorem isDropped_of_blanks {mode : Mode} {t : Text} (ht : ∀ c ∈ t, c.isBlank)
    (hmode : (modeAfter mode t).region.isString = false) :
    ∀ m ∈ scanFrom mode t, isDropped m = true := by
  induction t generalizing mode with
  | nil => simp [scanFrom]
  | cons c t ih =>
    have hc := ht c List.mem_cons_self
    have hrest := ih (fun d hd => ht d (List.mem_cons_of_mem c hd)) hmode
    rw [scanFrom, List.forall_mem_cons]
    refine ⟨?_, hrest⟩
    cases mode with
    | code e =>
      cases e with
      | true => exact isDropped_blank hc
      | false =>
        rw [(read_blank hc _).1]
        exact isDropped_blank hc
    | string q e =>
      rw [isString_modeAfter_blanks q e ht] at hmode
      cases hmode
    | lineComment =>
      cases hend : c.isLineEnd with
      | true =>
        rw [Mode.mark, hend]
        exact isDropped_blank hc
      | false => simp [isDropped, Mode.mark, hend, Mark.isComment, Region.isComment]
    | _ => simp [isDropped, Mode.mark, Mode.region, Mark.isComment, Region.isComment]

/-- What is trimmed away from a text is left out, unless it is blanks in a string literal. -/
theorem exists_scan_trim {t : Text} (h : leavesBlankLiteral t = false) :
    ∃ front back, scan t = front ++ (scan t.trim ++ back) ∧ (∀ m ∈ front, isDropped m = true) ∧
      ∀ m ∈ back, isDropped m = true := by
  obtain ⟨front, back, hsplit, hfront, hback⟩ := t.exists_trim
  obtain ⟨hscan, hmode⟩ := scan_between (t := t.trim) hfront hback
  rw [← hsplit] at hscan hmode
  refine ⟨front.map Region.code.mark, scanFrom (finalMode t.trim) back, hscan, ?_, ?_⟩
  · intro m hm
    obtain ⟨c, hc, rfl⟩ := List.mem_map.mp hm
    exact isDropped_blank (hfront c hc)
  · cases hnil : back.getLast? with
    | none =>
      rw [List.getLast?_eq_none_iff] at hnil
      simp [hnil, scanFrom]
    | some c =>
      refine isDropped_of_blanks hback ?_
      have hlast : t.getLast? = some c := by
        rw [hsplit, List.getLast?_append, hnil, Option.some_or]
      rw [leavesBlankLiteral, hlast, hmode, Option.any_some, hback c (List.mem_of_getLast? hnil),
        Bool.and_true] at h
      exact h

/-- A piece may be trimmed. -/
theorem compactFrom_scan_trim {t : Text} (h : leavesBlankLiteral t = false) {ms ns : List Mark}
    (hms : ∀ m ∈ ms.head?, isDropped m = true) (halike : CompactAlike ms ns)
    (previous : Option CodePoint) :
    compactFrom previous true (scan t ++ ms) = compactFrom previous true (scan t.trim ++ ns) := by
  obtain ⟨front, back, hscan, hfront, hback⟩ := exists_scan_trim h
  have hbehind : CompactAlike (back ++ ms) ns := (CompactAlike.of_dropped hback hms).trans halike
  rw [hscan, List.append_assoc, compactFrom_append_dropped hfront, List.append_assoc,
    hbehind.append_left]

/-- Pieces begin with what is left out, if a line break is put in front of each. -/
theorem isDropped_head?_brokenPieces (ps : List (List Mark)) :
    ∀ m ∈ (brokenPieces ps).head?, isDropped m = true := by
  cases ps with
  | nil => simp [brokenPieces]
  | cons p ps =>
    rintro m ⟨⟩
    exact isDropped_lineFeed

/-- What is in front of a line is left out. -/
theorem isDropped_lead (width : Int) (l : Line) :
    ∀ m ∈ (l.lead width).map Region.code.mark, isDropped m = true := by
  intro m hm
  obtain ⟨c, hc, rfl⟩ := List.mem_map.mp hm
  refine isDropped_blank ?_
  rcases List.mem_cons.mp hc with rfl | hc
  · decide
  · exact isBlank_of_mem_replicate hc

/-- Lines begin with what is left out. -/
theorem isDropped_head?_lines (width : Int) (lines : List Line) :
    ∀ m ∈ (lines.flatMap (Line.marks width)).head?, isDropped m = true := by
  cases lines with
  | nil => simp
  | cons l lines =>
    rintro m ⟨⟩
    exact isDropped_lineFeed

/-- In front of a line there is a gap. -/
theorem compactFrom_line (width : Int) (l : Line) (previous : Option CodePoint) (gap : Bool)
    (ms : List Mark) :
    compactFrom previous gap (l.marks width ++ ms) =
      compactFrom previous true (scan l.text ++ ms) := by
  have hhead : ∀ m ∈ (l.marks width ++ ms).head?, isDropped m = true := by
    rintro m ⟨⟩
    exact isDropped_lineFeed
  rw [compactFrom_of_head? hhead, Line.marks, List.append_assoc,
    compactFrom_append_dropped (isDropped_lead width l)]

/-- A piece behind a line break is a line, or nothing if it is blank. -/
theorem compactAlike_line {width : Int} {t : Text} {ps : List (List Mark)}
    (ht : leavesBlankLiteral t = false)
    (hps : ∀ depth,
      CompactAlike (brokenPieces ps) ((linesFrom depth ps).flatMap (Line.marks width)))
    (depth : Nat) :
    CompactAlike (brokenPieces (scan t :: ps))
      ((linesFrom depth (scan t :: ps)).flatMap (Line.marks width)) := by
  intro previous gap
  obtain ⟨depth', behind, hlines⟩ := exists_linesFrom depth (scan t) ps
  have hbroken : brokenPieces (scan t :: ps) = lineFeed :: (scan t ++ brokenPieces ps) := rfl
  rw [hlines, scan, points_scanFrom, ← scan, hbroken,
    compactFrom_cons_dropped isDropped_lineFeed,
    compactFrom_scan_trim ht (isDropped_head?_brokenPieces ps) (hps behind)]
  split
  · next hnil =>
    rw [hnil]
    exact (compactFrom_of_head? (isDropped_head?_lines width _) previous gap).symm
  · rw [List.flatMap_cons, compactFrom_line]

/-- Compact code can be made from the lines of a text in place of its pieces. -/
theorem compactAlike_lines (width : Int) {mode : Mode} {t : Text} {ps : List (List Mark)}
    (h : CutInto mode t ps) (hmode : mode = .start) (ht : leavesBlankLiteral t = false)
    (depth : Nat) :
    CompactAlike (brokenPieces ps) ((linesFrom depth ps).flatMap (Line.marks width)) := by
  induction h generalizing depth with
  | whole mode t =>
    subst hmode
    exact compactAlike_line ht (fun _ _ _ => rfl) depth
  | @part mode s e t ps closed inert goesOn rest ih =>
    subst hmode
    rw [← List.append_assoc] at ht goesOn
    exact compactAlike_line (leavesBlankLiteral_of_isTerminated closed)
      (ih rfl (leavesBlankLiteral_of_append ht goesOn)) depth

/-- Laid out code has the compact form of the code, and so it has its form without line ends,
unless the code ends inside a string literal whose text ends in a blank. -/
theorem compact_layOut (width : Int) {code : Text} (h : leavesBlankLiteral code = false) :
    compact (layOut width code) = compact code ∧ minify (layOut width code) = minify code := by
  have hlines := compactAlike_lines width (cutInto_pieces .start code) rfl h 0
  have hpieces := compactAlike_pieces .start code
  rw [← scan] at hlines hpieces
  -- nothing is kept in front of the first line, so no space stays there
  have hfirst : ∀ gap gap' ms, compactFrom none gap ms = compactFrom none gap' ms :=
    compactFrom_of_gapBefore fun _ => rfl
  have htail : compactFrom none false ((codeLines code).flatMap (Line.marks width)).tail =
      compactFrom none false ((codeLines code).flatMap (Line.marks width)) := by
    cases codeLines code with
    | nil => rfl
    | cons l lines =>
      rw [List.flatMap_cons]
      exact hfirst _ _ _
  have hcompact : compact (layOut width code) = compact code := calc
    compact (layOut width code)
      = compactFrom none false ((codeLines code).flatMap (Line.marks width)) := by
        rw [compact, scan_layOut, htail]
    _ = compactFrom none false (brokenPieces (pieces (scan code))) := (hlines none false).symm
    _ = compactFrom none true (joinedPieces (pieces (scan code))) := by
        rw [brokenPieces_pieces, compactFrom_cons_dropped isDropped_lineFeed]
    _ = compactFrom none true (scan code) := hpieces none true
    _ = compact code := hfirst true false (scan code)
  exact ⟨hcompact, by rw [minify, minify, hcompact]⟩

/-- Code with a gap between two signs, constructs over several lines and a string literal that is
left open. -/
def openLiteralSample : Text :=
  "f()\x7ba =\t'x \n y' ;b + +c // d\n /e /* g\n */ h\x7d\n\\' 'z"

/-- The open literal of the sample does not end in a blank, so laying the sample out changes
neither form. -/
theorem compact_layOut_sample :
    leavesBlankLiteral openLiteralSample = false ∧
      compact (layOut 3 openLiteralSample) = compact openLiteralSample ∧
      minify (layOut 3 openLiteralSample) = minify openLiteralSample :=
  ⟨by decide, compact_layOut 3 (by decide)⟩

example : compact (layOut 2 "a = 'b ") = "a='b" ∧ compact "a = 'b " = "a='b " := by decide

end SourcePress.Script
