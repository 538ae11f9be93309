import SourcePress.Proofs.Script.Relayout

/-!
# How laid out code looks

Laid out code is looked at line by line, where it is cut at the live new lines of its own scan.
Each line is indented by the braces that the lines before it leave open, a live brace has its place
on its line, and a live semicolon goes on only over a blank. All of this is told from the output
alone: the depth of a line is counted on the marks in front of it, not taken from the code.
-/

namespace SourcePress.Script

open Lexis

/-- True of a live mark of a code point. -/
def isLivePoint (c : CodePoint) (m : Mark) : Bool := m.isLive && m.point = c

/-- The brace depth behind a mark. What closes nothing leaves the depth at zero. -/
def depthBehind (depth : Nat) (m : Mark) : Nat :=
  if isLivePoint (.scalar '{') m then depth + 1
  else if isLivePoint (.scalar '}') m then depth - 1
  else depth

/-- The lines of a text, cut at its live new lines. -/
def liveLines (t : Text) : List (List Mark) := (scan t).splitOnP (isLivePoint (.scalar '\n'))

/-- What holds of a line of laid out code behind a brace depth. -/
structure IsIndentedLine (width depth : Nat) (line : List Mark) : Prop where
  /-- The line begins with as many spaces as the depth asks for, or one level less if a brace is
  closed on it, and goes on with what is not blank. -/
  indented : ∃ m rest, m.point.isBlank = false ∧
    line = indentation
      (width * if line.any (isLivePoint (.scalar '}')) then depth - 1 else depth) ++ m :: rest
  /-- The line does not end in a blank. -/
  trimmed : ∀ m ∈ line.getLast?, m.point.isBlank = false
  /-- A live opening brace ends the line. -/
  opener : ∀ front m back, line = front ++ m :: back → isLivePoint (.scalar '{') m → back = []
  /-- A live closing brace stands behind spaces and ends the line. -/
  closer : ∀ front m back, line = front ++ m :: back → isLivePoint (.scalar '}') m →
    (∀ n ∈ front, n.point = .scalar ' ') ∧ back = []
  /-- A live semicolon ends the line or has a blank behind it. -/
  semicolon : ∀ front m back, line = front ++ m :: back → isLivePoint (.scalar ';') m →
    ∀ n ∈ back.head?, n.point.isBlank
  /-- No end of a line is live. -/
  unbroken : ∀ m ∈ line, m.isLive → m.point.isLineEnd = false

/-- True of lines behind a brace depth each of which is indented by the braces that those before it
leave open. -/
def AreIndented (width depth : Nat) (lines : List (List Mark)) : Prop :=
  ∀ before line after, lines = before ++ line :: after →
    IsIndentedLine width (before.flatten.foldl depthBehind depth) line

namespace AreIndented

variable {width depth : Nat} {line : List Mark} {lines : List (List Mark)}

/-- A line goes in front of lines that are indented behind it. -/
theorem cons (hline : IsIndentedLine width depth line)
    (hlines : AreIndented width (line.foldl depthBehind depth) lines) :
    AreIndented width depth (line :: lines) := by
  rintro (_ | ⟨first, before⟩) line' after hsplit
  · cases hsplit
    exact hline
  · cases hsplit
    rw [List.flatten_cons, List.foldl_append]
    exact hlines before line' after rfl

/-- Each of the lines is indented for some depth. -/
theorem exists_depth (h : AreIndented width depth lines) (hmem : line ∈ lines) :
    ∃ depth, IsIndentedLine width depth line := by
  obtain ⟨before, after, hsplit⟩ := List.append_of_mem hmem
  exact ⟨_, h before line after hsplit⟩

end AreIndented

/-- No space is a live mark of anything else. -/
theorem isLivePoint_indentation {c : CodePoint} (hc : c ≠ .scalar ' ') {n : Nat} :
    ∀ m ∈ indentation n, isLivePoint c m = false := by
  intro m hm
  obtain ⟨d, hd, rfl⟩ := List.mem_map.mp hm
  rw [List.eq_of_mem_replicate hd]
  simp [isLivePoint, hc.symm]

/-- Spaces do not change the depth. -/
theorem foldl_depthBehind_indentation (n depth : Nat) :
    (indentation n).foldl depthBehind depth = depth := by
  induction n with
  | zero => rfl
  | succ n ih => exact ih

/-- What is cut at a live mark. -/
theorem cutAt_of_isLivePoint {c : CodePoint} {m : Mark} (h : isLivePoint c m = true)
    (rest : List Mark) : cutAt m rest = cutAt (Region.code.mark c) rest := by
  obtain ⟨hlive, hpoint⟩ := Bool.and_eq_true_iff.mp h
  rw [cutAt, cutAt, hlive, of_decide_eq_true hpoint]
  rfl

namespace IsUncut

variable {ms front back : List Mark} {m : Mark}

/-- A live opening brace is at the end of marks that are not cut. -/
theorem opener (h : IsUncut (front ++ m :: back)) (hm : isLivePoint (.scalar '{') m = true) :
    back = [] := by
  have hcut : cutAt m back = .after := cutAt_of_isLivePoint hm back
  rcases h.cutAt_eq with hnone | ⟨-, hnil⟩
  · rw [hcut] at hnone
    cases hnone
  · exact hnil

/-- Marks that are not cut are cut around none of them and at none. -/
theorem cutAt_ne (h : IsUncut (front ++ m :: back)) :
    cutAt m back ≠ .around ∧ cutAt m back ≠ .instead := by
  rcases h.cutAt_eq with hnone | ⟨hafter, -⟩
  · rw [hnone]
    exact ⟨Cut.noConfusion, Cut.noConfusion⟩
  · rw [hafter]
    exact ⟨Cut.noConfusion, Cut.noConfusion⟩

/-- Marks that are not cut have no live closing brace. -/
theorem not_closer (h : IsUncut ms) : ∀ m ∈ ms, isLivePoint (.scalar '}') m = false := by
  intro m hm
  obtain ⟨front, back, rfl⟩ := List.append_of_mem hm
  refine Bool.eq_false_of_not_eq_true fun hbrace => ?_
  have hcut : cutAt m back = .around := cutAt_of_isLivePoint hbrace back
  exact h.cutAt_ne.1 hcut

/-- A live semicolon in marks that are not cut has a blank or nothing behind it. -/
theorem semicolon (h : IsUncut (front ++ m :: back)) (hm : isLivePoint (.scalar ';') m = true) :
    ∀ n ∈ back.head?, n.point.isBlank := by
  intro n hn
  have hcut := cutAt_of_isLivePoint hm back
  rcases h.cutAt_eq with hnone | ⟨-, rfl⟩
  · cases hblank : n.point.isBlank with
    | true => rfl
    | false =>
      have hafter : cutAt (Region.code.mark (.scalar ';')) back = .after := by
        rw [cutAt, Option.mem_def.mp hn]
        simp [Region.mark, Mark.isLive, Region.isLive, hblank]
      rw [hcut, hafter] at hnone
      cases hnone
  · cases hn

/-- Marks that are not cut have no live end of a line. -/
theorem unbroken (h : IsUncut ms) : ∀ m ∈ ms, m.isLive → m.point.isLineEnd = false := by
  intro m hm hlive
  obtain ⟨front, back, rfl⟩ := List.append_of_mem hm
  refine Bool.eq_false_of_not_eq_true fun hend => ?_
  have hcut : cutAt m back = .instead := by
    have hne : ∀ d : CodePoint, d.isBlank = false → m.point ≠ d :=
      fun _ => CodePoint.ne_of_isBlank (CodePoint.isBlank_of_isLineEnd hend)
    simp [cutAt, hlive, hend, hne (.scalar '{') (by decide), hne (.scalar '}') (by decide),
      hne (.scalar ';') (by decide)]
  exact h.cutAt_ne.2 hcut

/-- Marks that are not cut change the depth by the opening brace at their end, if there is one. -/
theorem foldl_depthBehind (h : IsUncut ms) (depth : Nat) :
    ms.foldl depthBehind depth = if opensLevel ms then depth + 1 else depth := by
  induction ms generalizing depth with
  | nil => rfl
  | cons m ms ih =>
    have hcloser : isLivePoint (.scalar '}') m = false := h.not_closer m List.mem_cons_self
    rw [List.foldl_cons, depthBehind, hcloser]
    cases hopener : isLivePoint (.scalar '{') m with
    | true =>
      have hfront : IsUncut ([] ++ m :: ms) := h
      obtain rfl : ms = [] := hfront.opener hopener
      have hopens : opensLevel [m] = true := hopener
      simp [hopens]
    | false =>
      rw [if_neg Bool.false_ne_true, if_neg Bool.false_ne_true, ih h.2]
      cases ms with
      | nil =>
        have hopens : opensLevel [m] = false := hopener
        rw [hopens]
        rfl
      | cons n ms =>
        rw [← opensLevel_append (List.cons_ne_nil n ms) [m]]
        rfl

/-- Marks that are not cut make an indented line if they are trimmed. -/
theorem isIndentedLine (h : IsUncut ms) (hne : ms ≠ [])
    (hhead : ∀ m ∈ ms.head?, m.point.isBlank = false)
    (hlast : ∀ m ∈ ms.getLast?, m.point.isBlank = false) (width depth : Nat) :
    IsIndentedLine width depth (indentation (width * depth) ++ ms) := by
  have hline : IsUncut (indentation (width * depth) ++ ms) := h.indentation_append _
  have hclosers : (indentation (width * depth) ++ ms).any (isLivePoint (.scalar '}')) = false :=
    List.any_eq_false.mpr fun m hm => by simp [hline.not_closer m hm]
  constructor
  case indented =>
    obtain ⟨m, rest, rfl⟩ := List.exists_cons_of_ne_nil hne
    refine ⟨m, rest, hhead m rfl, ?_⟩
    rw [hclosers, if_neg Bool.false_ne_true]
  case trimmed =>
    rw [List.getLast?_append_of_ne_nil _ hne]
    exact hlast
  case opener =>
    intro front m back hsplit hm
    rw [hsplit] at hline
    exact hline.opener hm
  case closer =>
    intro front m back hsplit hm
    rw [hline.not_closer m (hsplit ▸ by simp)] at hm
    cases hm
  case semicolon =>
    intro front m back hsplit hm
    rw [hsplit] at hline
    exact hline.semicolon hm
  case unbroken => exact hline.unbroken

end IsUncut

/-- A closing brace behind the spaces of its level makes an indented line. -/
theorem isIndentedLine_closing (width depth : Nat) :
    IsIndentedLine width depth
      (indentation (width * (depth - 1)) ++ [Region.code.mark (.scalar '}')]) := by
  have hbrace : ∀ c : CodePoint, c ≠ .scalar ' ' → c ≠ .scalar '}' →
      ∀ m ∈ indentation (width * (depth - 1)) ++ [Region.code.mark (.scalar '}')],
        isLivePoint c m = false := by
    intro c hspace hclosing m hm
    rcases List.mem_append.mp hm with hm | hm
    · exact isLivePoint_indentation hspace m hm
    · rw [List.mem_singleton.mp hm]
      simp [isLivePoint, hclosing.symm]
  constructor
  case indented =>
    refine ⟨Region.code.mark (.scalar '}'), [], by decide, ?_⟩
    have hany : (indentation (width * (depth - 1)) ++ [Region.code.mark (.scalar '}')]).any
        (isLivePoint (.scalar '}')) = true := by
      rw [List.any_append]
      simp [isLivePoint, Region.mark, Mark.isLive, Region.isLive]
    rw [hany, if_pos rfl]
  case trimmed =>
    rw [List.getLast?_concat]
    rintro m ⟨⟩
    decide
  case opener =>
    intro front m back hsplit hm
    rw [hbrace _ (by decide) (by decide) m (hsplit ▸ by simp)] at hm
    cases hm
  case closer =>
    intro front m back hsplit hm
    rcases List.eq_nil_or_concat' back with rfl | ⟨back, n, rfl⟩
    · obtain ⟨rfl, -⟩ := List.append_inj' hsplit rfl
      refine ⟨fun n hn => ?_, rfl⟩
      obtain ⟨c, hc, rfl⟩ := List.mem_map.mp hn
      exact List.eq_of_mem_replicate hc
    · -- a brace further in front would be one of the spaces
      rw [← List.cons_append, ← List.append_assoc] at hsplit
      obtain ⟨hspaces, -⟩ := List.append_inj' hsplit rfl
      have hmem : m ∈ indentation (width * (depth - 1)) := by
        rw [hspaces]
        simp
      rw [isLivePoint_indentation (by decide) m hmem] at hm
      cases hm
  case semicolon =>
    intro front m back hsplit hm
    rw [hbrace _ (by decide) (by decide) m (hsplit ▸ by simp)] at hm
    cases hm
  case unbroken =>
    intro m hm _
    rcases List.mem_append.mp hm with hm | hm
    · obtain ⟨c, hc, rfl⟩ := List.mem_map.mp hm
      rw [List.eq_of_mem_replicate hc]
      decide
    · rw [List.mem_singleton.mp hm]
      decide

/-- The marks of a line of code behind its new line. -/
def Line.body (width : Nat) (l : Line) : List Mark :=
  indentation (width * l.depth) ++ scan l.text

/-- The marks of a line are a live new line and what is behind it. -/
theorem Line.marks_eq (width : Nat) (l : Line) :
    l.marks width = Region.code.mark (.scalar '\n') :: l.body width := by
  have hspaces : (l.depth * (width : Int)).toNat = width * l.depth := by
    rw [Nat.mul_comm]
    rfl
  rw [Line.marks, Line.lead, hspaces]
  rfl

/-- The depth behind a line is that behind its text. -/
theorem Line.foldl_body (width depth : Nat) (l : Line) :
    (l.body width).foldl depthBehind depth = (scan l.text).foldl depthBehind depth := by
  rw [Line.body, List.foldl_append, foldl_depthBehind_indentation]

/-- The scan of a trimmed text does not begin with a blank. -/
theorem isBlank_head?_scan_trim (s : Text) :
    ∀ m ∈ (scan s.trim).head?, m.point.isBlank = false := by
  have hpoints : (scan s.trim).map Mark.point = s.trim := points_scanFrom .start s.trim
  intro m hm
  refine s.head?_trim m.point ?_
  rw [← hpoints, List.head?_map, Option.mem_def.mp hm]
  rfl

/-- The scan of a trimmed text does not end in a blank. -/
theorem isBlank_getLast?_scan_trim (s : Text) :
    ∀ m ∈ (scan s.trim).getLast?, m.point.isBlank = false := by
  have hpoints : (scan s.trim).map Mark.point = s.trim := points_scanFrom .start s.trim
  intro m hm
  refine s.getLast?_trim m.point ?_
  rw [← hpoints, List.getLast?_map, Option.mem_def.mp hm]
  rfl

/-- The line of a piece is indented, and the lines behind it go on from the depth behind it. -/
theorem areIndented_lineOf {width depth : Nat} {s : Text} (h : IsPiece (scan s))
    {rest : List (List Mark)}
    (hrest : AreIndented width (depthBehindPiece depth (scan s)) rest) :
    AreIndented width depth ((lineOf depth (scan s)).map (Line.body width) ++ rest) := by
  rcases h with hclosing | huncut
  · obtain rfl := eq_brace_of_isClosing hclosing
    refine .cons (isIndentedLine_closing width depth) ?_
    rw [Line.foldl_body]
    exact hrest
  · rw [depthBehindPiece, huncut.isClosing_eq_false, if_neg Bool.false_ne_true] at hrest
    rw [lineOf, linesFrom, huncut.isClosing_eq_false, if_neg Bool.false_ne_true, scan,
      points_scanFrom, ← scan]
    dsimp only
    split
    · next hnil =>
      have hopens : opensLevel (scan s) = false :=
        opensLevel_of_blank (isBlank_of_mem_scanFrom (Text.isBlank_of_trim_eq_nil hnil) .start)
      rw [hopens] at hrest
      exact hrest
    · next hne =>
      obtain ⟨htrimmed, hopens⟩ := huncut.trim hne
      refine .cons (htrimmed.isIndentedLine (scan_ne_nil hne) (isBlank_head?_scan_trim s)
        (isBlank_getLast?_scan_trim s) width depth) ?_
      rw [Line.foldl_body, htrimmed.foldl_depthBehind, hopens]
      exact hrest

/-- The lines of a text that is cut into pieces are indented. -/
theorem areIndented_linesFrom (width : Nat) {mode : Mode} {t : Text} {ps : List (List Mark)}
    (h : CutInto mode t ps) (hmode : mode = .start) (hps : ∀ p ∈ ps, IsPiece p) (depth : Nat) :
    AreIndented width depth ((linesFrom depth ps).map (Line.body width)) := by
  have hnone : ∀ depth, AreIndented width depth [] := by
    intro depth before line after hsplit
    simp at hsplit
  induction h generalizing depth with
  | whole mode t =>
    subst hmode
    rw [linesFrom_cons, List.map_append]
    exact areIndented_lineOf (hps _ List.mem_cons_self) (hnone _)
  | part _ _ _ _ ih =>
    subst hmode
    obtain ⟨hs, hrest⟩ := List.forall_mem_cons.mp hps
    rw [linesFrom_cons, List.map_append]
    exact areIndented_lineOf hs (ih rfl hrest _)

/-- Marks of lines are cut at the new lines between them. -/
theorem splitOnP_lines {width : Nat} {l : Line} {lines : List Line}
    (h : ∀ l' ∈ l :: lines, ∀ m ∈ l'.body width, isLivePoint (.scalar '\n') m = false) :
    (l.body width ++ lines.flatMap (Line.marks width)).splitOnP (isLivePoint (.scalar '\n')) =
      (l :: lines).map (Line.body width) := by
  have hbody : ∀ l' ∈ l :: lines,
      (l'.body width).splitOnP (isLivePoint (.scalar '\n')) = [l'.body width] :=
    fun l' hl' => List.splitOnP_eq_singleton (h l' hl')
  induction lines generalizing l with
  | nil =>
    rw [List.flatMap_nil, List.append_nil, hbody l List.mem_cons_self]
    rfl
  | cons l' lines ih =>
    have hrest := ih (fun x hx => h x (List.mem_cons_of_mem l hx))
      fun x hx => hbody x (List.mem_cons_of_mem l hx)
    rw [List.flatMap_cons, Line.marks_eq, List.cons_append, List.splitOnP_append_cons _ _ rfl,
      hbody l List.mem_cons_self, hrest]
    rfl

/-- The lines of laid out code are those that were laid out. -/
theorem liveLines_layOut (width : Nat) {code : Text} (hne : layOut width code ≠ []) :
    liveLines (layOut width code) = (codeLines code).map (Line.body width) := by
  have hindented := areIndented_linesFrom width (cutInto_pieces .start code) rfl
    (fun _ => isPiece_of_mem) 0
  have hunbroken : ∀ l ∈ codeLines code, ∀ m ∈ l.body width,
      isLivePoint (.scalar '\n') m = false := by
    intro l hl m hm
    obtain ⟨depth, hline⟩ := hindented.exists_depth (List.mem_map_of_mem hl)
    refine Bool.eq_false_of_not_eq_true fun hfeed => ?_
    obtain ⟨hlive, hpoint⟩ := Bool.and_eq_true_iff.mp hfeed
    have hend := hline.unbroken m hm hlive
    rw [of_decide_eq_true hpoint] at hend
    cases hend
  cases hlines : codeLines code with
  | nil =>
    rw [layOut, hlines] at hne
    exact absurd rfl hne
  | cons l lines =>
    rw [hlines] at hunbroken
    rw [liveLines, scan_layOut, hlines, List.flatMap_cons, Line.marks_eq, List.cons_append,
      List.tail_cons, splitOnP_lines hunbroken]

/-- The lines of laid out code, as its own scan shows them, are indented by the braces that are
open before them: each begins with the spaces that its depth asks for, ends without a blank, and
has live braces, semicolons and ends of lines nowhere but where a line may have them. -/
theorem layOut_areIndented (width : Nat) (code : Text) (hne : layOut width code ≠ []) :
    AreIndented width 0 (liveLines (layOut width code)) := by
  rw [liveLines_layOut width hne]
  exact areIndented_linesFrom width (cutInto_pieces .start code) rfl (fun _ => isPiece_of_mem) 0

/-- The lines of a block with a statement of two parts are indented. -/
theorem layOut_areIndented_sample :
    layOut 2 (Text.ofString "if(a){b; c;}//\x7b") ≠ [] ∧
      AreIndented 2 0 (liveLines (layOut 2 (Text.ofString "if(a){b; c;}//\x7b"))) :=
  have hne : layOut 2 (Text.ofString "if(a){b; c;}//\x7b") ≠ [] := by decide
  ⟨hne, layOut_areIndented 2 _ hne⟩

end SourcePress.Script
