import SourcePress.Proofs.Script.Lines

/-!
# Laid out code laid out again

The lines of laid out code are cut into the pieces that they were made from, trimmed and indented.
A line cuts no more and no less than its piece does: a closing brace is alone on its line, an
opening one ends it, and a semicolon further inside has a blank behind it. So the pieces open and
close the same levels, and laid out code has the lines of the code, whatever its indentation.
-/

namespace SourcePress.Script

open Lexis

/-- The depth behind a piece. -/
def depthBehindPiece (depth : Nat) (piece : List Mark) : Nat :=
  if isClosing piece then depth - 1 else if opensLevel piece then depth + 1 else depth

/-- The line that a piece makes, if it makes one. -/
def lineOf (depth : Nat) (piece : List Mark) : List Line := linesFrom depth [piece]

/-- A piece makes its line, and the pieces behind it go on from the depth behind it. -/
theorem linesFrom_cons (depth : Nat) (piece : List Mark) (ps : List (List Mark)) :
    linesFrom depth (piece :: ps) =
      lineOf depth piece ++ linesFrom (depthBehindPiece depth piece) ps := by
  rw [lineOf, linesFrom, linesFrom, depthBehindPiece]
  split
  · rfl
  · dsimp only
    split <;> rfl

/-- An empty piece between others makes no line and changes no depth. -/
theorem linesFrom_append_nil_cons (depth : Nat) (ps qs : List (List Mark)) :
    linesFrom depth (ps ++ [] :: qs) = linesFrom depth (ps ++ qs) := by
  induction ps generalizing depth with
  | nil => rfl
  | cons p ps ih => rw [List.cons_append, List.cons_append, linesFrom_cons, linesFrom_cons, ih]

/-- True of pieces that make the same lines, whatever is before and behind them. -/
def MakeAlike (ps qs : List (List Mark)) : Prop :=
  ∀ depth rest, linesFrom depth (ps ++ rest) = linesFrom depth (qs ++ rest)

/-- The end of marks decides whether they open a level. -/
theorem opensLevel_append {ns : List Mark} (h : ns ≠ []) (ms : List Mark) :
    opensLevel (ms ++ ns) = opensLevel ns := by
  rw [opensLevel, opensLevel, List.getLast?_append_of_ne_nil _ h]

/-- Blanks open no level. -/
theorem opensLevel_of_blank {ms : List Mark} (h : ∀ m ∈ ms, m.point.isBlank = true) :
    opensLevel ms = false := by
  rw [opensLevel]
  cases hlast : ms.getLast? with
  | none => rfl
  | some m =>
    have hbrace : m.point ≠ .scalar '{' :=
      CodePoint.ne_of_isBlank (h m (List.mem_of_getLast? hlast)) (by decide)
    simp [hbrace]

/-- The marks of blanks are blank. -/
theorem isBlank_of_mem_scanFrom {t : Text} (h : ∀ c ∈ t, c.isBlank = true) (mode : Mode) :
    ∀ m ∈ scanFrom mode t, m.point.isBlank = true := by
  intro m hm
  refine h m.point ?_
  rw [← points_scanFrom mode t]
  exact List.mem_map_of_mem hm

namespace MakeAlike

variable {ps qs rs : List (List Mark)}

/-- What makes the same lines as a third sequence makes the same lines. -/
theorem trans (h : MakeAlike ps qs) (h' : MakeAlike qs rs) : MakeAlike ps rs :=
  fun depth rest => (h depth rest).trans (h' depth rest)

/-- An empty piece in front of others may be left out. -/
theorem cons_nil (ps : List (List Mark)) : MakeAlike ([] :: ps) ps := fun _ _ => rfl

/-- A piece that is blank makes no line and changes no depth. -/
theorem of_blank {piece : List Mark} (h : ∀ m ∈ piece, m.point.isBlank = true) :
    MakeAlike [piece] [] := by
  have hblank : ∀ c ∈ points piece, c.isBlank = true := by simpa [points] using h
  have hclosing : isClosing piece = false := by
    cases hc : isClosing piece with
    | false => rfl
    | true =>
      rw [points_of_isClosing hc] at hblank
      exact absurd (hblank _ List.mem_cons_self) (by decide)
  have htrim : Text.trim (points piece) = [] := by
    rw [Text.trim, List.dropWhile_eq_nil_iff.mpr hblank]
    rfl
  intro depth rest
  rw [List.singleton_append, List.nil_append, linesFrom, hclosing, opensLevel_of_blank h, htrim]
  rfl

/-- Two pieces make the same line and lead to the same depth if they are alike in all that is
looked at. -/
theorem of_trim {p q : List Mark} (hp : isClosing p = false) (hq : isClosing q = false)
    (htrim : Text.trim (points p) = Text.trim (points q)) (hopens : opensLevel p = opensLevel q) :
    MakeAlike [p] [q] := by
  intro depth rest
  rw [List.singleton_append, List.singleton_append, linesFrom, linesFrom, hp, hq, htrim, hopens]
  rfl

end MakeAlike

/-- A line break behind marks cuts them off, whatever they are. -/
theorem pieces_append_lineFeed (ms ns : List Mark) :
    pieces (ms ++ Region.code.mark (.scalar '\n') :: ns) = pieces ms ++ pieces ns := by
  induction ms with
  | nil => rfl
  | cons m ms ih =>
    -- no code point that is looked at before a line break is other than blank
    have hcut : cutAt m (ms ++ Region.code.mark (.scalar '\n') :: ns) = cutAt m ms := by
      cases ms with
      | nil => rfl
      | cons n ms => rfl
    obtain ⟨piece, ps, h⟩ := List.exists_cons_of_ne_nil (pieces_ne_nil ms)
    rw [List.cons_append, pieces, pieces, hcut, ih, h]
    cases cutAt m ms <;> rfl

/-- The marks of the spaces in front of a line. -/
def indentation (n : Nat) : List Mark := (List.replicate n (.scalar ' ')).map Region.code.mark

/-- Indentation is blank. -/
theorem isBlank_of_mem_indentation {n : Nat} : ∀ m ∈ indentation n, m.point.isBlank = true := by
  intro m hm
  obtain ⟨c, hc, rfl⟩ := List.mem_map.mp hm
  exact isBlank_of_mem_replicate hc

/-- True of marks that are cut nowhere but behind an opening brace at their end. -/
def IsUncut : List Mark → Prop
  | [] => True
  | m :: rest =>
    (cutAt m rest = .none ∨ cutAt m rest = .after ∧ rest = []) ∧ IsUncut rest

/-- True of what code is cut into: a closing brace alone, or marks that are cut no further. -/
def IsPiece (piece : List Mark) : Prop := isClosing piece = true ∨ IsUncut piece

/-- A mark that cuts nothing before marks cuts nothing before some of them. -/
theorem cutAt_of_append {m : Mark} {ms ns : List Mark} (h : cutAt m (ms ++ ns) = .none) :
    cutAt m ms = .none := by
  cases ms with
  | cons n ms => exact h
  | nil =>
    unfold cutAt at h ⊢
    split_ifs at h ⊢ <;> simp_all

namespace IsUncut

variable {ms ns : List Mark}

/-- The first part of marks that are not cut is not cut. -/
theorem of_append_left (h : IsUncut (ms ++ ns)) : IsUncut ms := by
  induction ms with
  | nil => trivial
  | cons m ms ih =>
    obtain ⟨hcut, hrest⟩ := h
    refine ⟨?_, ih hrest⟩
    rcases hcut with hnone | ⟨hafter, hnil⟩
    · exact .inl (cutAt_of_append hnone)
    · obtain ⟨rfl, rfl⟩ := List.append_eq_nil_iff.mp hnil
      exact .inr ⟨hafter, rfl⟩

/-- The last part of marks that are not cut is not cut. -/
theorem of_append_right (h : IsUncut (ms ++ ns)) : IsUncut ns := by
  induction ms with
  | nil => exact h
  | cons m ms ih => exact ih h.2

/-- A mark of marks that are not cut cuts nothing, or it cuts behind all of them. -/
theorem cutAt_eq {m : Mark} (h : IsUncut (ms ++ m :: ns)) :
    cutAt m ns = .none ∨ cutAt m ns = .after ∧ ns = [] :=
  h.of_append_right.1

/-- Spaces in front of marks that are not cut are not cut off. -/
theorem indentation_append (h : IsUncut ms) (n : Nat) : IsUncut (indentation n ++ ms) := by
  induction n with
  | zero => exact h
  | succ n ih => exact ⟨.inl rfl, ih⟩

/-- Marks that are not cut are no closing brace. -/
theorem isClosing_eq_false (h : IsUncut ms) : isClosing ms = false := by
  match ms with
  | [] => rfl
  | _ :: _ :: _ => rfl
  | [m] =>
    cases hclosing : isClosing [m] with
    | false => rfl
    | true =>
      obtain ⟨hlive, hpoint⟩ := Bool.and_eq_true_iff.mp hclosing
      have hcut : cutAt m [] = .around := by
        rw [cutAt, hlive, of_decide_eq_true hpoint]
        decide
      rw [IsUncut, hcut] at h
      rcases h.1 with hnone | ⟨hafter, -⟩
      · cases hnone
      · cases hafter

/-- Nothing but an empty piece is behind marks that are not cut. -/
theorem makeAlike_pieces (h : IsUncut ms) : MakeAlike (pieces ms) [ms] := by
  have hpieces : pieces ms = [ms] ∨ pieces ms = [ms, []] := by
    induction ms with
    | nil => exact .inl rfl
    | cons m ms ih =>
      obtain ⟨hcut, hrest⟩ := h
      rw [pieces]
      rcases hcut with hnone | ⟨hafter, rfl⟩
      · rw [hnone]
        exact (ih hrest).imp (fun hone => by rw [hone]; rfl) (fun htwo => by rw [htwo]; rfl)
      · rw [hafter]
        exact .inr rfl
  rcases hpieces with hone | htwo
  · rw [hone]
    exact fun _ _ => rfl
  · rw [htwo]
    intro depth rest
    rw [List.cons_append, linesFrom_cons, MakeAlike.cons_nil, List.singleton_append,
      linesFrom_cons]
    rfl

/-- An opening brace at the end of marks is not cut off from anything. -/
theorem opensLevel_of_append (h : IsUncut (ms ++ ns)) (hns : ns ≠ []) : opensLevel ms = false := by
  rw [opensLevel]
  cases hlast : ms.getLast? with
  | none => rfl
  | some m =>
    obtain ⟨front, rfl⟩ := List.getLast?_eq_some_iff.mp hlast
    rw [List.append_assoc, List.singleton_append] at h
    cases hopening : m.isLive && m.point = .scalar '{' with
    | false => exact hopening
    | true =>
      obtain ⟨hlive, hpoint⟩ := Bool.and_eq_true_iff.mp hopening
      have hafter : cutAt m ns = .after := by
        rw [cutAt, hlive, of_decide_eq_true hpoint]
        rfl
      rcases h.cutAt_eq with hnone | ⟨-, hnil⟩
      · rw [hafter] at hnone
        cases hnone
      · exact absurd hnil hns

/-- Blanks at the end of marks that are not cut make no difference to the level. -/
theorem opensLevel_append_blank (h : IsUncut (ms ++ ns)) (hns : ∀ n ∈ ns, n.point.isBlank = true) :
    opensLevel (ms ++ ns) = opensLevel ms := by
  cases ns with
  | nil => rw [List.append_nil]
  | cons n ns =>
    have hne : n :: ns ≠ [] := List.cons_ne_nil n ns
    -- a brace before the blanks would be cut off from them
    rw [opensLevel_append hne, opensLevel_of_blank hns, h.opensLevel_of_append hne]

end IsUncut

/-- Marks are cut into pieces, and the first one begins the marks. -/
theorem exists_pieces (ms : List Mark) :
    ∃ piece ps, pieces ms = piece :: ps ∧ IsUncut piece ∧ piece <+: ms ∧ ∀ p ∈ ps, IsPiece p := by
  induction ms with
  | nil => exact ⟨[], [], rfl, trivial, List.prefix_rfl, by simp⟩
  | cons m ms ih =>
    obtain ⟨piece, ps, hpieces, huncut, hprefix, hps⟩ := ih
    have hall : ∀ p ∈ piece :: ps, IsPiece p := List.forall_mem_cons.mpr ⟨.inr huncut, hps⟩
    rw [pieces, hpieces]
    cases hcut : cutAt m ms with
    | none =>
      obtain ⟨behind, rfl⟩ := hprefix
      have hfirst : IsUncut (m :: piece) := ⟨.inl (cutAt_of_append hcut), huncut⟩
      exact ⟨m :: piece, ps, rfl, hfirst, ⟨behind, rfl⟩, hps⟩
    | after =>
      have hsingle : cutAt m [] = .none ∨ cutAt m [] = .after ∧ ([] : List Mark) = [] := by
        unfold cutAt at hcut ⊢
        split_ifs at hcut ⊢ <;> simp_all
      exact ⟨[m], _, rfl, ⟨hsingle, trivial⟩, ⟨ms, rfl⟩, hall⟩
    | around =>
      have hclosing : isClosing [m] = true := by
        unfold cutAt at hcut
        split_ifs at hcut
        simp_all [isClosing]
      exact ⟨[], _, rfl, trivial, List.nil_prefix, List.forall_mem_cons.mpr ⟨.inl hclosing, hall⟩⟩
    | instead => exact ⟨[], _, rfl, trivial, List.nil_prefix, hall⟩

/-- Code is cut into pieces. -/
theorem isPiece_of_mem {ms p : List Mark} (h : p ∈ pieces ms) : IsPiece p := by
  obtain ⟨piece, ps, hpieces, huncut, -, hps⟩ := exists_pieces ms
  rw [hpieces] at h
  rcases List.mem_cons.mp h with rfl | hmem
  · exact .inr huncut
  · exact hps p hmem

/-- Spaces in front of marks are put in front of their first piece. -/
theorem pieces_indentation_append (n : Nat) (ms : List Mark) :
    pieces (indentation n ++ ms) = prependPiece (indentation n) (pieces ms) := by
  refine pieces_append_of_cutAt (fun m hm rest => ?_) ms
  obtain ⟨c, hc, rfl⟩ := List.mem_map.mp hm
  rw [List.eq_of_mem_replicate hc]
  rfl

/-- An indented closing brace is cut off from its indentation. -/
theorem makeAlike_indented_closing (n : Nat) :
    MakeAlike (pieces (indentation n ++ [Region.code.mark (.scalar '}')]))
      [[Region.code.mark (.scalar '}')]] := by
  intro depth rest
  have hspaces : MakeAlike [indentation n] [] := .of_blank isBlank_of_mem_indentation
  have hpieces : pieces [Region.code.mark (.scalar '}')] =
      [[], [Region.code.mark (.scalar '}')], []] := rfl
  rw [pieces_indentation_append, hpieces, prependPiece, List.append_nil]
  exact hspaces depth _

/-- A text that is not empty has marks. -/
theorem scan_ne_nil {t : Text} (h : t ≠ []) : scan t ≠ [] := by
  intro hnil
  rw [← points_scanFrom .start t, ← scan, hnil] at h
  exact h rfl

/-- A piece that is not cut is not cut either when it is trimmed, and opens the same level. -/
theorem IsUncut.trim {s : Text} (h : IsUncut (scan s)) (hs : s.trim ≠ []) :
    IsUncut (scan s.trim) ∧ opensLevel (scan s.trim) = opensLevel (scan s) := by
  obtain ⟨front, back, hsplit, hfront, hback⟩ := s.exists_trim
  obtain ⟨hscan, -⟩ := scan_between (t := s.trim) hfront hback
  rw [← hsplit] at hscan
  have hmarks : scan s.trim ≠ [] := scan_ne_nil hs
  rw [hscan] at h ⊢
  have hmiddle : IsUncut (scan s.trim ++ scanFrom (finalMode s.trim) back) := h.of_append_right
  refine ⟨hmiddle.of_append_left, ?_⟩
  rw [opensLevel_append (List.append_ne_nil_of_left_ne_nil hmarks _)]
  exact (hmiddle.opensLevel_append_blank (isBlank_of_mem_scanFrom hback _)).symm

/-- A piece that is not cut may be trimmed and indented. -/
theorem makeAlike_indented_uncut {s : Text} (h : IsUncut (scan s)) (hs : s.trim ≠ []) (n : Nat) :
    MakeAlike (pieces (indentation n ++ scan s.trim)) [scan s] := by
  obtain ⟨huncut, hopens⟩ := h.trim hs
  have hindented : IsUncut (indentation n ++ scan s.trim) := huncut.indentation_append n
  have htrim : Text.trim (points (indentation n ++ scan s.trim)) = Text.trim (points (scan s)) := by
    have hspaces : ∀ c ∈ List.replicate n (CodePoint.scalar ' '), c.isBlank :=
      fun c hc => isBlank_of_mem_replicate hc
    rw [points_append, indentation, points_map_mark, scan, points_scanFrom, scan, points_scanFrom,
      ← List.append_nil (_ ++ _), Text.trim_append hspaces (by simp), Text.trim_trim]
  rw [← opensLevel_append (scan_ne_nil hs) (indentation n)] at hopens
  exact hindented.makeAlike_pieces.trans
    (.of_trim hindented.isClosing_eq_false h.isClosing_eq_false htrim hopens)

/-- A text whose marks are a closing brace alone is that brace. -/
theorem eq_brace_of_isClosing {s : Text} (h : isClosing (scan s) = true) : s = [.scalar '}'] := by
  have hpoints := points_of_isClosing h
  rwa [scan, points_scanFrom] at hpoints

/-- A piece may be trimmed and indented. -/
theorem makeAlike_indented {s : Text} (h : IsPiece (scan s)) (hs : s.trim ≠ []) (n : Nat) :
    MakeAlike (pieces (indentation n ++ scan s.trim)) [scan s] := by
  rcases h with hclosing | huncut
  · obtain rfl := eq_brace_of_isClosing hclosing
    exact makeAlike_indented_closing n
  · exact makeAlike_indented_uncut huncut hs n

/-- A piece makes the same line as the line that it makes. -/
theorem makeAlike_lineOf (width : Int) {s : Text} (h : IsPiece (scan s)) (depth : Nat) :
    MakeAlike (pieces ((lineOf depth (scan s)).flatMap (Line.marks width))) [scan s] := by
  obtain ⟨depth', behind, hlines⟩ := exists_linesFrom depth (scan s) []
  rw [scan, points_scanFrom, ← scan] at hlines
  rw [lineOf, hlines]
  split
  · next hnil =>
    have hmarks := isBlank_of_mem_scanFrom (Text.isBlank_of_trim_eq_nil hnil) .start
    exact fun depth rest => (MakeAlike.of_blank hmarks depth rest).symm
  · next hne =>
    have hline : pieces (List.flatMap (Line.marks width) [⟨depth', s.trim⟩]) =
        [] :: pieces (indentation (depth' * width).toNat ++ scan s.trim) := by
      rw [List.flatMap_cons, List.flatMap_nil, List.append_nil]
      rfl
    rw [linesFrom, hline]
    exact (MakeAlike.cons_nil _).trans (makeAlike_indented h hne _)

/-- Lines behind marks are cut off from them. -/
theorem linesFrom_pieces_append (width : Int) (ms : List Mark) (lines : List Line) (depth : Nat) :
    linesFrom depth (pieces (ms ++ lines.flatMap (Line.marks width))) =
      linesFrom depth (pieces ms ++ pieces (lines.flatMap (Line.marks width))) := by
  cases lines with
  | nil =>
    rw [List.flatMap_nil, List.append_nil, pieces, linesFrom_append_nil_cons, List.append_nil]
  | cons l lines =>
    have hbreak : (l :: lines).flatMap (Line.marks width) = Region.code.mark (.scalar '\n') ::
        (((l :: lines).flatMap (Line.marks width)).tail) := rfl
    have hnil := pieces_append_lineFeed [] ((l :: lines).flatMap (Line.marks width)).tail
    rw [hbreak, pieces_append_lineFeed, ← List.nil_append (Region.code.mark _ :: _), hnil]
    exact (linesFrom_append_nil_cons depth _ _).symm

/-- Lines are made from their own pieces if those behind the first line are. -/
theorem linesFrom_pieces_line {width : Int} {s : Text} {ps : List (List Mark)}
    (hs : IsPiece (scan s))
    (hps : ∀ depth, linesFrom depth (pieces ((linesFrom depth ps).flatMap (Line.marks width))) =
      linesFrom depth ps) (depth : Nat) :
    linesFrom depth (pieces ((linesFrom depth (scan s :: ps)).flatMap (Line.marks width))) =
      linesFrom depth (scan s :: ps) := by
  rw [linesFrom_cons, List.flatMap_append, linesFrom_pieces_append, makeAlike_lineOf width hs,
    List.singleton_append, linesFrom_cons, hps]

/-- The lines of a text that is cut into pieces have the lines of the text. -/
theorem linesFrom_pieces_lines (width : Int) {mode : Mode} {t : Text} {ps : List (List Mark)}
    (h : CutInto mode t ps) (hmode : mode = .start) (hps : ∀ p ∈ ps, IsPiece p) (depth : Nat) :
    linesFrom depth (pieces ((linesFrom depth ps).flatMap (Line.marks width))) =
      linesFrom depth ps := by
  induction h generalizing depth with
  | whole mode t =>
    subst hmode
    exact linesFrom_pieces_line (hps _ List.mem_cons_self) (fun _ => rfl) depth
  | part _ _ _ _ ih =>
    subst hmode
    obtain ⟨hs, hrest⟩ := List.forall_mem_cons.mp hps
    exact linesFrom_pieces_line hs (ih rfl hrest) depth

/-- Laid out code has the lines of the code. -/
theorem codeLines_layOut (width : Int) (code : Text) :
    codeLines (layOut width code) = codeLines code := by
  have hlines := linesFrom_pieces_lines width (cutInto_pieces .start code) rfl
    (fun _ => isPiece_of_mem) 0
  -- the line break in front of the first line cuts off nothing but an empty piece
  have htail : linesFrom 0 (pieces ((codeLines code).flatMap (Line.marks width)).tail) =
      linesFrom 0 (pieces ((codeLines code).flatMap (Line.marks width))) := by
    cases codeLines code with
    | nil => rfl
    | cons l lines => rfl
  rw [codeLines, scan_layOut, htail]
  exact hlines

/-- Laying out code absorbs what an earlier layout did, whatever the two widths are, so laying it
out again changes nothing. -/
theorem layOut_layOut (width width' : Int) (code : Text) :
    layOut width' (layOut width code) = layOut width' code := by
  rw [layOut, codeLines_layOut, ← layOut]

end SourcePress.Script
