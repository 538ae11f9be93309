import SourcePress.Proofs.Script.Layout

/-!
# The lines of laid out code, scanned

The pieces that code is cut into are the scans of parts of it, each read on its own: where a piece
ends nothing is open and nothing is escaped, so the part behind it is read from live code. A line
break closes what is still open in a line comment, so the lines are read apart too. The scan of laid
out code is made of the scans of its lines, with the breaks and the indentation between them live.
-/

namespace SourcePress.Script

open Lexis

/-- True of a text, read from a mode, that is cut into pieces. Each piece is the scan of a part,
and every part but the first is read from live code. Between two parts no more is left out than
what leaves the reading in live code, and no part but the last one leaves a string literal or a
block comment open. -/
inductive CutInto : Mode → Text → List (List Mark) → Prop where
  /-- All of the text is one piece. -/
  | whole (mode : Mode) (t : Text) : CutInto mode t [scanFrom mode t]
  /-- The text begins with a part that is a piece, and its last part is cut into the others. What
  follows an empty first part completes no marker. -/
  | part {mode : Mode} {s e t : Text} {ps : List (List Mark)}
      (closed : (modeAfter mode s).isTerminated = true)
      (inert : s = [] →
        (e ++ t).head? ≠ some (.scalar '/') ∧ (e ++ t).head? ≠ some (.scalar '*'))
      (goesOn : modeAfter mode (s ++ (e ++ t)) = finalMode t)
      (rest : CutInto .start t ps) :
      CutInto mode (s ++ (e ++ t)) (scanFrom mode s :: ps)

/-- Where a code point can be live: behind a backslash, in live code where it opens nothing, and at
the end of a line comment. -/
theorem cases_of_isLive {mode : Mode} {c : CodePoint} {next : Option CodePoint}
    (hlive : (mode.mark c next).isLive = true) :
    mode = .code true ∨ mode = .code false ∧ Mode.opening? c next = none ∨
      mode = .lineComment ∧ c.isLineEnd = true := by
  cases mode with
  | code e =>
    cases e with
    | true => exact .inl rfl
    | false =>
      refine .inr (.inl ⟨rfl, ?_⟩)
      cases hopen : Mode.opening? c next with
      | none => rfl
      | some opened =>
        rw [Mode.mark, hopen] at hlive
        rcases opening?_eq_some hopen with ⟨q, rfl⟩ | ⟨rfl, rfl⟩ | ⟨rfl, rfl⟩
        · cases q <;> cases hopen <;> cases hlive
        · cases hopen
          cases hlive
        · cases hopen
          cases hlive
  | lineComment =>
    refine .inr (.inr ⟨rfl, ?_⟩)
    cases hend : c.isLineEnd with
    | true => rfl
    | false =>
      rw [Mode.mark, hend] at hlive
      cases hlive
  | string q e => cases e <;> cases hlive
  | blockOpening => cases hlive
  | blockComment => cases hlive
  | blockClosing => cases hlive

/-- A live mark opens nothing. -/
theorem mark_of_isLive {mode : Mode} {c : CodePoint} {next : Option CodePoint}
    (hlive : (mode.mark c next).isLive = true) : mode.mark c next = Region.code.mark c := by
  rcases cases_of_isLive hlive with rfl | ⟨rfl, hopen⟩ | ⟨rfl, hend⟩
  · rfl
  · rw [Mode.mark, hopen]
    rfl
  · rw [Mode.mark, hend]
    rfl

/-- True of a code point that is read as a mere code point of live code, whatever is behind it, and
leaves the reading in live code. -/
def ReadsLive (mode : Mode) (c : CodePoint) : Prop :=
  ∀ next, mode.mark c next = Region.code.mark c ∧ mode.after c next = .start

/-- A live code point that can neither open nor escape anything stands where nothing is left open,
and is read so there and in live code. -/
theorem readsLive {mode : Mode} {c : CodePoint} {next : Option CodePoint}
    (hopen : ∀ next, Mode.opening? c next = none) (hc : c ≠ .scalar '\\')
    (hlive : (mode.mark c next).isLive = true) :
    mode.isTerminated = true ∧ ReadsLive mode c ∧ ReadsLive .start c := by
  have hstart : ReadsLive .start c := fun next => by
    rw [Mode.start, Mode.mark, Mode.after, hopen next]
    simp [hc, Region.mark]
  rcases cases_of_isLive hlive with rfl | ⟨rfl, -⟩ | ⟨rfl, hend⟩
  · exact ⟨rfl, fun _ => ⟨rfl, rfl⟩, hstart⟩
  · exact ⟨rfl, hstart, hstart⟩
  · refine ⟨rfl, fun _ => ?_, hstart⟩
    rw [Mode.mark, Mode.after, hend]
    exact ⟨rfl, rfl⟩

/-- A new line is read so where nothing is left open. -/
theorem readsLive_lineFeed {mode : Mode} (hmode : mode.isTerminated = true) :
    ReadsLive mode (.scalar '\n') := by
  intro next
  cases mode with
  | code e =>
    cases e with
    | true => exact ⟨rfl, rfl⟩
    | false => exact read_blank (by decide) next
  | lineComment => exact ⟨rfl, rfl⟩
  | _ => cases hmode

namespace CutInto

variable {mode : Mode} {c : CodePoint} {t : Text} {ps : List (List Mark)}

/-- A code point in front of a cut text goes in front of the first piece. -/
theorem consPiece
    (h : CutInto (mode.after c t.head?) t ps) :
    CutInto mode (c :: t) (consPiece (mode.mark c t.head?) ps) := by
  generalize hafter : mode.after c t.head? = mode' at h
  cases h with
  | whole =>
    subst hafter
    exact .whole mode (c :: t)
  | @part _ s e t _ closed inert goesOn rest =>
    -- the code point is read alike before the part alone and before all that follows
    have hread : mode.mark c (s ++ (e ++ t)).head? = mode.mark c s.head? ∧
        mode.after c (s ++ (e ++ t)).head? = mode.after c s.head? := by
      cases s with
      | nil => exact read_of_next (inert rfl).1 (inert rfl).2 mode c
      | cons d s => exact ⟨rfl, rfl⟩
    have hscan : scanFrom mode (c :: s) =
        mode.mark c (s ++ (e ++ t)).head? :: scanFrom mode' s := by
      rw [scanFrom, ← hafter, hread.1, hread.2]
    have hclosed : (modeAfter mode (c :: s)).isTerminated = true := by
      rw [modeAfter, ← hread.2, hafter]
      exact closed
    have hgoesOn : modeAfter mode ((c :: s) ++ (e ++ t)) = finalMode t := by
      rw [List.cons_append, modeAfter, hafter, goesOn]
    rw [Script.consPiece, ← hscan, ← List.cons_append]
    exact .part hclosed (fun hnil => absurd hnil (List.cons_ne_nil c s)) hgoesOn rest

/-- A text may be cut behind its first code point, if that is mere live code. -/
theorem after (hread : ReadsLive mode c) (h : CutInto .start t ps) :
    CutInto mode (c :: t) ([Region.code.mark c] :: ps) := by
  have hscan : scanFrom mode [c] = [Region.code.mark c] := by
    rw [scanFrom, (hread _).1]
    rfl
  rw [← hscan]
  refine .part (s := [c]) (e := []) ?_ (fun hnil => absurd hnil (List.cons_ne_nil c [])) ?_ h
  · rw [modeAfter, (hread _).2]
    rfl
  · rw [List.singleton_append, List.nil_append, modeAfter, (hread _).2, finalMode]

/-- An empty piece may stand in front of code that is read from live code alike. -/
theorem before (hclosed : mode.isTerminated = true) {e : Text}
    (hs : (e ++ t).head? ≠ some (.scalar '/')) (ha : (e ++ t).head? ≠ some (.scalar '*'))
    (hmode : modeAfter mode (e ++ t) = finalMode t) (h : CutInto .start t ps) :
    CutInto mode (e ++ t) ([] :: ps) :=
  .part (s := []) hclosed (fun _ => ⟨hs, ha⟩) hmode h

end CutInto

/-- What a scan is cut into is the scans of parts of its text. -/
theorem cutInto_pieces (mode : Mode) (t : Text) : CutInto mode t (pieces (scanFrom mode t)) := by
  induction t generalizing mode with
  | nil => exact .whole mode []
  | cons c t ih =>
    rw [scanFrom, pieces]
    cases hlive : (mode.mark c t.head?).isLive with
    | false =>
      have hcut : cutAt (mode.mark c t.head?) (scanFrom (mode.after c t.head?) t) = .none := by
        rw [cutAt, hlive]
        rfl
      rw [hcut]
      exact (ih _).consPiece
    | true =>
      have hmark := mark_of_isLive hlive
      rcases cutAt_live c (scanFrom (mode.after c t.head?) t) with
        ⟨hcut, -⟩ | ⟨hcut, hc⟩ | ⟨hcut, rfl⟩ | ⟨hcut, hc⟩
      all_goals rw [hmark, hcut]; dsimp only
      · rw [← hmark]
        exact (ih _).consPiece
      -- behind each cut the scan is at its start again, so the rest is cut as a text of its own
      · have hopen : ∀ next, Mode.opening? c next = none := by
          rcases hc with rfl | rfl <;> exact opening?_of_plain rfl (by decide)
        have hescape : c ≠ .scalar '\\' := by rcases hc with rfl | rfl <;> decide
        obtain ⟨-, hread, -⟩ := readsLive hopen hescape hlive
        rw [(hread _).2]
        exact (ih .start).after hread
      · obtain ⟨hclosed, hread, hstart⟩ :=
          readsLive (opening?_of_plain rfl (by decide)) (by decide) hlive
        rw [(hread _).2]
        refine .before (e := []) hclosed ?_ ?_ ?_ ((ih .start).after hstart)
        · simp
        · simp
        · rw [List.nil_append, modeAfter, (hread _).2, finalMode, modeAfter, (hstart _).2]
      · have hblank : c.isBlank := CodePoint.isBlank_of_isLineEnd hc
        have hne : ∀ d : CodePoint, d.isBlank = false → c ≠ d :=
          fun _ => CodePoint.ne_of_isBlank hblank
        obtain ⟨hclosed, hread, -⟩ :=
          readsLive (opening?_of_isBlank hblank) (ne_backslash_of_isBlank hblank) hlive
        rw [(hread _).2]
        refine .before (e := [c]) hclosed ?_ ?_ ?_ (ih .start)
        · simpa using hne (.scalar '/') (by decide)
        · simpa using hne (.scalar '*') (by decide)
        · rw [List.singleton_append, modeAfter, (hread _).2, finalMode]

/-- A trimmed text leaves a string literal or a block comment open if the text does. -/
theorem isTerminated_trim (t : Text) : isTerminated t.trim = isTerminated t := by
  obtain ⟨as, has, rfl⟩ := exists_atomic t
  obtain ⟨bs, hbs, htext, htokens⟩ := has.exists_trim (.inl rfl)
  rw [isTerminated_eq, isTerminated_eq, ← htext, hbs.tokens_textOf, has.tokens_textOf, htokens]

/-- A piece that is a closing brace has its text. -/
theorem points_of_isClosing {piece : List Mark} (h : isClosing piece = true) :
    points piece = [.scalar '}'] := by
  match piece with
  | [] => cases h
  | _ :: _ :: _ => cases h
  | [m] =>
    obtain ⟨-, hpoint⟩ := Bool.and_eq_true_iff.mp h
    rw [points_cons, points_nil, of_decide_eq_true hpoint]

/-- The lines of a piece: its trimmed text, if there is one, at some depth. -/
theorem exists_linesFrom (depth : Nat) (piece : List Mark) (rest : List (List Mark)) :
    ∃ depth' behind, linesFrom depth (piece :: rest) =
      if Text.trim (points piece) = [] then linesFrom behind rest
      else ⟨depth', Text.trim (points piece)⟩ :: linesFrom behind rest := by
  cases hclosing : isClosing piece with
  | false =>
    obtain ⟨behind, h⟩ := exists_linesFrom_cons hclosing depth rest
    exact ⟨depth, behind, h⟩
  | true =>
    have htrim : Text.trim [CodePoint.scalar '}'] = [.scalar '}'] := by decide
    rw [linesFrom, if_pos hclosing, points_of_isClosing hclosing, htrim]
    exact ⟨depth - 1, depth - 1, rfl⟩

/-- No line but the last one leaves a string literal or a block comment open. -/
theorem isTerminated_linesFrom {mode : Mode} {t : Text} {ps : List (List Mark)}
    (h : CutInto mode t ps) (hmode : mode = .start) (depth : Nat) :
    ∀ l ∈ (linesFrom depth ps).dropLast, isTerminated l.text = true := by
  induction h generalizing depth with
  | whole mode t =>
    obtain ⟨depth', behind, hlines⟩ := exists_linesFrom depth (scanFrom mode t) []
    rw [hlines]
    split <;> simp [linesFrom]
  | @part mode s e t ps closed inert goesOn rest ih =>
    obtain ⟨depth', behind, hlines⟩ := exists_linesFrom depth (scanFrom mode s) ps
    have hrest := ih rfl behind
    rw [hlines, points_scanFrom]
    split
    · exact hrest
    · cases hps : linesFrom behind ps with
      | nil => simp
      | cons l lines =>
        rw [List.dropLast_cons_cons, ← hps, List.forall_mem_cons]
        refine ⟨?_, hrest⟩
        subst hmode
        rw [isTerminated_trim]
        exact closed

/-- The line break in front of a line and its indentation. -/
def Line.lead (width : Int) (l : Line) : Text :=
  .scalar '\n' :: List.replicate (l.depth * width).toNat (.scalar ' ')

/-- The marks of a line and of what is in front of it. -/
def Line.marks (width : Int) (l : Line) : List Mark :=
  (l.lead width).map Region.code.mark ++ scan l.text

/-- Lines begin with the first one and what is in front of it. -/
theorem brokenText_line (width : Int) (l : Line) (lines : List Line) :
    brokenText width (l :: lines) = l.lead width ++ (l.text ++ brokenText width lines) := by
  simp [brokenText, Line.lead, Line.render]

/-- What is in front of a line is live where nothing is left open. -/
theorem scanTo_lead {mode : Mode} (hmode : mode.isTerminated = true) (width : Int) (l : Line)
    (next : Option CodePoint) :
    scanTo mode (l.lead width) next = (l.lead width).map Region.code.mark ∧
      modeTo mode (l.lead width) next = .start := by
  have hread := readsLive_lineFeed hmode
  have hspaces := scanTo_blanks (t := List.replicate (l.depth * width).toNat (.scalar ' '))
    (fun c hc => isBlank_of_mem_replicate hc) next
  rw [Line.lead, scanTo_cons, modeTo_cons, (hread _).1, (hread _).2, Mode.start, hspaces.1,
    hspaces.2]
  exact ⟨rfl, rfl⟩

/-- Lines read where nothing is left open have the marks of the lines, unless one before the last
leaves something open. -/
theorem scanFrom_brokenText {width : Int} {lines : List Line}
    (hlines : ∀ l ∈ lines.dropLast, isTerminated l.text = true) {mode : Mode}
    (hmode : mode.isTerminated = true) :
    scanFrom mode (brokenText width lines) = lines.flatMap (Line.marks width) := by
  induction lines generalizing mode with
  | nil => rfl
  | cons l lines ih =>
    have hrest : scanFrom (finalMode l.text) (brokenText width lines) =
        lines.flatMap (Line.marks width) := by
      cases lines with
      | nil => rfl
      | cons l' lines =>
        rw [List.dropLast_cons_cons, List.forall_mem_cons] at hlines
        exact ih hlines.2 hlines.1
    have hne : ∀ c : CodePoint, c ≠ .scalar '\n' → (brokenText width lines).head? ≠ some c := by
      rintro c hc h
      rcases head?_brokenText width lines with hnil | hfeed
      · rw [hnil] at h
        cases h
      · rw [hfeed] at h
        exact hc (Option.some.inj h).symm
    have hnext := scanTo_of_next (hne (.scalar '/') (by decide)) (hne (.scalar '*') (by decide))
      .start l.text
    have hlead := scanTo_lead hmode width l (l.text ++ brokenText width lines).head?
    rw [brokenText_line, scanFrom_append, hlead.1, hlead.2, scanFrom_append, hnext.1, hnext.2,
      ← scanFrom_eq_scanTo, ← modeAfter_eq_modeTo, ← scan, ← finalMode, hrest, List.flatMap_cons,
      Line.marks, List.append_assoc]

/-- Laid out code is scanned line by line. -/
theorem scan_layOut (width : Int) (code : Text) :
    scan (layOut width code) = ((codeLines code).flatMap (Line.marks width)).tail := by
  have hlines := isTerminated_linesFrom (cutInto_pieces .start code) rfl 0
  have hscan : scan (brokenText width (codeLines code)) =
      (codeLines code).flatMap (Line.marks width) := scanFrom_brokenText hlines rfl
  rw [layOut, ← hscan]
  cases codeLines code with
  | nil => rfl
  | cons l lines =>
    rw [brokenText_cons, scan, scan, scanFrom, (readsLive_lineFeed rfl _).2]
    rfl

end SourcePress.Script
