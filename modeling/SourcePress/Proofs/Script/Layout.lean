import SourcePress.Proofs.Lexis.TrimmedAtoms
import SourcePress.Proofs.Script.Balance
import SourcePress.Script.Layout

/-!
# Laid out code read again

Each line of laid out code begins behind a new line, where the scan is in live code and nothing is
escaped, and holds a trimmed piece of the code. So laid out code has the tokens of the code, piece
by piece, whatever the depth and the width of the indentation.
-/

namespace SourcePress.Script

open Lexis

/-- Puts marks at the start of the first piece. -/
def prependPiece (ms : List Mark) : List (List Mark) → List (List Mark)
  | [] => [ms]
  | piece :: pieces => (ms ++ piece) :: pieces

/-- The text of lines with a new line in front of each. -/
def brokenText (width : Int) (lines : List Line) : Text :=
  lines.flatMap fun l => .scalar '\n' :: l.render width

/-- A mark that is put in front of a piece stands behind marks that are put in front then. -/
theorem prependPiece_consPiece (ms : List Mark) (m : Mark) (ps : List (List Mark)) :
    prependPiece ms (consPiece m ps) = prependPiece (ms ++ [m]) ps := by
  cases ps <;> simp [prependPiece, consPiece]

/-- Marks that are put in front of a piece stand behind marks that are put in front then. -/
theorem prependPiece_prependPiece (ms ns : List Mark) (ps : List (List Mark)) :
    prependPiece ms (prependPiece ns ps) = prependPiece (ms ++ ns) ps := by
  cases ps <;> simp [prependPiece]

/-- There is always a piece. -/
theorem pieces_ne_nil (ms : List Mark) : pieces ms ≠ [] := by
  cases ms with
  | nil => simp [pieces]
  | cons m ms =>
    rw [pieces]
    cases cutAt m ms with
    | none => cases pieces ms <;> simp [consPiece]
    | after => simp
    | around => simp
    | instead => simp

/-- Nothing changes if no marks are put in front. -/
theorem prependPiece_nil (ms : List Mark) : prependPiece [] (pieces ms) = pieces ms := by
  obtain ⟨piece, ps, h⟩ := List.exists_cons_of_ne_nil (pieces_ne_nil ms)
  rw [h]
  rfl

/-- Marks that cut nothing are put in front of the first piece behind them. -/
theorem pieces_append_of_cutAt {ms : List Mark} (h : ∀ m ∈ ms, ∀ rest, cutAt m rest = .none)
    (rest : List Mark) : pieces (ms ++ rest) = prependPiece ms (pieces rest) := by
  induction ms with
  | nil => exact (prependPiece_nil rest).symm
  | cons m ms ih =>
    obtain ⟨hm, hms⟩ := List.forall_mem_cons.mp h
    rw [List.cons_append, pieces, hm]
    dsimp only
    rw [ih hms]
    cases pieces rest <;> rfl

/-- Marks that are not live cut nothing. -/
theorem pieces_append {ms : List Mark} (h : ∀ m ∈ ms, m.isLive = false) (rest : List Mark) :
    pieces (ms ++ rest) = prependPiece ms (pieces rest) := by
  refine pieces_append_of_cutAt (fun m hm rest => ?_) rest
  rw [cutAt, h m hm]
  rfl

/-- What a live code point can do to the piece that it is met in. -/
theorem cutAt_live (c : CodePoint) (rest : List Mark) :
    cutAt (Region.code.mark c) rest = .none ∧ c ≠ .scalar '}' ∨
      cutAt (Region.code.mark c) rest = .after ∧ (c = .scalar '{' ∨ c = .scalar ';') ∨
      cutAt (Region.code.mark c) rest = .around ∧ c = .scalar '}' ∨
      cutAt (Region.code.mark c) rest = .instead ∧ c.isLineEnd = true := by
  have hlive : (Region.code.mark c).isLive = true := rfl
  rw [cutAt, hlive, Bool.not_true, if_neg Bool.false_ne_true]
  split
  · next hopening => exact .inr (.inl ⟨rfl, .inl hopening⟩)
  split
  · next hclosing => exact .inr (.inr (.inl ⟨rfl, hclosing⟩))
  next hclosing =>
  split
  · next hsemicolon =>
    split
    · exact .inr (.inl ⟨rfl, .inr hsemicolon⟩)
    · exact .inl ⟨rfl, hclosing⟩
  split
  · next hend => exact .inr (.inr (.inr ⟨rfl, hend⟩))
  · exact .inl ⟨rfl, hclosing⟩

/-- The lines of a piece that is no closing brace: its trimmed text, if there is one. -/
theorem exists_linesFrom_cons {piece : List Mark} (h : isClosing piece = false) (depth : Nat)
    (rest : List (List Mark)) :
    ∃ depth', linesFrom depth (piece :: rest) =
      if Text.trim (points piece) = [] then linesFrom depth' rest
      else ⟨depth, Text.trim (points piece)⟩ :: linesFrom depth' rest := by
  rw [linesFrom, h]
  exact ⟨_, rfl⟩

/-- The text of lines is empty or begins with a new line. -/
theorem head?_brokenText (width : Int) (lines : List Line) :
    (brokenText width lines).head? = none ∨
      (brokenText width lines).head? = some (.scalar '\n') := by
  cases lines with
  | nil => exact .inl rfl
  | cons l lines => exact .inr rfl

/-- The text of lines is a new line and the lines joined by new lines. -/
theorem brokenText_cons (width : Int) (l : Line) (lines : List Line) :
    brokenText width (l :: lines) =
      .scalar '\n' :: Text.join ['\n'] ((l :: lines).map (Line.render width)) := by
  induction lines generalizing l with
  | nil => simp [brokenText, Text.join]
  | cons l' lines ih =>
    have hi := ih l'
    simp only [brokenText, Text.join, List.intercalate, List.map_cons, List.flatMap_cons] at hi ⊢
    simp [hi, List.intersperse]

/-- Indentation is blank. -/
theorem isBlank_of_mem_replicate {n : Nat} {c : CodePoint}
    (hc : c ∈ List.replicate n (CodePoint.scalar ' ')) : c.isBlank = true := by
  rw [List.eq_of_mem_replicate hc]
  decide

/-- What lines must be read as, behind whatever comes before them: atoms with given tokens. -/
structure IsLayout (width : Int) (lines : List Line) (toks : List Span) (out : List Atom) :
    Prop where
  /-- The atoms are read alike behind a backslash and elsewhere. -/
  atomic : ∀ e, Atomic none e out
  /-- They spell the lines. -/
  text : textOf out = brokenText width lines
  /-- They have the tokens. -/
  tokens : tokensOf out = toks

/-- True of pieces whose lines have given tokens, at any depth. -/
def LaysOut (width : Int) (ps : List (List Mark)) (toks : List Span) : Prop :=
  ∀ depth, ∃ out, IsLayout width (linesFrom depth ps) toks out

/-- Atoms on a line of their own go in front of the lines behind it. -/
theorem IsLayout.line {width : Int} {lines : List Line} {toks : List Span} {out : List Atom}
    (h : IsLayout width lines toks out) {as : List Atom}
    (has : Atomic (textOf out).head? false as) (depth : Nat) :
    ∃ out', IsLayout width (⟨depth, textOf as⟩ :: lines) (tokensOf as ++ toks) out' := by
  have hspaces : ∀ c ∈ List.replicate (depth * width).toNat (CodePoint.scalar ' '),
      c.isBlank := fun c hc => isBlank_of_mem_replicate hc
  have hline : Atomic none false (as ++ out) :=
    .append (by rwa [Option.or_none]) (h.atomic _)
  refine ⟨.point '\n' :: ((List.replicate (depth * width).toNat (CodePoint.scalar ' ')).map
    Atom.point ++ (as ++ out)), fun e => ?_, ?_, ?_⟩
  · refine .point (.inr (opening?_of_isBlank (by decide) _)) ?_
    have hescape : (!e && decide (CodePoint.scalar '\n' = CodePoint.scalar '\\')) = false := by
      simp
    exact hescape ▸ hline.blanks_append hspaces
  · rw [textOf_cons, textOf_append, textOf_append, textOf_map_point, h.text]
    simp [brokenText, Line.render, Atom.text]
  · rw [tokensOf_cons, tokensOf_append, tokensOf_append, tokensOf_blank (by decide),
      tokensOf_blanks hspaces, h.tokens]
    rfl

namespace LaysOut

variable {width : Int} {ps : List (List Mark)} {toks : List Span}

/-- A piece that is no closing brace goes in front, trimmed. -/
theorem piece (h : LaysOut width ps toks) {next : Option CodePoint} {p : List Atom}
    (hp : Atomic next false p) (hclosing : isClosing (marksOf p) = false)
    (hend : next = none → ∀ depth, linesFrom depth ps = []) :
    LaysOut width (marksOf p :: ps) (tokensOf p ++ toks) := by
  intro depth
  obtain ⟨depth', hlines⟩ := exists_linesFrom_cons hclosing depth ps
  obtain ⟨out, hout⟩ := h depth'
  have hnext : MayFollow next (textOf out).head? := by
    rw [hout.text]
    by_cases hnone : next = none
    · rw [hend hnone]
      exact .inl rfl
    · exact (head?_brokenText width _).imp_right fun hhead => ⟨hnone, hhead⟩
  obtain ⟨bs, hbs, htext, htokens⟩ := hp.exists_trim hnext
  rw [hlines, points_marksOf, ← htext, ← htokens]
  split
  · next hnil =>
    rw [hbs.eq_nil_of_textOf hnil]
    exact ⟨out, hout⟩
  · exact hout.line hbs depth

/-- A closing brace goes in front on a line of its own. -/
theorem closing (h : LaysOut width ps toks) :
    LaysOut width ([Region.code.mark (.scalar '}')] :: ps)
      (tokensOf [.point (.scalar '}')] ++ toks) := by
  intro depth
  obtain ⟨out, hout⟩ := h (depth - 1)
  have hbrace : Atomic (textOf out).head? false [.point (.scalar '}')] :=
    .point (.inr (opening?_of_plain rfl (by decide) _)) (.nil _)
  exact hout.line hbrace (depth - 1)

end LaysOut

/-- True of atoms without a live closing brace. -/
def HoldsNoClosing (as : List Atom) : Prop := ∀ m ∈ marksOf as, isClosing [m] = false

namespace HoldsNoClosing

variable {as : List Atom}

/-- Without a closing brace a piece is none. -/
theorem isClosing_marksOf (h : HoldsNoClosing as) : isClosing (marksOf as) = false := by
  rw [HoldsNoClosing] at h
  generalize marksOf as = ms at h
  match ms with
  | [] => rfl
  | [m] => exact h m List.mem_cons_self
  | _ :: _ :: _ => rfl

/-- A construct is no closing brace. -/
theorem concat_construct (h : HoldsNoClosing as) {r : Region} (hr : r ≠ .code) (t : Text) :
    HoldsNoClosing (as ++ [.construct r t]) := by
  intro m hm
  rw [marksOf_append, marksOf_cons, marksOf_nil, List.append_nil] at hm
  rcases List.mem_append.mp hm with hm | hm
  · exact h m hm
  · rw [isClosing, Mark.isLive, region_of_mem_construct hm, isLive_eq_false hr, Bool.false_and]

/-- Another code point is no closing brace. -/
theorem concat_point (h : HoldsNoClosing as) {c : CodePoint} (hc : c ≠ .scalar '}') :
    HoldsNoClosing (as ++ [.point c]) := by
  intro m hm
  rw [marksOf_append, marksOf_cons, marksOf_nil, List.append_nil] at hm
  rcases List.mem_append.mp hm with hm | hm
  · exact h m hm
  · rw [List.mem_singleton.mp hm, isClosing, Region.mark_point, decide_eq_false hc, Bool.and_false]

end HoldsNoClosing

/-- The pieces of atoms behind a piece that was begun are laid out to the tokens of both. -/
theorem laysOut_pieces (width : Int) {p as : List Atom} (h : Atomic none false (p ++ as))
    (hp : HoldsNoClosing p) :
    LaysOut width (prependPiece (marksOf p) (pieces (marksOf as))) (tokensOf (p ++ as)) := by
  have hnil : LaysOut width [] [] := fun _ => ⟨[], .nil, rfl, rfl⟩
  induction as generalizing p with
  | nil =>
    have hlast := hnil.piece h.of_append.1 hp.isClosing_marksOf fun _ _ => rfl
    simpa [prependPiece, pieces] using hlast
  | cons a as ih =>
    have hsplit : p ++ a :: as = (p ++ [a]) ++ as := by simp
    have htokens : tokensOf (p ++ a :: as) = tokensOf p ++ (tokensOf [a] ++ tokensOf as) := by
      rw [tokensOf_append, tokensOf_cons]
    have hbegin := (hsplit ▸ h).of_append
    cases a with
    | construct r t =>
      have hr : r ≠ .code := (h.construct_ne (List.mem_append_right p (.head as))).1
      have hlive : ∀ m ∈ r.construct t, m.isLive = false := fun m hm => by
        rw [Mark.isLive, region_of_mem_construct hm, isLive_eq_false hr]
      have hbegun : marksOf (p ++ [.construct r t]) = marksOf p ++ r.construct t := by
        simp [Atom.marks]
      rw [marksOf_cons, Atom.marks, pieces_append hlive, prependPiece_prependPiece, ← hbegun,
        hsplit]
      exact ih (hsplit ▸ h) (hp.concat_construct hr t)
    | point c =>
      have hbegun : marksOf (p ++ [.point c]) = marksOf p ++ [Region.code.mark c] := by
        simp [Atom.marks]
      -- behind a cut nothing is escaped, and the next piece begins
      have hrest : c ≠ .scalar '\\' → LaysOut width (pieces (marksOf as)) (tokensOf as) := by
        intro hc
        have hafter : Atomic none false as := by
          simpa [escapedBehind, List.foldl_append, Atom.escapes, hc] using hbegin.2
        simpa [prependPiece_nil] using @ih [] hafter (by simp [HoldsNoClosing])
      rw [marksOf_cons, Atom.marks, List.singleton_append, pieces]
      rcases cutAt_live c (marksOf as) with ⟨hcut, hc⟩ | ⟨hcut, hc⟩ | ⟨hcut, rfl⟩ | ⟨hcut, hc⟩
      all_goals rw [hcut]; dsimp only
      · rw [prependPiece_consPiece, ← hbegun, hsplit]
        exact ih (hsplit ▸ h) (hp.concat_point hc)
      · have hbrace : c ≠ .scalar '}' := by rcases hc with rfl | rfl <;> decide
        have hescape : c ≠ .scalar '\\' := by rcases hc with rfl | rfl <;> decide
        rw [prependPiece, ← hbegun, htokens, ← List.append_assoc, ← tokensOf_append]
        refine (hrest hescape).piece hbegin.1 (hp.concat_point hbrace).isClosing_marksOf
          fun hend => ?_
        rw [Option.or_none, List.head?_eq_none_iff] at hend
        rw [hbegin.2.eq_nil_of_textOf hend]
        exact fun _ => rfl
      · rw [prependPiece, List.append_nil, htokens]
        exact (hrest (by decide)).closing.piece h.of_append.1 hp.isClosing_marksOf
          (by simp [Atom.text])
      · have hblank : c.isBlank := CodePoint.isBlank_of_isLineEnd hc
        rw [prependPiece, List.append_nil, htokens, tokensOf_blank hblank, List.nil_append]
        exact (hrest (ne_backslash_of_isBlank hblank)).piece h.of_append.1 hp.isClosing_marksOf
          (by simp [Atom.text])

/-- Laid out code has the tokens of the code. -/
theorem tokens_layOut (width : Int) (code : Text) : tokens (layOut width code) = tokens code := by
  obtain ⟨as, has, rfl⟩ := exists_atomic code
  have hlays := laysOut_pieces width (p := []) has (by simp [HoldsNoClosing])
  rw [marksOf_nil, prependPiece_nil, List.nil_append] at hlays
  obtain ⟨out, hout⟩ := hlays 0
  have hlines : codeLines (textOf as) = linesFrom 0 (pieces (marksOf as)) := by
    rw [codeLines, has.scan_textOf]
  rw [has.tokens_textOf, layOut, hlines]
  cases hl : linesFrom 0 (pieces (marksOf as)) with
  | nil =>
    have hnil : out = [] := (hout.atomic false).eq_nil_of_textOf (by rw [hout.text, hl]; rfl)
    rw [← hout.tokens, hnil]
    rfl
  | cons l lines =>
    have htext := hout.text
    rw [hl, brokenText_cons] at htext
    -- behind a backslash nothing but a live code point can be read
    cases hout.atomic true with
    | nil => cases htext
    | @point _ c rest _ hrest =>
      rw [textOf_cons, Atom.text, List.singleton_append] at htext
      obtain ⟨rfl, hjoin⟩ := List.cons.inj htext
      rw [← hjoin, hrest.tokens_textOf, ← hout.tokens, tokensOf_cons, tokensOf_blank (by decide)]
      rfl

/-- Laying out code changes nothing but the layout: the tokens stay, closed string literals and
block comments are copied as they are, what is left open is left open, and the laid out code is
valid if the code is. -/
theorem layOut_keeps_tokens (width : Int) (code : Text) :
    tokens (layOut width code) = tokens code ∧
      (spans (layOut width code)).filter Span.isClosed = (spans code).filter Span.isClosed ∧
      isTerminated (layOut width code) = isTerminated code ∧
      (validate (layOut width code) = .ok validMessage ↔ validate code = .ok validMessage) := by
  have htokens := tokens_layOut width code
  refine ⟨htokens, ?_, ?_, validate_congr htokens⟩
  · rw [← filter_isClosed_tokens, htokens, filter_isClosed_tokens]
  · rw [isTerminated_eq, htokens, ← isTerminated_eq]

example : layOut 2 "f()\x7ba;b\x7d" = "f()\x7b\n  a;\n  b\n\x7d" := by decide

end SourcePress.Script
