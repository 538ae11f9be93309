import Mathlib.Data.List.DropRight
import Mathlib.Data.List.TakeWhile
import SourcePress.Proofs.Lexis.Construct

/-!
# Scans of trimmed texts

Blanks open nothing and close nothing but a line comment, so the marks of a trimmed text are the
marks that its code points have in the whole text, and the blanks before them are live code.
-/

namespace SourcePress

namespace Text

/-- What is trimmed away is blank. -/
theorem exists_trim (t : Text) :
    ∃ front back, t = front ++ t.trim ++ back ∧ (∀ c ∈ front, c.isBlank) ∧
      ∀ c ∈ back, c.isBlank := by
  refine ⟨t.takeWhile CodePoint.isBlank,
    ((t.dropWhile CodePoint.isBlank).reverse.takeWhile CodePoint.isBlank).reverse, ?_,
    fun c hc => List.mem_takeWhile_imp hc,
    fun c hc => List.mem_takeWhile_imp (List.mem_reverse.mp hc)⟩
  rw [trim, trimEnd, List.append_assoc, ← List.reverse_append, List.takeWhile_append_dropWhile,
    List.reverse_reverse, List.takeWhile_append_dropWhile]

/-- Blanks at the two ends are trimmed away. -/
theorem trim_append {front back : Text} (hfront : ∀ c ∈ front, c.isBlank)
    (hback : ∀ c ∈ back, c.isBlank) (t : Text) : trim (front ++ t ++ back) = trim t := by
  have hdrop : (front ++ t ++ back).dropWhile CodePoint.isBlank =
      (t ++ back).dropWhile CodePoint.isBlank := by
    rw [List.append_assoc, List.dropWhile_append_of_pos hfront]
  have hend : ∀ t : Text, trimEnd (t ++ back) = trimEnd t := by
    intro t
    rw [trimEnd, trimEnd, List.reverse_append,
      List.dropWhile_append_of_pos fun c hc => hback c (List.mem_reverse.mp hc)]
  rw [trim, trim, hdrop, List.dropWhile_append]
  split
  · next hempty =>
    have hnil : t.dropWhile CodePoint.isBlank = [] := by simpa using hempty
    have hblank : back.dropWhile CodePoint.isBlank = [] := List.dropWhile_eq_nil_iff.mpr hback
    rw [hnil, hblank]
  · exact hend _

/-- A text without blanks at its ends is trimmed. -/
theorem trim_eq_self {t : Text} (hhead : ∀ c ∈ t.head?, c.isBlank = false)
    (hlast : ∀ c ∈ t.getLast?, c.isBlank = false) : t.trim = t := by
  have hdrop : ∀ t : Text, (∀ c ∈ t.head?, c.isBlank = false) →
      t.dropWhile CodePoint.isBlank = t := by
    intro t ht
    cases t with
    | nil => rfl
    | cons c t => rw [List.dropWhile_cons_of_neg (by simp [ht c rfl])]
  have hreverse : ∀ c ∈ t.reverse.head?, c.isBlank = false := by
    rw [List.head?_reverse]
    exact hlast
  rw [trim, trimEnd, hdrop t hhead, hdrop _ hreverse, List.reverse_reverse]

/-- No trimmed text ends in a blank. -/
theorem getLast?_trim (t : Text) : ∀ c ∈ t.trim.getLast?, c.isBlank = false := by
  intro c hc
  rw [trim, trimEnd, List.getLast?_reverse] at hc
  have hnot := List.head?_dropWhile_not CodePoint.isBlank
    (t.dropWhile CodePoint.isBlank).reverse
  rw [hc] at hnot
  simpa using hnot

/-- A trimmed text is trimmed to itself. -/
theorem trim_trim (t : Text) : t.trim.trim = t.trim := by
  obtain ⟨front, back, hsplit, hfront, hback⟩ := t.exists_trim
  have hwhole := trim_append hfront hback t.trim
  rw [← hsplit] at hwhole
  exact hwhole.symm

/-- A text of which nothing is left is made of blanks. -/
theorem isBlank_of_trim_eq_nil {t : Text} (h : t.trim = []) : ∀ c ∈ t, c.isBlank := by
  obtain ⟨front, back, hsplit, hfront, hback⟩ := t.exists_trim
  rw [h, List.append_nil] at hsplit
  rw [hsplit]
  exact fun c hc => (List.mem_append.mp hc).elim (hfront c) (hback c)

/-- Nothing is left of blanks alone. -/
theorem trimEnd_eq_nil {t : Text} : t.trimEnd = [] ↔ ∀ c ∈ t, c.isBlank :=
  List.rdropWhile_eq_nil_iff

/-- What is trimmed away at the end stands behind what is left. -/
theorem exists_trimEnd (t : Text) : ∃ back, t = t.trimEnd ++ back := by
  obtain ⟨back, h⟩ := List.rdropWhile_prefix CodePoint.isBlank (l := t)
  exact ⟨back, h.symm⟩

/-- Two parts are trimmed at the end of the second one, or of the first if the second is blank. -/
theorem trimEnd_append (s t : Text) :
    (s ++ t).trimEnd = if t.trimEnd = [] then s.trimEnd else s ++ t.trimEnd := by
  simp only [trimEnd, List.reverse_append, List.dropWhile_append, List.reverse_eq_nil_iff,
    List.isEmpty_iff]
  split
  · rfl
  · rw [List.reverse_append, List.reverse_reverse]

/-- What does not end in a blank is not trimmed at its end. -/
theorem trimEnd_concat {c : CodePoint} (hc : c.isBlank = false) (t : Text) :
    trimEnd (t ++ [c]) = t ++ [c] :=
  List.rdropWhile_concat_neg CodePoint.isBlank t c (by simp [hc])

/-- What begins with no blank is trimmed behind its first code point. -/
theorem trimEnd_cons {c : CodePoint} (hc : c.isBlank = false) (t : Text) :
    trimEnd (c :: t) = c :: t.trimEnd := by
  have hsingle : trimEnd [c] = [c] := trimEnd_concat hc []
  rw [← List.singleton_append, trimEnd_append, hsingle]
  split
  · next h => rw [h]
  · rfl

/-- A text that does not end in a blank is not trimmed at its end. -/
theorem trimEnd_eq_self {t : Text} (hlast : ∀ c ∈ t.getLast?, c.isBlank = false) :
    t.trimEnd = t := by
  rcases List.eq_nil_or_concat' t with rfl | ⟨front, c, rfl⟩
  · rfl
  · exact trimEnd_concat (hlast c (by simp)) front

/-- No trimmed text begins with a blank. -/
theorem head?_trim (t : Text) : ∀ c ∈ t.trim.head?, c.isBlank = false := by
  intro c hc
  have hnot := List.head?_dropWhile_not CodePoint.isBlank t
  rw [trim] at hc
  cases hdrop : t.dropWhile CodePoint.isBlank with
  | nil =>
    rw [hdrop] at hc
    cases hc
  | cons d rest =>
    have hd : d.isBlank = false := by
      rw [hdrop] at hnot
      simpa using hnot
    rw [hdrop, trimEnd_cons hd] at hc
    cases hc
    exact hd

end Text

namespace Lexis

/-- No quote is blank. -/
theorem isBlank_point (q : Quote) : q.point.isBlank = false := by
  cases q <;> decide

/-- A blank opens nothing. -/
theorem opening?_of_isBlank {c : CodePoint} (hc : c.isBlank) (next : Option CodePoint) :
    Mode.opening? c next = none := by
  have hquote : Quote.ofPoint? c = none := by
    cases hq : Quote.ofPoint? c with
    | none => rfl
    | some q =>
      rw [eq_point_of_ofPoint? hq, isBlank_point] at hc
      cases hc
  exact opening?_of_plain hquote (CodePoint.ne_of_isBlank hc (by decide)) next

/-- A blank is no backslash. -/
theorem ne_backslash_of_isBlank {c : CodePoint} (hc : c.isBlank) : c ≠ .scalar '\\' :=
  CodePoint.ne_of_isBlank hc (by decide)

/-- A blank neither opens nor escapes anything. -/
theorem read_blank {c : CodePoint} (hc : c.isBlank) (next : Option CodePoint) :
    (Mode.code false).mark c next = Region.code.mark c ∧
      (Mode.code false).after c next = .code false := by
  have hread := read_point (e := false) (.inr (opening?_of_isBlank hc next))
  rwa [decide_eq_false (ne_backslash_of_isBlank hc), Bool.and_false] at hread

/-- Blanks in front of a text are live code. -/
theorem scanTo_blanks {t : Text} (ht : ∀ c ∈ t, c.isBlank) (next : Option CodePoint) :
    scanTo (.code false) t next = t.map Region.code.mark ∧
      modeTo (.code false) t next = .code false :=
  scanTo_live (fun c hc => opening?_of_isBlank (ht c hc))
    (fun c hc => ne_backslash_of_isBlank (ht c hc)) next

/-- No blank closes a string literal. -/
theorem isString_modeAfter_blanks (q : Quote) (e : Bool) {t : Text} (ht : ∀ c ∈ t, c.isBlank) :
    (modeAfter (.string q e) t).region.isString = true := by
  induction t generalizing e with
  | nil => rfl
  | cons c t ih =>
    have hi := fun e => ih e fun d hd => ht d (List.mem_cons_of_mem c hd)
    have hc : c ≠ q.point := by
      rintro rfl
      have hblank := ht q.point List.mem_cons_self
      cases q <;> revert hblank <;> decide
    rw [modeAfter]
    cases e with
    | true => exact hi false
    | false =>
      rw [Mode.after, if_neg hc]
      exact hi _

/-- Only a solidus and an asterisk change how the code point before them is read. -/
theorem read_of_next {next : Option CodePoint} (hs : next ≠ some (.scalar '/'))
    (ha : next ≠ some (.scalar '*')) (mode : Mode) (c : CodePoint) :
    mode.mark c next = mode.mark c none ∧ mode.after c next = mode.after c none := by
  have hopen : Mode.opening? c next = Mode.opening? c none := by
    unfold Mode.opening?
    split
    · rfl
    · simp [hs, ha]
  constructor
  · unfold Mode.mark
    split
    · rw [hopen]
    · rfl
    · rfl
  · unfold Mode.after
    split
    · rfl
    · rw [hopen]
    · rfl
    · rfl
    · rfl
    · rfl
    · simp [hs]
    · rfl

/-- Before any other code point a piece is read as at the end of a text. -/
theorem scanTo_of_next {next : Option CodePoint} (hs : next ≠ some (.scalar '/'))
    (ha : next ≠ some (.scalar '*')) (mode : Mode) (t : Text) :
    scanTo mode t next = scanTo mode t none ∧ modeTo mode t next = modeTo mode t none := by
  induction t generalizing mode with
  | nil => exact ⟨rfl, rfl⟩
  | cons c t ih =>
    rw [scanTo_cons, modeTo_cons, scanTo_cons, modeTo_cons]
    cases t with
    | nil =>
      have hread := read_of_next hs ha mode c
      simp only [List.head?_nil, Option.none_or]
      rw [hread.1, hread.2]
      exact ⟨rfl, rfl⟩
    | cons d t =>
      simp only [List.head?_cons, Option.some_or]
      have hi := ih (mode.after c (some d))
      rw [hi.1, hi.2]
      exact ⟨rfl, rfl⟩

/-- The marks of a text between blanks are those of the part between them, behind live blanks,
and what follows it is read from its final mode. -/
theorem scan_between {front t back : Text} (hfront : ∀ c ∈ front, c.isBlank)
    (hback : ∀ c ∈ back, c.isBlank) :
    scan (front ++ t ++ back) =
        front.map Region.code.mark ++ (scan t ++ scanFrom (finalMode t) back) ∧
      finalMode (front ++ t ++ back) = modeAfter (finalMode t) back := by
  have hne : ∀ c : CodePoint, c.isBlank = false → back.head? ≠ some c := by
    intro c hc hhead
    rw [hback c (List.mem_of_head? hhead)] at hc
    cases hc
  have hnext := scanTo_of_next (hne (.scalar '/') (by decide)) (hne (.scalar '*') (by decide))
    (.code false) t
  have hblanks := scanTo_blanks hfront (t ++ back).head?
  have hmode : finalMode t = modeTo (.code false) t none := modeAfter_eq_modeTo _ _
  have hmarks : scan t = scanTo (.code false) t none := scanFrom_eq_scanTo _ _
  rw [List.append_assoc, hmode, hmarks]
  constructor
  · rw [scan, Mode.start, scanFrom_append, hblanks.1, hblanks.2, scanFrom_append, hnext.1, hnext.2]
  · rw [finalMode, Mode.start, modeAfter_append, hblanks.2, modeAfter_append, hnext.2]

end Lexis

end SourcePress
