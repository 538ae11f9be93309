import SourcePress.Proofs.Lexis.Grammar
import SourcePress.Proofs.Lexis.Tokens
import SourcePress.Proofs.Repair.Closed

/-!
# The reading of a text

A whole scan stops once at each code point, its segments are the one cut of the text that the
lexical grammar allows, and the status behind the last stop tells of the last segment whether the
end of the text leaves it open.
-/

namespace SourcePress.Lexis

/-- True of a span that lasts only up to the end of the text: nothing closes it, or it is a line
comment, which the end of the text closes. -/
def Span.IsAtEnd (s : Span) : Prop := s.IsUnclosed ∨ s.region = .lineComment

/-- What a whole scan of a text must give, in its stops, its segments and its last status. -/
structure IsReading (t : Text) (stops : List Stop) (segments : List Segment)
    (final : Status) : Prop where
  /-- There is one stop at each offset, in order. -/
  offsets : stops.map Stop.index = List.range t.length
  /-- Each stop shows the code point at its offset. -/
  readPoints : points (stops.map Stop.mark) = t
  /-- The stops of a segment are in its region, and the first one of a construct opens it. -/
  regions : stops.map Stop.mark = (segments.map Segment.span).flatMap Span.marks
  /-- The segments put together are the text. -/
  text : segments.flatMap Segment.text = t
  /-- Each segment starts behind those in front of it. -/
  starts : ∀ front s back, segments = front ++ s :: back →
    s.start = (front.flatMap Segment.text).length
  /-- The segments cut the text by the rules of the grammar. -/
  lexical : IsLexicalCut (segments.map Segment.span)
  /-- No other cut of the text is by the rules of the grammar. -/
  unique : ∀ cut, IsLexicalCut cut → cut.flatMap Span.text = t → cut = segments.map Segment.span
  /-- The text is not terminated if its last segment is a literal or a block comment that nothing
  closes. -/
  terminated : final.isTerminated = false ↔ ∃ s ∈ segments.getLast?, s.span.IsUnclosed
  /-- The construct that is open at the end is the last segment, if it is one that is. -/
  openStart : ∀ n, final.openStart? = some n ↔
    ∃ s ∈ segments.getLast?, s.span.IsAtEnd ∧ s.start = n

/-- The stops of a text have its offsets. -/
theorem map_index_stopsFrom (mode : Mode) (opened : Option Nat) (index : Nat) (t : Text) :
    (stopsFrom mode opened index t).map Stop.index = List.range' index t.length := by
  induction t generalizing mode opened index with
  | nil => rfl
  | cons c t ih =>
    rw [stopsFrom, List.map_cons, ih, List.length_cons, List.range'_succ]

/-- The stops of a text show the marks of its scan. -/
theorem map_mark_stopsFrom (mode : Mode) (opened : Option Nat) (index : Nat) (t : Text) :
    (stopsFrom mode opened index t).map Stop.mark = scanFrom mode t := by
  induction t generalizing mode opened index with
  | nil => rfl
  | cons c t ih => rw [stopsFrom, List.map_cons, ih, scanFrom]

/-- A scan that is pulled to its end stops everywhere and shows the final status. -/
theorem drain_restart (t : Text) :
    (Cursor.ofText t).restart.drain = (stops t, ⟨t, .final t, .ended⟩) := by
  have htake : (stops t).take ((stops t).length + 1) = stops t :=
    List.take_of_length_le (Nat.le_succ _)
  simp [Cursor.drain, Cursor.restart, Cursor.ofText, Cursor.pull, Cursor.ahead, htake]

/-- The final status tells of the open construct what the whole text does. -/
theorem openStart?_final (t : Text) : (Status.final t).openStart? = openStart? t := by
  simp only [Status.openStart?, Status.final, Lexis.openStart?]
  split <;> rfl

/-- Segments start behind those in front of them. -/
theorem start_segmentsAt {n : Nat} {runs : List (List Mark)} {front back : List Segment}
    {s : Segment} (h : segmentsAt n runs = front ++ s :: back) :
    s.start = n + (front.flatMap Segment.text).length := by
  induction runs generalizing n front with
  | nil => cases front <;> cases h
  | cons run runs ih =>
    cases run with
    | nil => exact ih h
    | cons m run =>
      rw [segmentsAt] at h
      cases front with
      | nil =>
        obtain ⟨rfl, -⟩ := List.cons.inj h
        rfl
      | cons first front =>
        obtain ⟨rfl, hrest⟩ := List.cons.inj h
        rw [ih hrest, List.flatMap_cons, List.length_append, Nat.add_assoc]
        simp [points]

/-- The marks of a text are those of its spans. -/
theorem flatMap_marks_spans (t : Text) : (spans t).flatMap Span.marks = scan t := by
  obtain ⟨as, has, rfl⟩ := exists_atomic t
  rw [has.spans_textOf, has.scan_textOf, List.flatMap_def, ← has.runsOf_marksOf, flatten_runsOf]

/-- A construct behind atoms is the last span. -/
theorem spansOf_concat_construct (as : List Atom) {r : Region} (hr : r ≠ .code) (t : Text) :
    spansOf (as ++ [.construct r t]) = spansOf as ++ [⟨r, t⟩] := by
  induction as with
  | nil => rfl
  | cons a as ih =>
    cases a with
    | construct r' t' => rw [List.cons_append, spansOf, ih]; rfl
    | point c =>
      rw [List.cons_append, spansOf, spansOf, ih]
      cases hs : spansOf as with
      | nil => cases r <;> first | exact absurd rfl hr | rfl
      | cons s more =>
        obtain ⟨r', w⟩ := s
        cases r' <;> rfl

/-- Behind a live code point the last span is live. -/
theorem spansOf_concat_point (as : List Atom) (c : CodePoint) :
    ∃ front w, spansOf (as ++ [.point c]) = front ++ [⟨.code, w⟩] := by
  induction as with
  | nil => exact ⟨[], [c], rfl⟩
  | cons a as ih =>
    obtain ⟨front, w, hspans⟩ := ih
    cases a with
    | construct r t =>
      exact ⟨⟨r, t⟩ :: front, w, by rw [List.cons_append, spansOf, hspans]; rfl⟩
    | point d =>
      rcases spansOf_point d (as ++ [.point c]) with ⟨v, more, hrest, heq⟩ | ⟨-, heq⟩
      · rw [List.cons_append, heq]
        rw [hspans] at hrest
        cases front with
        | nil =>
          cases hrest
          exact ⟨[], _, rfl⟩
        | cons s front =>
          obtain ⟨-, rfl⟩ := List.cons.inj hrest
          exact ⟨⟨.code, d :: v⟩ :: front, w, rfl⟩
      · exact ⟨⟨.code, [d]⟩ :: front, w, by rw [List.cons_append, heq, hspans]; rfl⟩

/-- A scan leaves a construct unless the construct lasts only up to the end. -/
theorem Atomic.finalMode_construct {next : Option CodePoint} {e : Bool} {r : Region} {t : Text}
    (h : Atomic next e [.construct r t]) :
    (⟨r, t⟩ : Span).IsAtEnd ∧ (finalMode t).region = r ∨
      ¬(⟨r, t⟩ : Span).IsAtEnd ∧ (finalMode t).region = .code := by
  cases h with
  | @literal q content _ hq =>
    refine .inr ⟨?_, by rw [finalMode_literal hq]; rfl⟩
    rintro (⟨content', heq, hopen⟩ | heq)
    · obtain ⟨-, rfl⟩ := List.cons.inj heq
      exact ((encloses_iff q content).mp hq).2 (hopen content [] rfl)
    · cases heq
  | @unclosedLiteral q content e hq =>
    refine .inl ⟨.inl ⟨content, rfl, (staysOpen_iff q content).mpr ⟨e, hq⟩⟩, ?_⟩
    rw [finalMode_unclosed hq]
    rfl
  | @line body _ hbody =>
    refine .inl ⟨.inr rfl, ?_⟩
    rw [finalMode_line hbody]
    rfl
  | @block body _ hb =>
    refine .inr ⟨?_, by rw [finalMode_block hb]; rfl⟩
    rintro (⟨body', heq, hmarker⟩ | heq)
    · obtain ⟨-, rfl⟩ := List.cons.inj (List.cons.inj heq).2
      exact hmarker (List.infix_append' _ _ _)
    · cases heq
  | @unclosedBlock body hb =>
    refine .inl ⟨.inl ⟨body, rfl, (staysInBlock_iff body).mp hb⟩, ?_⟩
    rw [finalMode_unclosedBlock hb]
    rfl

/-- The last span of a text is its last segment. -/
theorem exists_segments_concat {as : List Atom} (h : Atomic none false as) {ss : List Span}
    {s : Span} (hspans : spansOf as = ss ++ [s]) :
    ∃ front seg, segments (textOf as) = front ++ [seg] ∧ seg.span = s ∧
      front.map Segment.span = ss := by
  rw [← h.spans_textOf, spans, List.map_eq_append_iff] at hspans
  obtain ⟨front, last, hsegments, hfront, hlast⟩ := hspans
  obtain ⟨seg, rest, rfl, hspan, hrest⟩ := List.map_eq_cons_iff.mp hlast
  rw [List.map_eq_nil_iff] at hrest
  exact ⟨front, seg, by rw [hsegments, hrest], hspan, hfront⟩

/-- The last segment of a text lasts only up to the end and is the last construct that was opened,
or the scan has left it. -/
theorem exists_last_segment {t : Text} (hne : t ≠ []) :
    ∃ front s, segments t = front ++ [s] ∧
      (s.span.IsAtEnd ∧ (finalMode t).region = s.region ∧ s.region ≠ .code ∧
          openStart? t = some s.start ∨
        ¬s.span.IsAtEnd ∧ (finalMode t).region = .code) := by
  obtain ⟨as, has, rfl⟩ := exists_atomic t
  have hnil : as ≠ [] := by
    rintro rfl
    exact hne rfl
  obtain ⟨before, a, rfl⟩ := (List.eq_nil_or_concat' as).resolve_left hnil
  have hregion : (finalMode (textOf (before ++ [a]))).region = a.endRegion := by
    rw [finalMode, Mode.start, has.region_modeAfter, List.getLast?_concat]
    rfl
  cases a with
  | point c =>
    obtain ⟨ss, w, hspans⟩ := spansOf_concat_point before c
    obtain ⟨front, seg, hsegments, hspan, -⟩ := exists_segments_concat has hspans
    refine ⟨front, seg, hsegments, .inr ⟨?_, hregion⟩⟩
    rw [hspan]
    rintro (hunclosed | hline)
    · exact hunclosed
    · cases hline
  | construct r t =>
    obtain ⟨hr, c, t', rfl⟩ := has.construct_ne (List.mem_append_right before (.head []))
    obtain ⟨front, seg, hsegments, hspan, hfront⟩ :=
      exists_segments_concat has (spansOf_concat_construct before hr (c :: t'))
    have hseg : seg.region = r := congrArg Span.region hspan
    have hstart : seg.start = (textOf before).length := by
      rw [start_segmentsAt hsegments, Nat.zero_add, ← flatMap_text_spansOf, ← hfront,
        List.flatMap_map]
      rfl
    refine ⟨front, seg, hsegments, ?_⟩
    rw [hspan, hseg, hregion, hstart]
    rcases has.of_append.2.finalMode_construct with ⟨hend, hmode⟩ | ⟨hend, hmode⟩
    · refine .inl ⟨hend, hmode, hr, ?_⟩
      have hlength : (marksOf before).length = (textOf before).length := by
        rw [← points_marksOf, points, List.length_map]
      have hmarks : marksOf (before ++ [.construct r (c :: t')]) =
          marksOf before ++ r.construct (c :: t') := by
        rw [marksOf_append, marksOf_cons, marksOf_nil, List.append_nil]
        rfl
      rw [openStart?, hregion, Atom.endRegion, hmode, isLive_eq_false hr, has.scan_textOf, hmarks,
        lastOpening?_append, Repair.lastOpening?_construct, hlength]
      rfl
    · exact .inr ⟨hend, hmode⟩

/-- A text is not terminated if nothing closes its last segment. -/
theorem isTerminated_eq_false_iff (t : Text) :
    isTerminated t = false ↔ ∃ s ∈ (segments t).getLast?, s.span.IsUnclosed := by
  by_cases hne : t = []
  · subst hne
    exact iff_of_false (by decide) (by rintro ⟨s, hs, -⟩; cases hs)
  obtain ⟨front, ⟨r, w, n⟩, hs, ⟨hend, hmode, -, -⟩ | ⟨hend, hmode⟩⟩ := exists_last_segment hne
  · rw [hs, List.getLast?_concat, isTerminated, Mode.isTerminated, hmode]
    cases r <;> simp_all [Span.IsAtEnd, Span.IsUnclosed, Segment.span]
  · rw [hs, List.getLast?_concat, isTerminated, Mode.isTerminated, hmode]
    simpa using fun hunclosed => hend (.inl hunclosed)

/-- The construct that is open at the end of a text is its last segment, if it lasts only up to
there. -/
theorem openStart?_eq_some_iff (t : Text) (n : Nat) :
    openStart? t = some n ↔ ∃ s ∈ (segments t).getLast?, s.span.IsAtEnd ∧ s.start = n := by
  by_cases hne : t = []
  · subst hne
    have hnone : openStart? [] = none := rfl
    exact iff_of_false (by simp [hnone]) (by rintro ⟨s, hs, -⟩; cases hs)
  obtain ⟨front, s, hs, ⟨hend, -, -, hstart⟩ | ⟨hend, hmode⟩⟩ := exists_last_segment hne
  · rw [hs, List.getLast?_concat, hstart]
    simp [hend]
  · rw [hs, List.getLast?_concat, openStart?, hmode]
    simp [Region.isLive, hend]

/-- A whole scan of a text gives its segments by the lexical grammar, in no other way than the
grammar allows, and its last status tells how the text ends. -/
theorem lexical_grammar (t : Text) :
    IsReading t (Cursor.ofText t).restart.drain.1 (Cursor.ofText t).segments.1
      (Cursor.ofText t).restart.drain.2.status := by
  have hmarks : (stops t).map Stop.mark = scan t := map_mark_stopsFrom _ _ _ _
  rw [drain_restart]
  exact
    { offsets := by
        rw [stops, map_index_stopsFrom, List.range_eq_range']
      readPoints := by rw [hmarks, scan, points_scanFrom]
      regions := by rw [hmarks, ← flatMap_marks_spans]; rfl
      text := flatMap_text_segments t
      starts := fun front s back h => by rw [start_segmentsAt h, Nat.zero_add]
      lexical := isLexicalCut_spans t
      unique := fun cut hcut htext => hcut.eq_spans htext
      terminated := isTerminated_eq_false_iff t
      openStart := fun n => by rw [openStart?_final]; exact openStart?_eq_some_iff t n }

end SourcePress.Lexis
