import SourcePress.Proofs.Script.Balance
import SourcePress.Proofs.Script.CompactMarks

/-!
# Compact code read again

Compact code is scanned to the marks that its code points have in the code it was made from, and
the spaces between them are live. One thing can go wrong: a live solidus that is moved next to
another solidus or to an asterisk opens a comment. Where no such two are brought together, compact
code keeps its string literals, is compact itself, needs no further minifying and is valid if the
code is.
-/

namespace SourcePress.Script

open Lexis

/-- What the state of the scan of compact code may be, given that of the scan of the code: with a
gap open nothing is escaped in the code, without one the two states agree, and what is escaped in
the compact code follows a backslash that was kept last. -/
structure InStep (escaped : Bool) (previous : Option CodePoint) (gap escaped' : Bool) : Prop where
  /-- Only a kept backslash escapes. -/
  behindBackslash : escaped' = true → previous = some (.scalar '\\')
  /-- Nothing is escaped behind what was left out. -/
  behindGap : gap = true → escaped = false
  /-- Without a gap the states agree. -/
  withoutGap : gap = false → escaped' = escaped

namespace InStep

variable {e e' gap : Bool} {previous : Option CodePoint}

/-- A code point that is escaped in the code follows no gap. -/
theorem gap_eq_false (h : InStep e previous gap e') (he : e = true) : gap = false := by
  cases gap with
  | false => rfl
  | true => exact absurd he (by rw [h.behindGap rfl]; exact Bool.false_ne_true)

/-- Behind the space that stays, or where none does, the states agree before all but live
punctuation. -/
theorem escapedBehind_gap (h : InStep e previous gap e') {m : Mark}
    (hm : (m.isLive && isPunctuation m.point) = false) :
    escapedBehind e' ((gapBefore previous gap m).map .point) = e := by
  cases gap with
  | false => rw [gapBefore_false]; exact h.withoutGap rfl
  | true =>
    rw [h.behindGap rfl]
    rcases gapBefore_eq previous true m with hgap | ⟨-, hgap⟩
    · rw [hgap]
      refine Bool.eq_false_iff.mpr fun he' => ?_
      have hsign : (m.isLive && (m.point = .scalar '+' || m.point = .scalar '-')) = false := by
        rw [Bool.and_eq_false_iff] at hm ⊢
        refine hm.imp_right fun hpoint => ?_
        rw [Bool.or_eq_false_iff, decide_eq_false_iff_not, decide_eq_false_iff_not]
        constructor
        · rintro hplus
          rw [hplus] at hpoint
          exact absurd hpoint (by decide)
        · rintro hminus
          rw [hminus] at hpoint
          exact absurd hpoint (by decide)
      have hspace : needsSpace (.scalar '\\') m = true := by
        rw [needsSpace, hsign, hm]
        rfl
      rw [h.behindBackslash he', gapBefore, hspace] at hgap
      exact absurd hgap (by simp)
    · rw [hgap]
      simp [escapedBehind, Atom.escapes]

/-- The states agree behind a kept code point. -/
theorem keep (h : InStep e previous gap e') (c : CodePoint) :
    InStep (!e && c = '\\') (some c) false
      (!(escapedBehind e' ((gapBefore previous gap (Region.code.mark c)).map .point)) &&
        c = '\\') := by
  by_cases hc : c = .scalar '\\'
  · subst hc
    rw [h.escapedBehind_gap (by decide)]
    exact ⟨fun _ => rfl, fun hgap => absurd hgap Bool.false_ne_true, fun _ => rfl⟩
  · simp only [hc, decide_false, Bool.and_false]
    exact ⟨fun h => absurd h Bool.false_ne_true, fun _ => rfl, fun _ => rfl⟩

/-- Nothing is escaped behind a string literal. -/
theorem literal (previous : Option CodePoint) : InStep false previous false false :=
  ⟨fun h => absurd h Bool.false_ne_true, fun _ => rfl, fun _ => rfl⟩

/-- What is left out leaves a gap, and nothing is escaped behind it in the code. -/
theorem drop (h : InStep e previous gap e') : InStep false previous true e' :=
  ⟨h.behindBackslash, fun _ => rfl, fun hgap => absurd hgap.symm Bool.false_ne_true⟩

end InStep

/-- True of an atom that compact code keeps: a string literal, or a live code point that is not
blank. -/
def isKept : Atom → Bool
  | .point c => !c.isBlank
  | .construct r _ => r.isString

/-- All marks of a construct are left out if it is a comment, and kept if it is none. -/
theorem isDropped_construct {r : Region} (hr : r ≠ .code) (t : Text) :
    ∀ m ∈ r.construct t, isDropped m = r.isComment := by
  intro m hm
  have hregion := region_of_mem_construct hm
  subst hregion
  rw [isDropped, Mark.isLive, isLive_eq_false hr, Bool.false_and, Bool.or_false]
  rfl

/-- The mark that is kept next is live or that of a quote. -/
theorem live?_nextKept? {next : Option CodePoint} {e : Bool} {as : List Atom}
    (h : Atomic next e as) :
    ∀ n ∈ nextKept? (marksOf as), n.live? = some n.point ∨ ∃ q : Quote, n.point = q.point := by
  have hcomment : ∀ {r : Region} {t : Text} {as : List Atom}, r ≠ .code → r.isComment = true →
      nextKept? (marksOf (.construct r t :: as)) = nextKept? (marksOf as) := by
    intro r t as hcode hr
    have hnone : (r.construct t).find? (fun m => !isDropped m) = none :=
      List.find?_eq_none.mpr fun m hm => by simp [isDropped_construct hcode t m hm, hr]
    rw [nextKept?, marksOf_cons, Atom.marks, List.find?_append, hnone, Option.none_or]
    rfl
  induction h with
  | nil => simp [nextKept?]
  | @point e c rest _ _ ih =>
    intro n hn
    rw [marksOf_cons, Atom.marks, List.singleton_append, nextKept?_cons] at hn
    split at hn
    · exact ih n hn
    · cases hn
      exact .inl rfl
  | @literal q =>
    rintro n ⟨⟩
    exact .inr ⟨q, rfl⟩
  | @unclosedLiteral q =>
    rintro n ⟨⟩
    exact .inr ⟨q, rfl⟩
  | line _ _ _ ih =>
    rw [hcomment (by simp) rfl]
    exact ih
  | block _ _ ih =>
    rw [hcomment (by simp) rfl]
    exact ih
  | unclosedBlock =>
    rw [hcomment (by simp) rfl]
    simp [nextKept?]

/-- A kept code point that opens nothing in the code opens nothing in compact code, unless it is
brought together with what completes a marker. -/
theorem opening?_compact {c : CodePoint} {next : Option CodePoint} {e : Bool} {rest : List Atom}
    (h : Atomic next e rest)
    (hglue : gluesMarker (Region.code.mark c :: marksOf rest) = false)
    (hopen : Mode.opening? c (textOf rest).head? = none) :
    Mode.opening? c (compactFrom (some c) false (marksOf rest)).head? = none := by
  have hquote := ofPoint?_of_opening? hopen
  -- of what is no quote only a solidus can open something, with the kept mark that comes behind it
  by_cases hc : c = .scalar '/'
  · subst hc
    have hnext : ∀ n ∈ nextKept? (marksOf rest),
        n.point ≠ .scalar '/' ∧ n.point ≠ .scalar '*' := by
      intro n hn
      rcases live?_nextKept? h n hn with hlive | ⟨q, hq⟩
      · rw [← points_marksOf] at hopen
        cases hms : marksOf rest with
        | nil =>
          rw [hms] at hn
          cases hn
        | cons m ms =>
          rw [hms] at hn hglue hopen
          cases hm : isDropped m with
          | true =>
            have hends : endsMarker n = false := by
              rw [gluesMarker, Bool.or_eq_false_iff, Option.mem_def.mp hn] at hglue
              simpa [hm, isSolidus, Mark.live?, Mark.isLive, Region.isLive] using hglue.1
            simpa [endsMarker, isSolidus, hlive] using hends
          | false =>
            rw [nextKept?_cons, hm] at hn
            cases hn
            have hnot : ∀ d : CodePoint, Mode.opening? (.scalar '/') (some d) ≠ none →
                n.point ≠ d := by
              rintro d hd rfl
              exact hd hopen
            exact ⟨hnot _ (by decide), hnot _ (by decide)⟩
      · rw [hq]
        cases q <;> decide
    rw [head?_compactFrom_solidus]
    refine opening?_of_next hquote ?_ ?_
    · rw [Ne, Option.map_eq_some_iff]
      rintro ⟨n, hn, hpoint⟩
      exact (hnext n hn).1 hpoint
    · rw [Ne, Option.map_eq_some_iff]
      rintro ⟨n, hn, hpoint⟩
      exact (hnext n hn).2 hpoint
  · exact opening?_of_plain hquote hc _

/-- What stays before a kept mark may stand in front of atoms. -/
theorem atomic_gapBefore {e : Bool} {previous : Option CodePoint} {gap : Bool} {m : Mark}
    {as : List Atom}
    (h : Atomic none (escapedBehind e ((gapBefore previous gap m).map .point)) as) :
    Atomic none e ((gapBefore previous gap m).map .point ++ as) := by
  rcases gapBefore_eq previous gap m with hgap | ⟨-, hgap⟩
  · rw [hgap] at h ⊢
    exact h
  · rw [hgap] at h ⊢
    exact .point (.inr (opening?_of_plain rfl (by decide) _)) h

/-- The space that may stay before a kept mark is no kept atom. -/
theorem filter_isKept_gapBefore (previous : Option CodePoint) (gap : Bool) (m : Mark)
    (as : List Atom) :
    ((gapBefore previous gap m).map Atom.point ++ as).filter isKept = as.filter isKept := by
  have hspace : isKept (.point (.scalar ' ')) = false := by decide
  rcases gapBefore_eq previous gap m with hgap | ⟨-, hgap⟩
  · simp [hgap]
  · simp [hgap, hspace]

/-- What the compact code of atoms must be read as, from a state of its scan: atoms with the marks
of compact code, of which the kept ones are those of the code. -/
structure IsCompactOf (escaped : Bool) (previous : Option CodePoint) (gap : Bool)
    (as out : List Atom) : Prop where
  /-- The atoms are what compact code is read as. -/
  atomic : Atomic none escaped out
  /-- They have the marks of compact code. -/
  marks : marksOf out = compactMarksFrom previous gap (marksOf as)
  /-- The kept atoms stay as they are. -/
  kept : out.filter isKept = as.filter isKept

namespace IsCompactOf

variable {e e' gap : Bool} {previous : Option CodePoint} {as out : List Atom}

/-- A comment is left out. -/
theorem comment (h : IsCompactOf e' previous true as out) {r : Region} (hr : r ≠ .code)
    (hcomment : r.isComment = true) {t : Text} (ht : t ≠ []) :
    IsCompactOf e' previous gap (.construct r t :: as) out where
  atomic := h.atomic
  marks := by
    have hne : r.construct t ≠ [] := by
      obtain ⟨c, t, rfl⟩ := List.exists_cons_of_ne_nil ht
      exact List.cons_ne_nil _ _
    have hdropped : ∀ m ∈ r.construct t, isDropped m = true := fun m hm => by
      rw [isDropped_construct hr t m hm, hcomment]
    rw [h.marks, marksOf_cons, Atom.marks, compactMarksFrom_dropped hne hdropped]
  kept := by
    have hnot : isKept (.construct r t) = false := by
      cases r <;> first | rfl | cases hcomment
    rw [h.kept, List.filter_cons_of_neg (by simp [hnot])]

/-- A live blank is left out. -/
theorem blank (h : IsCompactOf e' previous true as out) {c : CodePoint} (hc : c.isBlank) :
    IsCompactOf e' previous gap (.point c :: as) out where
  atomic := h.atomic
  marks := by
    have hdropped : isDropped (Region.code.mark c) = true := by
      simp [isDropped, Mark.isLive, Region.isLive, hc]
    rw [h.marks, marksOf_cons, Atom.marks, List.singleton_append, compactMarksFrom, hdropped]
    rfl
  kept := by rw [h.kept, List.filter_cons_of_neg (by simp [isKept, hc])]

/-- A live code point that is not blank is kept, behind the space that may stay before it. -/
theorem point (hstep : InStep e previous gap e') {c : CodePoint} (hc : c.isBlank = false)
    (hopen : e = true ∨ Mode.opening? c (textOf out).head? = none)
    (h : IsCompactOf
      (!(escapedBehind e' ((gapBefore previous gap (Region.code.mark c)).map .point)) && c = '\\')
      (some c) false as out) :
    IsCompactOf e' previous gap (.point c :: as)
      ((gapBefore previous gap (Region.code.mark c)).map .point ++ .point c :: out) where
  atomic := by
    refine atomic_gapBefore (.point ?_ h.atomic)
    rw [Option.or_none]
    refine hopen.imp_left fun he => ?_
    -- what is escaped in the code is not behind a gap, and it is escaped in compact code as well
    have hgap := hstep.gap_eq_false he
    subst hgap
    rw [gapBefore_false]
    exact (hstep.withoutGap rfl).trans he
  marks := by
    have hkept : isDropped (Region.code.mark c) = false := by
      simp [isDropped, Mark.isComment, Region.isComment, hc]
    rw [marksOf_append, marksOf_map_point, marksOf_cons, marksOf_cons, h.marks, Atom.marks,
      List.singleton_append, List.singleton_append, compactMarksFrom, hkept]
    rfl
  kept := by
    have hkept : isKept (.point c) = true := by simp [isKept, hc]
    rw [filter_isKept_gapBefore, List.filter_cons_of_pos hkept, List.filter_cons_of_pos hkept,
      h.kept]

/-- A string literal is kept, behind the space that may stay before it. -/
theorem literal (hstep : InStep false previous gap e') {q : Quote} {t : Text}
    (hatomic : ∀ out, Atomic none false out → (as = [] → out = []) →
      Atomic none false (.construct (.string q) (q.point :: t) :: out))
    (h : ∀ p', ∃ out, IsCompactOf false (some p') false as out) :
    ∃ out, IsCompactOf e' previous gap (.construct (.string q) (q.point :: t) :: as) out := by
  have hdropped := isDropped_construct (r := .string q) (by simp) (q.point :: t)
  have htail : ∀ m ∈ t.map (Region.string q).mark, isDropped m = false := fun m hm =>
    hdropped m (List.mem_cons_of_mem _ hm)
  obtain ⟨p', hp⟩ := compactMarksFrom_kept htail q.point (marksOf as)
  obtain ⟨out, hout⟩ := h p'
  have hend : as = [] → out = [] := by
    rintro rfl
    refine hout.atomic.eq_nil_of_textOf ?_
    rw [← points_marksOf, hout.marks]
    rfl
  let m : Mark := ⟨q.point, .string q, true⟩
  refine ⟨(gapBefore previous gap m).map .point ++ .construct (.string q) (q.point :: t) :: out,
    atomic_gapBefore ?_, ?_, ?_⟩
  · rw [hstep.escapedBehind_gap rfl]
    exact hatomic out hout.atomic hend
  · have hkept : isDropped m = false := rfl
    rw [marksOf_append, marksOf_map_point, marksOf_cons, marksOf_cons, hout.marks, Atom.marks,
      Region.construct, List.cons_append, List.cons_append, compactMarksFrom, hkept, hp]
    rfl
  · rw [filter_isKept_gapBefore, List.filter_cons_of_pos rfl, List.filter_cons_of_pos rfl,
      hout.kept]

end IsCompactOf

/-- The compact code of atoms is read as atoms: the kept ones stay as they are. -/
theorem exists_isCompactOf {e e' gap : Bool} {previous : Option CodePoint} {as : List Atom}
    (h : Atomic none e as) (hstep : InStep e previous gap e')
    (hglue : gluesMarker (marksOf as) = false) :
    ∃ out, IsCompactOf e' previous gap as out := by
  induction h generalizing e' gap previous with
  | nil e => exact ⟨[], .nil e', rfl, rfl⟩
  | @point e c rest hopen hrest ih =>
    have hglue' : gluesMarker (marksOf rest) = false := gluesMarker_of_append hglue
    cases hc : c.isBlank with
    | true =>
      have hescape : (!e && c = '\\') = false := by
        rw [Bool.and_eq_false_iff, decide_eq_false_iff_not]
        exact .inr (ne_backslash_of_isBlank hc)
      rw [hescape] at ih
      obtain ⟨out, hout⟩ := ih hstep.drop hglue'
      exact ⟨out, hout.blank hc⟩
    | false =>
      obtain ⟨out, hout⟩ := ih (hstep.keep c) hglue'
      refine ⟨_, .point hstep hc (hopen.imp_right fun hnone => ?_) hout⟩
      rw [← points_marksOf, hout.marks, points_compactMarksFrom]
      rw [Option.or_none] at hnone
      exact opening?_compact hrest hglue hnone
  | @literal q content rest hq _ ih =>
    refine IsCompactOf.literal hstep (fun out hout _ => .literal hq hout) fun p' => ?_
    exact ih (.literal (some p')) (gluesMarker_of_append hglue)
  | @unclosedLiteral q content e hq hend =>
    refine IsCompactOf.literal hstep (fun out _ hnil => ?_) fun p' => ⟨[], .nil false, rfl, rfl⟩
    rw [hnil rfl]
    exact .unclosedLiteral hq hend
  | line _ _ _ ih =>
    obtain ⟨out, hout⟩ := ih hstep.drop (gluesMarker_of_append hglue)
    exact ⟨out, hout.comment (by simp) rfl (by simp)⟩
  | block _ _ ih =>
    obtain ⟨out, hout⟩ := ih hstep.drop (gluesMarker_of_append hglue)
    exact ⟨out, hout.comment (by simp) rfl (by simp [blockText])⟩
  | unclosedBlock =>
    have hnil : IsCompactOf e' previous true [] [] := ⟨.nil e', rfl, rfl⟩
    exact ⟨[], hnil.comment (by simp) rfl (by simp)⟩

/-- A construct that compact code is read with is kept. -/
theorem IsCompactOf.isKept_of_isOpen {e' gap : Bool} {previous : Option CodePoint}
    {as out : List Atom} (h : IsCompactOf e' previous gap as out) {a : Atom} (ha : a ∈ out)
    (hopen : a.isOpen = true) : isKept a = true := by
  cases a with
  | point c => cases hopen
  | construct r t =>
    obtain ⟨hr, c, t', rfl⟩ := h.atomic.construct_ne ha
    have hmem : (⟨c, r, true⟩ : Mark) ∈ marksOf out :=
      List.mem_flatMap.mpr ⟨_, ha, List.mem_cons_self⟩
    have hdropped : isDropped ⟨c, r, true⟩ = r.isComment :=
      isDropped_construct hr (c :: t') _ List.mem_cons_self
    rw [h.marks] at hmem
    rcases mem_compactMarksFrom hmem with hkept | hspace
    · rw [hdropped] at hkept
      cases r <;> first | exact absurd rfl hr | rfl | cases hkept
    · cases hspace

/-- Of atoms that do not end in a block comment, only kept ones are open. -/
theorem any_isOpen_filter_isKept {e : Bool} {as : List Atom} (h : Atomic none e as)
    (hend : ∀ a ∈ as.getLast?, a.endRegion ≠ .blockComment) :
    (as.filter isKept).any Atom.isOpen = as.any Atom.isOpen := by
  induction as generalizing e with
  | nil => rfl
  | cons a as ih =>
    cases as with
    | nil =>
      cases ha : isKept a with
      | true => rw [List.filter_cons_of_pos ha]; rfl
      | false =>
        rw [List.filter_cons_of_neg (by simp [ha])]
        cases a with
        | point c => rfl
        | construct r t =>
          have hlast : (finalMode t).region ≠ .blockComment := hend _ rfl
          have hclosed : isTerminated t = true := by
            rw [isTerminated, Mode.isTerminated]
            rcases h.finalMode_construct with ⟨-, hmode⟩ | ⟨-, hmode⟩
            · rw [hmode] at hlast ⊢
              cases r <;> first | rfl | exact absurd rfl hlast | cases ha
            · rw [hmode]
          simp [Atom.isOpen, hclosed]
    | cons b as =>
      have hclosed : a.isOpen = false := (h.modeAfter_cons (List.cons_ne_nil b as)).1
      have hi := ih h.tail (by rwa [List.getLast?_cons_cons] at hend)
      rw [List.any_cons, hclosed, Bool.false_or, ← hi]
      cases ha : isKept a with
      | true => rw [List.filter_cons_of_pos ha, List.any_cons, hclosed, Bool.false_or]
      | false => rw [List.filter_cons_of_neg (by simp [ha])]

/-- Code in which no marker is glued is read as atoms, and so is its compact code. -/
theorem exists_isCompactOf_textOf {code : Text} (hglue : gluesMarker (scan code) = false) :
    ∃ as out, textOf as = code ∧ textOf out = compact code ∧ Atomic none false as ∧
      IsCompactOf false none false as out := by
  obtain ⟨as, has, rfl⟩ := exists_atomic code
  have hstep : InStep false none false false := .literal none
  obtain ⟨out, hout⟩ := exists_isCompactOf has hstep (has.scan_textOf ▸ hglue)
  refine ⟨as, out, rfl, ?_, has, hout⟩
  rw [← points_marksOf, hout.marks, points_compactMarksFrom, compact, has.scan_textOf]

/-- The scan of compact code in which no marker was glued. -/
theorem scan_compact {code : Text} (hglue : gluesMarker (scan code) = false) :
    scan (compact code) = compactMarksFrom none false (scan code) := by
  obtain ⟨as, out, rfl, htext, has, hout⟩ := exists_isCompactOf_textOf hglue
  rw [← htext, hout.atomic.scan_textOf, hout.marks, has.scan_textOf]

/-- Minified code is compact code where no marker was glued. -/
theorem minify_eq_compact {code : Text} (hglue : gluesMarker (scan code) = false) :
    minify code = compact code := by
  rw [minify, scan_compact hglue, filter_isLiveLineEnd, points_compactMarksFrom, compact]

/-- Compact code is terminated if the code is, unless the code ends inside a block comment. -/
theorem isTerminated_compact {code : Text} (hglue : gluesMarker (scan code) = false)
    (hend : (finalMode code).region ≠ .blockComment) :
    isTerminated (compact code) = isTerminated code := by
  obtain ⟨as, out, rfl, htext, has, hout⟩ := exists_isCompactOf_textOf hglue
  have hlast : ∀ a ∈ as.getLast?, a.endRegion ≠ .blockComment := by
    intro a ha
    rwa [finalMode, Mode.start, has.region_modeAfter, Option.mem_def.mp ha] at hend
  have hany : out.any Atom.isOpen = (out.filter isKept).any Atom.isOpen := by
    rw [List.any_filter, Bool.eq_iff_iff, List.any_eq_true, List.any_eq_true]
    constructor
    · rintro ⟨a, ha, hopen⟩
      exact ⟨a, ha, by rw [hout.isKept_of_isOpen ha hopen, hopen]; rfl⟩
    · rintro ⟨a, ha, hopen⟩
      exact ⟨a, ha, (Bool.and_eq_true_iff.mp hopen).2⟩
  have hcompact : isTerminated (textOf out) = !out.any Atom.isOpen :=
    hout.atomic.isTerminated_modeAfter
  have hcode : isTerminated (textOf as) = !as.any Atom.isOpen := has.isTerminated_modeAfter
  rw [← htext, hcompact, hcode, hany, hout.kept, any_isOpen_filter_isKept has hlast]

/-- Where no marker is glued, compact code keeps what the code means to the scan: each kept code
point has the mark that it had, each space is live, nothing is left to minify, and the compact code
is valid if the code is, unless the code ends inside a block comment. -/
theorem compact_keeps_marks {code : Text} (hglue : gluesMarker (scan code) = false) :
    scan (compact code) = compactMarksFrom none false (scan code) ∧
      ((scan (compact code)).filter fun m => !isDropped m) =
        ((scan code).filter fun m => !isDropped m) ∧
      minify code = compact code ∧
      ((finalMode code).region ≠ .blockComment →
        (validate (compact code) = .ok validMessage ↔ validate code = .ok validMessage)) := by
  have hscan := scan_compact hglue
  have hkept : ((scan (compact code)).filter fun m => !isDropped m) =
      (scan code).filter fun m => !isDropped m := by
    rw [hscan, filter_compactMarksFrom]
  refine ⟨hscan, hkept, minify_eq_compact hglue, fun hend => ?_⟩
  rw [validate_eq_ok_iff, validate_eq_ok_iff, significant_eq_kept, significant_eq_kept, hkept,
    isTerminated_compact hglue hend]

/-- Code with comments, literals and a backslash whose escape moves to the next kept mark. -/
def scriptSample : Text := "a = b / c; // d\n f('e', \\ + `g\nh`); /* i */ j"

/-- No marker is glued in the sample. -/
theorem gluesMarker_scriptSample : gluesMarker (scan scriptSample) = false := by decide

/-- The compact code of the sample is scanned to the marks of the sample. -/
theorem compact_keeps_marks_sample :
    (scan (compact scriptSample) = compactMarksFrom none false (scan scriptSample) ∧
      ((scan (compact scriptSample)).filter fun m => !isDropped m) =
        ((scan scriptSample).filter fun m => !isDropped m)) ∧
      minify scriptSample = compact scriptSample ∧
      (validate (compact scriptSample) = .ok validMessage ↔
        validate scriptSample = .ok validMessage) := by
  have hend : (finalMode scriptSample).region ≠ .blockComment := by decide
  obtain ⟨hscan, hkept, hminify, hvalid⟩ := compact_keeps_marks gluesMarker_scriptSample
  exact ⟨⟨hscan, hkept⟩, hminify, hvalid hend⟩

example : compact scriptSample = "a=b/c;f('e',\\+`g\nh`);j" := by decide

/-- The string literals of atoms are those of the kept ones. -/
theorem filterMap_literal?_filter_isKept (as : List Atom) :
    (as.filter isKept).filterMap Atom.literal? = as.filterMap Atom.literal? := by
  induction as with
  | nil => rfl
  | cons a as ih =>
    cases ha : isKept a with
    | true => rw [List.filter_cons_of_pos ha, List.filterMap_cons, List.filterMap_cons, ih]
    | false =>
      have hnone : a.literal? = none := by
        cases a with
        | point c => rfl
        | construct r t => cases r <;> first | rfl | cases ha
      rw [List.filter_cons_of_neg (by simp [ha]), List.filterMap_cons_none hnone, ih]

/-- Where no marker is glued, compact code is compact itself, and minified code has the string
literals of the code. -/
theorem compact_stable {code : Text} (hglue : gluesMarker (scan code) = false) :
    compact (compact code) = compact code ∧
      Repair.stringSegments (minify code) = Repair.stringSegments code := by
  constructor
  · rw [compact, scan_compact hglue, compactFrom_compactMarksFrom, compact]
  · rw [minify_eq_compact hglue]
    obtain ⟨as, out, rfl, htext, has, hout⟩ := exists_isCompactOf_textOf hglue
    rw [← htext, hout.atomic.stringSegments_textOf, has.stringSegments_textOf,
      ← filterMap_literal?_filter_isKept out, hout.kept, filterMap_literal?_filter_isKept]

/-- The compact code of the sample is compact, and minified it has the literals of the sample. -/
theorem compact_stable_sample :
    compact (compact scriptSample) = compact scriptSample ∧
      Repair.stringSegments (minify scriptSample) = Repair.stringSegments scriptSample :=
  compact_stable gluesMarker_scriptSample

/-- Code in which a solidus is moved next to another one, in front of a literal. -/
def gluedSample : Text := "a / /b/.test(`x\ny`)"

/-- Where a marker is glued, compact code may not be compact, and a literal may be lost. -/
theorem compact_not_stable :
    compact (compact gluedSample) ≠ compact gluedSample ∧
      Repair.stringSegments (minify gluedSample) ≠ Repair.stringSegments gluedSample := by
  decide

end SourcePress.Script
