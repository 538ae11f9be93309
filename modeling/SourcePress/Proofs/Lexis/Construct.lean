import SourcePress.Proofs.Lexis.Splitting

/-!
# String literals and comments as whole constructs

A string literal goes on to the first quote of its own kind that no backslash escapes, a line
comment to the end of its line, a block comment to the first closing marker. Each construct, read in
live code, is marked from its first code point to its last one, and a closed one leaves the scan in
live code again whatever stands behind it.
-/

namespace SourcePress.Lexis

/-- The mark of a code point of a region that opens nothing. -/
def Region.mark (r : Region) (c : CodePoint) : Mark := ⟨c, r, false⟩

/-- The marks of a whole construct: only the first one opens. -/
def Region.construct (r : Region) : Text → List Mark
  | [] => []
  | c :: rest => ⟨c, r, true⟩ :: rest.map r.mark

@[simp] theorem Region.mark_point (r : Region) (c : CodePoint) : (r.mark c).point = c := rfl

@[simp] theorem Region.mark_region (r : Region) (c : CodePoint) : (r.mark c).region = r := rfl

@[simp] theorem Region.mark_opens (r : Region) (c : CodePoint) : (r.mark c).opens = false := rfl

@[simp] theorem points_map_mark (r : Region) (t : Text) : points (t.map r.mark) = t := by
  simp [points, Function.comp_def]

@[simp] theorem Region.points_construct (r : Region) (t : Text) : points (r.construct t) = t := by
  cases t with
  | nil => rfl
  | cons c t => rw [Region.construct, points_cons, points_map_mark]

/-- The marks of a construct lie in its region. -/
theorem region_of_mem_construct {r : Region} {t : Text} {m : Mark} (h : m ∈ r.construct t) :
    m.region = r := by
  cases t with
  | nil => cases h
  | cons c t =>
    rcases List.mem_cons.mp h with rfl | h
    · rfl
    · obtain ⟨_, _, rfl⟩ := List.mem_map.mp h
      rfl

/-- A construct is one run of marks, wherever two marks of its region are joined unless the second
one opens. -/
theorem Region.isChain_construct {r : Region} {joined : Mark → Mark → Bool}
    (hjoined : ∀ a b : Mark, a.region = r → b.region = r → b.opens = false → joined a b = true)
    (t : Text) : (r.construct t).IsChain fun a b => joined a b := by
  cases t with
  | nil => exact List.isChain_nil
  | cons c t =>
    rw [Region.construct]
    -- only the first mark opens, so the induction is on the marks behind any mark of the region
    generalize hm : (⟨c, r, true⟩ : Mark) = m
    have hregion : m.region = r := by rw [← hm]
    clear hm
    induction t generalizing m with
    | nil => exact List.isChain_singleton m
    | cons d t ih =>
      exact List.isChain_cons_cons.mpr ⟨hjoined m (r.mark d) hregion rfl rfl, ih (r.mark d) rfl⟩

/-- A live code point that opens nothing, or is escaped, is read as it stands. -/
theorem read_point {e : Bool} {c : CodePoint} {next : Option CodePoint}
    (h : e = true ∨ Mode.opening? c next = none) :
    (Mode.code e).mark c next = Region.code.mark c ∧
      (Mode.code e).after c next = .code (!e && c = '\\') := by
  cases e with
  | true => exact ⟨rfl, rfl⟩
  | false =>
    have hopen : Mode.opening? c next = none := h.resolve_left (by simp)
    constructor
    · rw [Mode.mark, hopen]
      rfl
    · rw [Mode.after, hopen]
      rfl

/-- Code points that open and escape nothing are live code and lead back to it. Only the first one
can be escaped. -/
theorem scanTo_live {e : Bool} {t : Text} (hopen : ∀ c ∈ t, ∀ next, Mode.opening? c next = none)
    (hescape : ∀ c ∈ t, c ≠ .scalar '\\') (next : Option CodePoint) :
    scanTo (.code e) t next = t.map Region.code.mark ∧
      modeTo (.code e) t next = .code (e && t.isEmpty) := by
  induction t generalizing e with
  | nil => exact ⟨rfl, by rw [modeTo_nil, List.isEmpty_nil, Bool.and_true]⟩
  | cons c t ih =>
    obtain ⟨hc, hopen⟩ := List.forall_mem_cons.mp hopen
    obtain ⟨hbackslash, hescape⟩ := List.forall_mem_cons.mp hescape
    have hread := read_point (e := e) (.inr (hc (t.head?.or next)))
    have hi := ih (e := false) hopen hescape
    rw [decide_eq_false hbackslash, Bool.and_false] at hread
    rw [scanTo_cons, modeTo_cons, hread.1, hread.2, hi.1, hi.2, List.isEmpty_cons, Bool.and_false]
    exact ⟨rfl, rfl⟩

/-- Whether what follows a content is escaped, for content read behind an opening quote or further
inside; nothing if the quote closes the string before the content ends. -/
def Quote.escapeAfter? (q : Quote) : Bool → Text → Option Bool
  | escaped, [] => some escaped
  | true, _ :: rest => q.escapeAfter? false rest
  | false, c :: rest => if c = q.point then none else q.escapeAfter? (c = '\\') rest

/-- True of what can stand between two quotes that are the first and the last one of a literal. -/
def Quote.Encloses (q : Quote) (content : Text) : Prop := q.escapeAfter? false content = some false

instance (q : Quote) (content : Text) : Decidable (q.Encloses content) := by
  unfold Quote.Encloses
  infer_instance

/-- A content between two quotes. -/
def Quote.literal (q : Quote) (content : Text) : Text := q.point :: (content ++ [q.point])

/-- A content that a code point goes before is read on behind it. -/
theorem escapeAfter?_cons {q : Quote} {c : CodePoint} (hquote : c ≠ q.point)
    (hescape : c ≠ .scalar '\\') (t : Text) :
    q.escapeAfter? false (c :: t) = q.escapeAfter? false t := by
  rw [Quote.escapeAfter?, if_neg hquote, decide_eq_false hescape]

/-- A content that an escape goes before is read on behind it. -/
theorem escapeAfter?_escape (q : Quote) (e : CodePoint) (t : Text) :
    q.escapeAfter? false (.scalar '\\' :: e :: t) = q.escapeAfter? false t := by
  have hbackslash : CodePoint.scalar '\\' ≠ q.point := by cases q <;> decide
  rw [Quote.escapeAfter?, if_neg hbackslash]
  rfl

/-- What stands between quotes may have an escape in front. -/
theorem encloses_escape {q : Quote} {e : CodePoint} {t : Text} :
    q.Encloses (.scalar '\\' :: e :: t) ↔ q.Encloses t := by
  rw [Quote.Encloses, Quote.Encloses, escapeAfter?_escape]

/-- What stands between quotes may have a code point in front that is no backslash and not the
quote. -/
theorem encloses_cons {q : Quote} {c : CodePoint} {t : Text} (hescape : c ≠ .scalar '\\') :
    q.Encloses (c :: t) ↔ c ≠ q.point ∧ q.Encloses t := by
  rw [Quote.Encloses, Quote.Encloses]
  by_cases hquote : c = q.point
  · simp [Quote.escapeAfter?, hquote]
  · rw [escapeAfter?_cons hquote hescape]
    simp [hquote]

/-- Contents between quotes are put together of plain code points and of backslashes with what they
escape. -/
@[elab_as_elim]
theorem encloses_induction {q : Quote} {motive : (content : Text) → q.Encloses content → Prop}
    (nil : motive [] rfl)
    (plain : ∀ (c : CodePoint) (t : Text) (hquote : c ≠ q.point) (hescape : c ≠ .scalar '\\')
      (h : q.Encloses t), motive t h → motive (c :: t) ((encloses_cons hescape).mpr ⟨hquote, h⟩))
    (escape : ∀ (e : CodePoint) (t : Text) (h : q.Encloses t), motive t h →
      motive (.scalar '\\' :: e :: t) (encloses_escape.mpr h))
    (content : Text) (h : q.Encloses content) : motive content h := by
  induction content using List.twoStepInduction with
  | nil => exact nil
  | singleton c =>
    have hescape : c ≠ .scalar '\\' := by
      rintro rfl
      cases q <;> revert h <;> decide
    obtain ⟨hquote, hnil⟩ := (encloses_cons hescape).mp h
    exact plain c [] hquote hescape hnil nil
  | cons_cons c d t ih ihd =>
    by_cases hescape : c = .scalar '\\'
    · subst hescape
      exact escape d t (encloses_escape.mp h) (ih _)
    · obtain ⟨hquote, htail⟩ := (encloses_cons hescape).mp h
      exact plain c (d :: t) hquote hescape htail (ihd d htail)

/-- Inside a string everything is marked as the string up to where its quote closes it. -/
theorem scanTo_content {q : Quote} {e e' : Bool} {content : Text}
    (h : q.escapeAfter? e content = some e') (next : Option CodePoint) :
    scanTo (.string q e) content next = content.map (Region.string q).mark ∧
      modeTo (.string q e) content next = .string q e' := by
  induction content generalizing e with
  | nil =>
    rw [Quote.escapeAfter?] at h
    cases h
    exact ⟨rfl, rfl⟩
  | cons c content ih =>
    cases e with
    | true =>
      have hi := ih (e := false) h
      rw [scanTo_cons, modeTo_cons]
      exact ⟨congrArg _ hi.1, hi.2⟩
    | false =>
      rw [Quote.escapeAfter?] at h
      by_cases hc : c = q.point
      · rw [if_pos hc] at h
        cases h
      · rw [if_neg hc] at h
        have ha : (Mode.string q false).after c (content.head?.or next) =
            .string q (c = '\\') := by
          rw [Mode.after, if_neg hc]
        rw [scanTo_cons, modeTo_cons, ha]
        exact ⟨congrArg _ (ih h).1, (ih h).2⟩

/-- A quote opens its string in live code. -/
theorem opening?_quote (q : Quote) (next : Option CodePoint) :
    Mode.opening? q.point next = some (.string q false) := by
  cases q <;> rfl

/-- A quotation mark, read in live code, opens a literal that stays open while its content does. -/
theorem scanTo_unclosed {q : Quote} {e : Bool} {content : Text}
    (h : q.escapeAfter? false content = some e) (next : Option CodePoint) :
    scanTo (.code false) (q.point :: content) next =
        (Region.string q).construct (q.point :: content) ∧
      modeTo (.code false) (q.point :: content) next = .string q e := by
  have hc := scanTo_content h next
  have hm : (Mode.code false).mark q.point (content.head?.or next) =
      ⟨q.point, .string q, true⟩ := by
    rw [Mode.mark, opening?_quote]
    rfl
  have ha : (Mode.code false).after q.point (content.head?.or next) = .string q false := by
    rw [Mode.after, opening?_quote]
    rfl
  rw [scanTo_cons, modeTo_cons, hm, ha, hc.1, hc.2]
  exact ⟨rfl, rfl⟩

/-- A whole literal, read in live code, is one construct and leads back to live code. -/
theorem scanTo_literal {q : Quote} {content : Text} (h : q.Encloses content)
    (next : Option CodePoint) :
    scanTo (.code false) (q.literal content) next =
        (Region.string q).construct (q.literal content) ∧
      modeTo (.code false) (q.literal content) next = .code false := by
  have hu := scanTo_unclosed h (some q.point)
  have hclose : (Mode.string q false).after q.point next = .code false := by
    rw [Mode.after, if_pos rfl]
  rw [Quote.literal, ← List.cons_append, scanTo_append, modeTo_append]
  simp only [List.head?_cons, Option.some_or]
  rw [hu.1, hu.2, scanTo_cons, modeTo_cons]
  simp only [List.head?_nil, Option.none_or, scanTo_nil, modeTo_nil]
  rw [hclose]
  refine ⟨?_, rfl⟩
  simp only [Region.construct, List.cons_append, List.map_append, List.map_cons, List.map_nil]
  rfl

/-- Behind an opening quote a text comes to the quote that closes the string, or it never does. -/
theorem exists_enclosed (q : Quote) (e : Bool) (t : Text) :
    (∃ content rest, t = content ++ q.point :: rest ∧ q.escapeAfter? e content = some false) ∨
      ∃ e', q.escapeAfter? e t = some e' := by
  induction t generalizing e with
  | nil => exact .inr ⟨e, rfl⟩
  | cons c t ih =>
    cases e with
    | true =>
      rcases ih false with ⟨content, rest, ht, hc⟩ | ⟨e', he⟩
      · exact .inl ⟨c :: content, rest, by rw [ht, List.cons_append], hc⟩
      · exact .inr ⟨e', he⟩
    | false =>
      by_cases hq : c = q.point
      · exact .inl ⟨[], t, by rw [hq, List.nil_append], rfl⟩
      · rcases ih (c = '\\') with ⟨content, rest, ht, hc⟩ | ⟨e', he⟩
        · refine .inl ⟨c :: content, rest, by rw [ht, List.cons_append], ?_⟩
          rw [Quote.escapeAfter?, if_neg hq, hc]
        · refine .inr ⟨e', ?_⟩
          rw [Quote.escapeAfter?, if_neg hq, he]

/-- A line comment goes on while no line ends. -/
theorem scanTo_lineComment {body : Text} (h : ∀ c ∈ body, c.isLineEnd = false)
    (next : Option CodePoint) :
    scanTo .lineComment body next = body.map Region.lineComment.mark ∧
      modeTo .lineComment body next = .lineComment := by
  induction body with
  | nil => exact ⟨rfl, rfl⟩
  | cons c body ih =>
    have hc : c.isLineEnd = false := h c List.mem_cons_self
    have hi := ih fun d hd => h d (List.mem_cons_of_mem c hd)
    have hm : Mode.lineComment.mark c (body.head?.or next) = Region.lineComment.mark c := by
      simp [Mode.mark, hc, Region.mark]
    have ha : Mode.lineComment.after c (body.head?.or next) = .lineComment := by
      simp [Mode.after, hc]
    rw [scanTo_cons, modeTo_cons, hm, ha, hi.1, hi.2]
    exact ⟨rfl, rfl⟩

/-- Two solidi, read in live code, open a comment that goes on while no line ends. -/
theorem scanTo_line {body : Text} (h : ∀ c ∈ body, c.isLineEnd = false)
    (next : Option CodePoint) :
    scanTo (.code false) ('/' :: '/' :: body) next =
        Region.lineComment.construct ('/' :: '/' :: body) ∧
      modeTo (.code false) ('/' :: '/' :: body) next = .lineComment := by
  have hb : ∀ c ∈ (CodePoint.scalar '/' :: body), c.isLineEnd = false := by
    intro c hc
    rcases List.mem_cons.mp hc with rfl | hc
    · rfl
    · exact h c hc
  have hs := scanTo_lineComment hb next
  rw [scanTo_cons, modeTo_cons]
  exact ⟨congrArg _ hs.1, hs.2⟩

/-- A code point that ends a line reads in a line comment as it does in live code. -/
theorem scanFrom_lineComment_of_isLineEnd {c : CodePoint} (h : c.isLineEnd) (rest : Text) :
    scanFrom .lineComment (c :: rest) = scanFrom (.code false) (c :: rest) ∧
      modeAfter .lineComment (c :: rest) = modeAfter (.code false) (c :: rest) := by
  have hc : c = '\n' ∨ c = '\r' := by simpa [CodePoint.isLineEnd] using h
  rcases hc with rfl | rfl <;> exact ⟨rfl, rfl⟩

/-- True of a text in which no block comment ends. -/
def StaysInBlock : Text → Prop
  | [] => True
  | c :: rest => ¬(c = '*' ∧ rest.head? = some (.scalar '/')) ∧ StaysInBlock rest

/-- A block comment goes on while no closing marker stands in it. -/
theorem scanTo_blockComment {body : Text} {next : Option CodePoint}
    (h : StaysInBlock (body ++ next.toList)) :
    scanTo .blockComment body next = body.map Region.blockComment.mark ∧
      modeTo .blockComment body next = .blockComment := by
  induction body with
  | nil => exact ⟨rfl, rfl⟩
  | cons c body ih =>
    have hn : (body ++ next.toList).head? = body.head?.or next := by
      rw [List.head?_append]
      cases next <;> rfl
    have hc : ¬(c = '*' ∧ body.head?.or next = some (.scalar '/')) := hn ▸ h.1
    have hi := ih h.2
    have ha : Mode.blockComment.after c (body.head?.or next) = .blockComment := by
      rw [Mode.after, if_neg hc]
    rw [scanTo_cons, modeTo_cons, ha, hi.1, hi.2]
    exact ⟨rfl, rfl⟩

/-- An opening marker, read in live code, opens a comment that goes on while nothing closes it. -/
theorem scanTo_unclosedBlock {body : Text} {next : Option CodePoint}
    (h : StaysInBlock (body ++ next.toList)) :
    scanTo (.code false) ('/' :: '*' :: body) next =
        Region.blockComment.construct ('/' :: '*' :: body) ∧
      modeTo (.code false) ('/' :: '*' :: body) next = .blockComment := by
  have hs := scanTo_blockComment h
  rw [scanTo_cons, modeTo_cons, scanTo_cons, modeTo_cons]
  exact ⟨congrArg _ (congrArg _ hs.1), hs.2⟩

/-- A body between the two markers of a block comment. -/
def blockText (body : Text) : Text := '/' :: '*' :: (body ++ [.scalar '*', .scalar '/'])

/-- A whole block comment, read in live code, is one construct and leads back to live code. -/
theorem scanTo_block {body : Text} (h : StaysInBlock (body ++ [.scalar '*']))
    (next : Option CodePoint) :
    scanTo (.code false) (blockText body) next = Region.blockComment.construct (blockText body) ∧
      modeTo (.code false) (blockText body) next = .code false := by
  have hu := @scanTo_unclosedBlock body (some (.scalar '*')) h
  have hb : blockText body =
      (.scalar '/' :: .scalar '*' :: body) ++ [.scalar '*', .scalar '/'] := rfl
  rw [hb, scanTo_append, modeTo_append]
  simp only [List.head?_cons, Option.some_or]
  rw [hu.1, hu.2]
  refine ⟨?_, rfl⟩
  simp only [Region.construct, List.cons_append, List.map_append, List.map_cons, List.map_nil]
  rfl

/-- Behind an opening marker a text either comes to the first closing one or never does. -/
theorem exists_blockEnd (t : Text) :
    (∃ body rest, t = body ++ .scalar '*' :: .scalar '/' :: rest ∧
      StaysInBlock (body ++ [.scalar '*'])) ∨
      StaysInBlock t := by
  induction t with
  | nil => exact .inr trivial
  | cons c t ih =>
    by_cases hc : c = '*' ∧ t.head? = some (.scalar '/')
    · obtain ⟨rfl, ht⟩ := hc
      obtain ⟨rest, rfl⟩ := List.head?_eq_some_iff.mp ht
      exact .inl ⟨[], rest, rfl, by simp [StaysInBlock]⟩
    · rcases ih with ⟨body, rest, rfl, hb⟩ | hs
      · refine .inl ⟨c :: body, rest, rfl, ?_, hb⟩
        cases body with
        | nil => simp
        | cons d body => exact hc
      · exact .inr ⟨hc, hs⟩

/-- A whole piece of text leads to its final mode. -/
theorem finalMode_eq_modeTo (t : Text) : finalMode t = modeTo (.code false) t none :=
  modeAfter_eq_modeTo _ t

/-- The end of a literal leads back to live code. -/
theorem finalMode_literal {q : Quote} {content : Text} (h : q.Encloses content) :
    finalMode (q.literal content) = .code false := by
  rw [finalMode_eq_modeTo, (scanTo_literal h none).2]

/-- A literal that nothing closes does not end. -/
theorem finalMode_unclosed {q : Quote} {e : Bool} {content : Text}
    (h : q.escapeAfter? false content = some e) :
    finalMode (q.point :: content) = .string q e := by
  rw [finalMode_eq_modeTo, (scanTo_unclosed h none).2]

/-- A line comment goes on to the end of a text. -/
theorem finalMode_line {body : Text} (h : ∀ c ∈ body, c.isLineEnd = false) :
    finalMode ('/' :: '/' :: body) = .lineComment := by
  rw [finalMode_eq_modeTo, (scanTo_line h none).2]

/-- The end of a block comment leads back to live code. -/
theorem finalMode_block {body : Text} (h : StaysInBlock (body ++ [.scalar '*'])) :
    finalMode (blockText body) = .code false := by
  rw [finalMode_eq_modeTo, (scanTo_block h none).2]

/-- A block comment that nothing closes does not end. -/
theorem finalMode_unclosedBlock {body : Text} (h : StaysInBlock body) :
    finalMode ('/' :: '*' :: body) = .blockComment := by
  have hopen : StaysInBlock (body ++ (none : Option CodePoint).toList) := by
    simpa only [Option.toList_none, List.append_nil] using h
  rw [finalMode_eq_modeTo, (scanTo_unclosedBlock hopen).2]

section Front

variable {e : Bool} {c : CodePoint} {q : Quote} {content body rest : Text}

/-- A live code point in front is a mark, and the rest is read as it leaves it. -/
theorem scanFrom_point (h : e = true ∨ Mode.opening? c rest.head? = none) :
    scanFrom (.code e) (c :: rest) =
      Region.code.mark c :: scanFrom (.code (!e && c = '\\')) rest := by
  rw [scanFrom, (read_point h).1, (read_point h).2]

/-- Behind a live code point a text ends as the rest does. -/
theorem modeAfter_point (h : e = true ∨ Mode.opening? c rest.head? = none) :
    modeAfter (.code e) (c :: rest) = modeAfter (.code (!e && c = '\\')) rest := by
  rw [modeAfter, (read_point h).2]

/-- A literal in front is one construct, and the rest is live again. -/
theorem scanFrom_literal (h : q.Encloses content) (rest : Text) :
    scanFrom (.code false) (q.literal content ++ rest) =
      (Region.string q).construct (q.literal content) ++ scanFrom (.code false) rest := by
  rw [scanFrom_append, (scanTo_literal h _).1, (scanTo_literal h _).2]

/-- Behind a literal a text ends as the rest does. -/
theorem modeAfter_literal (h : q.Encloses content) (rest : Text) :
    modeAfter (.code false) (q.literal content ++ rest) = modeAfter (.code false) rest := by
  rw [modeAfter_append, (scanTo_literal h _).2]

/-- A literal that nothing closes is one construct. -/
theorem scanFrom_unclosed (h : q.escapeAfter? false content = some e) :
    scanFrom (.code false) (q.point :: content) =
      (Region.string q).construct (q.point :: content) := by
  rw [scanFrom_eq_scanTo, (scanTo_unclosed h none).1]

/-- A literal that nothing closes goes on to the end of a text. -/
theorem modeAfter_unclosed (h : q.escapeAfter? false content = some e) :
    modeAfter (.code false) (q.point :: content) = .string q e := finalMode_unclosed h

/-- A line comment in front is one construct, and what ends the line is live again. -/
theorem scanFrom_line (h : ∀ c ∈ body, c.isLineEnd = false)
    (hnext : ∀ c ∈ rest.head?, c.isLineEnd) :
    scanFrom (.code false) (.scalar '/' :: .scalar '/' :: body ++ rest) =
      Region.lineComment.construct ('/' :: '/' :: body) ++ scanFrom (.code false) rest := by
  have hs := scanTo_line h rest.head?
  rw [scanFrom_append, hs.1, hs.2]
  cases rest with
  | nil => rfl
  | cons c rest => rw [(scanFrom_lineComment_of_isLineEnd (hnext c rfl) rest).1]

/-- Behind a line comment that does not end a text it ends as the rest does. -/
theorem modeAfter_line (h : ∀ c ∈ body, c.isLineEnd = false)
    (hnext : ∀ c ∈ rest.head?, c.isLineEnd) (hne : rest ≠ []) :
    modeAfter (.code false) (.scalar '/' :: .scalar '/' :: body ++ rest) =
      modeAfter (.code false) rest := by
  obtain ⟨c, rest, rfl⟩ := List.exists_cons_of_ne_nil hne
  rw [modeAfter_append, (scanTo_line h _).2,
    (scanFrom_lineComment_of_isLineEnd (hnext c rfl) rest).2]

/-- A block comment in front is one construct, and the rest is live again. -/
theorem scanFrom_block (h : StaysInBlock (body ++ [.scalar '*'])) (rest : Text) :
    scanFrom (.code false) (blockText body ++ rest) =
      Region.blockComment.construct (blockText body) ++ scanFrom (.code false) rest := by
  rw [scanFrom_append, (scanTo_block h _).1, (scanTo_block h _).2]

/-- Behind a block comment a text ends as the rest does. -/
theorem modeAfter_block (h : StaysInBlock (body ++ [.scalar '*'])) (rest : Text) :
    modeAfter (.code false) (blockText body ++ rest) = modeAfter (.code false) rest := by
  rw [modeAfter_append, (scanTo_block h _).2]

/-- A block comment that nothing closes is one construct. -/
theorem scanFrom_unclosedBlock (h : StaysInBlock body) :
    scanFrom (.code false) ('/' :: '*' :: body) =
      Region.blockComment.construct ('/' :: '*' :: body) := by
  have hopen : StaysInBlock (body ++ (none : Option CodePoint).toList) := by
    simpa only [Option.toList_none, List.append_nil] using h
  rw [scanFrom_eq_scanTo, (scanTo_unclosedBlock hopen).1]

/-- A block comment that nothing closes goes on to the end of a text. -/
theorem modeAfter_unclosedBlock (h : StaysInBlock body) :
    modeAfter (.code false) (.scalar '/' :: .scalar '*' :: body) = .blockComment :=
  finalMode_unclosedBlock h

end Front

end SourcePress.Lexis
