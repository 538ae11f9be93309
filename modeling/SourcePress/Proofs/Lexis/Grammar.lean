import SourcePress.Lexis.Cursor
import SourcePress.Proofs.Lexis.Spans

/-!
# The lexical grammar of a text

The rules of the lexical scan, told without its machine. Code points are escaped by an odd number
of backslashes in front of them. A string literal goes on to the first quote of its own kind that
is not escaped, a line comment to the end of its line, a block comment to the first closing marker;
a literal or block comment that nothing closes goes on to the end of the text. In live code
everything that opens a construct is escaped. Each text is cut by these rules in exactly one way,
and this cut is the spans of its segments.
-/

namespace SourcePress.Lexis

/-- The number of backslashes that a text ends in. -/
def backslashesAtEnd (t : Text) : Nat := (t.reverse.takeWhile fun c => c = .scalar '\\').length

/-- True of a text behind which a code point is escaped. -/
def Escapes (t : Text) : Prop := Odd (backslashesAtEnd t)

/-- True of a code point that opens a construct before a next one, unless it is escaped. -/
def Opens (c : CodePoint) (next : Option CodePoint) : Prop :=
  (∃ q : Quote, c = q.point) ∨
    c = .scalar '/' ∧ (next = some (.scalar '/') ∨ next = some (.scalar '*'))

/-- The marker that closes a block comment. -/
def closingMarker : Text := [.scalar '*', .scalar '/']

/-- True of what can follow an opening quote without that a quote in it closes the literal. -/
def Quote.StaysOpen (q : Quote) (t : Text) : Prop :=
  ∀ front back, t = front ++ q.point :: back → Escapes front

/-- The rule of live code: what opens a construct is escaped, and what follows the code is not. -/
def IsCodeText (t behind : Text) : Prop :=
  (∀ front c back, t = front ++ c :: back → Opens c (back ++ behind).head? → Escapes front) ∧
    (behind ≠ [] → ¬Escapes t)

/-- The rule of string literals: the first quote that is not escaped closes the literal. -/
def Quote.IsLiteralText (q : Quote) (t behind : Text) : Prop :=
  ∃ content, q.StaysOpen content ∧
    (t = q.point :: (content ++ [q.point]) ∧ ¬Escapes content ∨
      t = q.point :: content ∧ behind = [])

/-- The rule of line comments: they go on to the end of the line. -/
def IsLineText (t behind : Text) : Prop :=
  ∃ body, t = .scalar '/' :: .scalar '/' :: body ∧ (∀ c ∈ t, c.isLineEnd = false) ∧
    ∀ c ∈ behind.head?, c.isLineEnd = true

/-- The rule of block comments: the first closing marker behind the opening one closes them. -/
def IsBlockText (t behind : Text) : Prop :=
  ∃ body, t = .scalar '/' :: .scalar '*' :: body ∧
    ((∃ content, body = content ++ closingMarker ∧
        ¬closingMarker <:+: content ++ [.scalar '*']) ∨
      ¬closingMarker <:+: body ∧ behind = [])

namespace Span

/-- The rule of the region that a span lies in, given the text behind the span. -/
def Fits (s : Span) (behind : Text) : Prop :=
  match s.region with
  | .code => IsCodeText s.text behind
  | .string q => q.IsLiteralText s.text behind
  | .lineComment => IsLineText s.text behind
  | .blockComment => IsBlockText s.text behind

/-- True of a string literal or a block comment that nothing closes. -/
def IsUnclosed (s : Span) : Prop :=
  match s.region with
  | .string q => ∃ content, s.text = q.point :: content ∧ q.StaysOpen content
  | .blockComment =>
    ∃ body, s.text = .scalar '/' :: .scalar '*' :: body ∧ ¬closingMarker <:+: body
  | .code | .lineComment => False

end Span

/-- True of spans that a text is cut into: none is empty, each one fits the rule of its region, and
no two spans of live code are next to each other. -/
def IsLexicalCut : List Span → Prop
  | [] => True
  | s :: rest =>
    s.text ≠ [] ∧ s.Fits (rest.flatMap Span.text) ∧
      (s.region = .code → ∀ n ∈ rest.head?, n.region ≠ .code) ∧ IsLexicalCut rest

/-- One more code point escapes what follows it if it is a backslash that is not escaped. -/
theorem escapes_concat (t : Text) (c : CodePoint) :
    Escapes (t ++ [c]) ↔ c = .scalar '\\' ∧ ¬Escapes t := by
  by_cases hc : c = .scalar '\\'
  · simp [Escapes, backslashesAtEnd, hc, Nat.odd_add_one]
  · simp [Escapes, backslashesAtEnd, hc]

/-- A text escapes what follows it exactly if its backslashes, read one by one, do. -/
theorem escapes_iff (t : Text) : Escapes t ↔ escapedBehind false (t.map .point) = true := by
  induction t using List.reverseRecOn with
  | nil => simp [Escapes, backslashesAtEnd]
  | append_singleton t c ih =>
    rw [escapes_concat, ih]
    simp [escapedBehind, List.foldl_append, Atom.escapes, and_comm]

/-- A code point that is no backslash escapes nothing further behind. -/
theorem escapes_cons {c : CodePoint} (hc : c ≠ .scalar '\\') (t : Text) :
    Escapes (c :: t) ↔ Escapes t := by
  simp [escapes_iff, Atom.escapes, hc]

/-- Behind an escape backslashes count as at the start of a text. -/
theorem escapes_escape (e : CodePoint) (t : Text) :
    Escapes (.scalar '\\' :: e :: t) ↔ Escapes t := by
  simp [escapes_iff, Atom.escapes]

/-- A code point opens a construct if the scan has a mode for it. -/
theorem opens_iff (c : CodePoint) (next : Option CodePoint) :
    Opens c next ↔ Mode.opening? c next ≠ none := by
  constructor
  · rintro (⟨q, rfl⟩ | ⟨rfl, rfl | rfl⟩)
    · simp [opening?_quote]
    · decide
    · decide
  · intro h
    obtain ⟨mode, hmode⟩ := Option.ne_none_iff_exists'.mp h
    rcases opening?_eq_some hmode with hq | ⟨hc, hn⟩ | ⟨hc, hn⟩
    · exact .inl hq
    · exact .inr ⟨hc, .inl hn⟩
    · exact .inr ⟨hc, .inr hn⟩

/-- A place in a text is its front or a place further inside. -/
theorem forall_split_cons {x c : CodePoint} {t : Text} {p : Text → Text → Prop} :
    (∀ front back, c :: t = front ++ x :: back → p front back) ↔
      (c = x → p [] t) ∧ ∀ front back, t = front ++ x :: back → p (c :: front) back := by
  constructor
  · refine fun h => ⟨fun hc => h [] t (by rw [hc]; rfl), fun front back ht => ?_⟩
    exact h (c :: front) back (by rw [ht]; rfl)
  · rintro ⟨hhead, htail⟩ front back ht
    cases front with
    | nil =>
      obtain ⟨hc, rfl⟩ := List.cons.inj ht
      exact hhead hc
    | cons d front =>
      obtain ⟨rfl, hback⟩ := List.cons.inj ht
      exact htail front back hback

/-- A literal is open behind a content if each quote in it is escaped. -/
theorem escapeAfter?_eq_some_iff (q : Quote) (e e' : Bool) (content : Text) :
    q.escapeAfter? e content = some e' ↔
      (∀ front back, content = front ++ q.point :: back →
        escapedBehind e (front.map .point) = true) ∧
      escapedBehind e (content.map .point) = e' := by
  induction content generalizing e with
  | nil => simp [Quote.escapeAfter?]
  | cons c content ih =>
    rw [forall_split_cons]
    cases e with
    | true =>
      rw [Quote.escapeAfter?, ih]
      simp [Atom.escapes]
    | false =>
      rw [Quote.escapeAfter?]
      by_cases hc : c = q.point
      · simp [hc]
      · rw [if_neg hc, ih]
        simp [hc, Atom.escapes]

/-- A content stays open if the scan does not come to a closing quote in it. -/
theorem staysOpen_iff (q : Quote) (content : Text) :
    q.StaysOpen content ↔ ∃ e, q.escapeAfter? false content = some e := by
  simp only [escapeAfter?_eq_some_iff, Quote.StaysOpen, escapes_iff]
  simp

/-- A content is enclosed by quotes if it stays open and does not escape the closing quote. -/
theorem encloses_iff (q : Quote) (content : Text) :
    q.Encloses content ↔ q.StaysOpen content ∧ ¬Escapes content := by
  simp only [Quote.Encloses, escapeAfter?_eq_some_iff, Quote.StaysOpen, escapes_iff]
  simp

/-- Behind a content that quotes enclose the first quote closes the literal. -/
theorem Quote.Encloses.eq_nil {q : Quote} {content more : Text} (h : q.Encloses content)
    (h' : q.Encloses (content ++ more)) (hmore : ∀ c ∈ more.head?, c = q.point) : more = [] := by
  cases more with
  | nil => rfl
  | cons c more =>
    obtain rfl : c = q.point := hmore c rfl
    have hescape := ((encloses_iff q _).mp h').1 content more rfl
    exact absurd hescape ((encloses_iff q content).mp h).2

/-- The content of a literal at the start of a text is the only one. -/
theorem Quote.Encloses.unique {q : Quote} {content content' rest rest' : Text}
    (h : q.Encloses content) (h' : q.Encloses content')
    (heq : content ++ q.point :: rest = content' ++ q.point :: rest') :
    content = content' ∧ rest = rest' := by
  have hhead : ∀ {more t t' : Text}, q.point :: t = more ++ q.point :: t' →
      ∀ c ∈ more.head?, c = q.point := by
    intro more t t' ht c hc
    obtain ⟨tail, rfl⟩ := List.head?_eq_some_iff.mp hc
    exact (List.cons.inj ht).1.symm
  rcases List.append_eq_append_iff.mp heq with ⟨more, rfl, ht⟩ | ⟨more, rfl, ht⟩
  · obtain rfl := h.eq_nil h' (hhead ht)
    exact ⟨(List.append_nil _).symm, (List.cons.inj ht).2⟩
  · obtain rfl := h'.eq_nil h (hhead ht)
    exact ⟨List.append_nil _, (List.cons.inj ht).2.symm⟩

/-- A block comment goes on in a text in which there is no closing marker. -/
theorem staysInBlock_iff (t : Text) : StaysInBlock t ↔ ¬closingMarker <:+: t := by
  induction t with
  | nil => simp [StaysInBlock, closingMarker]
  | cons c t ih =>
    have hhead : closingMarker <+: c :: t ↔ c = .scalar '*' ∧ t.head? = some (.scalar '/') := by
      rw [closingMarker, List.cons_prefix_cons]
      cases t with
      | nil => simp
      | cons d t => simp [List.cons_prefix_cons, eq_comm]
    rw [StaysInBlock, ih, List.infix_cons_iff, hhead, not_or]

/-- Spans behind a run of live code, which may be empty. -/
def behindCode (w : Text) (cut : List Span) : List Span :=
  if w = [] then cut else ⟨.code, w⟩ :: cut

/-- The rule of live code for a run whose first code point may be escaped. -/
def IsCodeFrom (e : Bool) (w behind : Text) : Prop :=
  (∀ front c back, w = front ++ c :: back → Opens c (back ++ behind).head? →
    escapedBehind e (front.map .point) = true) ∧
    (behind ≠ [] → escapedBehind e (w.map .point) = false)

/-- The rule of live code is the one for a run whose first code point is not escaped. -/
theorem isCodeText_iff (t behind : Text) : IsCodeText t behind ↔ IsCodeFrom false t behind := by
  simp only [IsCodeText, IsCodeFrom, escapes_iff, Bool.not_eq_true]

/-- A run of live code may go on in front. -/
theorem IsCodeFrom.cons {e : Bool} {c : CodePoint} {w behind : Text}
    (hopen : e = true ∨ ¬Opens c (w ++ behind).head?)
    (h : IsCodeFrom (!e && c = '\\') w behind) : IsCodeFrom e (c :: w) behind := by
  refine ⟨fun front d back hw hopens => ?_, h.2⟩
  cases front with
  | nil =>
    obtain ⟨rfl, rfl⟩ := List.cons.inj hw
    exact hopen.resolve_right (not_not_intro hopens)
  | cons c' front =>
    obtain ⟨rfl, hw'⟩ := List.cons.inj hw
    exact h.1 front d back hw' hopens

/-- A code point in front of a run of live code goes to it. -/
theorem spansOf_point_behindCode {as : List Atom} {w : Text} {cut : List Span}
    (h : spansOf as = behindCode w cut) (hcut : ∀ s ∈ cut.head?, s.region ≠ .code)
    (c : CodePoint) : spansOf (.point c :: as) = behindCode (c :: w) cut := by
  rw [behindCode, if_neg (List.cons_ne_nil c w)]
  rcases spansOf_point c as with ⟨w', more, hrest, heq⟩ | ⟨hhead, heq⟩
  · rw [heq]
    rw [hrest, behindCode] at h
    split at h
    · exact absurd rfl (hcut ⟨.code, w'⟩ (by rw [← h]; rfl))
    · cases h
      rfl
  · rw [heq, h]
    rw [h, behindCode] at hhead
    split at hhead
    · next hw => rw [behindCode, if_pos hw, hw]
    · exact absurd rfl (hhead _ rfl)

/-- A cut may go on with live code in front of a construct. -/
theorem IsLexicalCut.code_front {w : Text} {cut : List Span} (h : IsLexicalCut cut)
    (hcut : ∀ s ∈ cut.head?, s.region ≠ .code) (hw : IsCodeFrom false w (cut.flatMap Span.text)) :
    IsLexicalCut (behindCode w cut) := by
  rw [behindCode]
  split
  · exact h
  · next hne => exact ⟨hne, (isCodeText_iff w _).mpr hw, fun _ => hcut, h⟩

/-- The text of spans behind a run of live code. -/
theorem flatMap_text_behindCode (w : Text) (cut : List Span) :
    (behindCode w cut).flatMap Span.text = w ++ cut.flatMap Span.text := by
  rw [behindCode]
  split
  · next hw => rw [hw, List.nil_append]
  · rfl

/-- True of spans that live code goes on with: a run of it, whose first code point may be escaped,
and behind the run a cut that begins with a construct. -/
def IsCutFrom (e : Bool) (ss : List Span) : Prop :=
  ∃ w cut, ss = behindCode w cut ∧ (∀ s ∈ cut.head?, s.region ≠ .code) ∧
    IsCodeFrom e w (cut.flatMap Span.text) ∧ IsLexicalCut cut

/-- Live code may go on with nothing. -/
theorem isCutFrom_nil (e : Bool) : IsCutFrom e [] :=
  ⟨[], [], rfl, by simp, ⟨by simp, by simp⟩, trivial⟩

/-- Live code may go on with a construct that fits its rule. -/
theorem IsCutFrom.construct {ss : List Span} (h : IsCutFrom false ss) {r : Region} {t : Text}
    (hr : r ≠ .code) (ht : t ≠ []) (hfits : (⟨r, t⟩ : Span).Fits (ss.flatMap Span.text)) :
    IsCutFrom false (⟨r, t⟩ :: ss) := by
  obtain ⟨w, cut, rfl, hcut, hw, hlexical⟩ := h
  refine ⟨[], ⟨r, t⟩ :: behindCode w cut, rfl, by simpa using hr, ⟨by simp, by simp⟩, ?_⟩
  exact ⟨ht, hfits, fun hcode => absurd hcode hr, hlexical.code_front hcut hw⟩

/-- Live code goes on with the spans of atoms. -/
theorem Atomic.isCutFrom {e : Bool} {as : List Atom} (h : Atomic none e as) :
    IsCutFrom e (spansOf as) := by
  induction h with
  | nil e => exact isCutFrom_nil e
  | @point e c rest hopen _ ih =>
    obtain ⟨w, cut, hspans, hcut, hw, hlexical⟩ := ih
    have htext : textOf rest = w ++ cut.flatMap Span.text := by
      rw [← flatMap_text_spansOf, hspans, flatMap_text_behindCode]
    rw [Option.or_none, htext] at hopen
    refine ⟨c :: w, cut, spansOf_point_behindCode hspans hcut c, hcut, hw.cons ?_, hlexical⟩
    exact hopen.imp_right fun hnone => by rw [opens_iff, not_not]; exact hnone
  | @literal q content rest hq _ ih =>
    refine ih.construct (by simp) (by simp [Quote.literal]) ⟨content, ?_⟩
    obtain ⟨hopen, hescape⟩ := (encloses_iff q content).mp hq
    exact ⟨hopen, .inl ⟨rfl, hescape⟩⟩
  | @unclosedLiteral q content e hq _ =>
    exact (isCutFrom_nil false).construct (by simp) (by simp)
      ⟨content, (staysOpen_iff q content).mpr ⟨e, hq⟩, .inr ⟨rfl, rfl⟩⟩
  | @line body rest hbody hnext _ ih =>
    rw [Option.or_none, ← flatMap_text_spansOf] at hnext
    refine ih.construct (by simp) (by simp) ⟨body, rfl, ?_, hnext⟩
    simpa [CodePoint.isLineEnd] using hbody
  | @block body rest hb _ ih =>
    exact ih.construct (by simp) (by simp [blockText])
      ⟨body ++ closingMarker, rfl, .inl ⟨body, rfl, (staysInBlock_iff _).mp hb⟩⟩
  | @unclosedBlock body hb _ =>
    exact (isCutFrom_nil false).construct (by simp) (by simp)
      ⟨body, rfl, .inr ⟨(staysInBlock_iff body).mp hb, rfl⟩⟩

/-- The spans of a text cut it by the rules of the grammar. -/
theorem isLexicalCut_spans (t : Text) : IsLexicalCut (spans t) := by
  obtain ⟨as, has, rfl⟩ := exists_atomic t
  obtain ⟨w, cut, hspans, hcut, hw, hlexical⟩ := has.isCutFrom
  rw [has.spans_textOf, hspans]
  exact hlexical.code_front hcut hw

example : spans "a/*/ 'b'" = [⟨.code, "a"⟩, ⟨.blockComment, "/*/ 'b'"⟩] := by decide

/-- The spans of a run of live code in front of a construct. -/
theorem spansOf_points_append {w : Text} (hne : w ≠ []) {as : List Atom} {cut : List Span}
    (h : spansOf as = cut) (hcut : ∀ s ∈ cut.head?, s.region ≠ .code) :
    spansOf (w.map .point ++ as) = ⟨.code, w⟩ :: cut := by
  have hbehind : spansOf (w.map .point ++ as) = behindCode w cut := by
    clear hne
    induction w with
    | nil => exact h
    | cons c w ih => exact spansOf_point_behindCode ih hcut c
  rw [hbehind, behindCode, if_neg hne]

/-- A run of live code that fits its rule is read point by point. -/
theorem Atomic.code_front {w : Text} {as : List Atom} (h : Atomic none false as)
    (hw : IsCodeText w (textOf as)) : Atomic none false (w.map .point ++ as) := by
  obtain ⟨hopen, hescape⟩ := (isCodeText_iff w _).mp hw
  refine .points_append (fun front c back hsplit => ?_) ?_
  · rw [Option.or_none, or_iff_not_imp_right, ← Ne, ← opens_iff]
    exact hopen front c back hsplit
  · by_cases hnil : textOf as = []
    · rw [h.eq_nil_of_textOf hnil]
      exact .nil _
    · rwa [hescape hnil]

/-- Each lexical cut is the spans of atoms. -/
theorem IsLexicalCut.exists_atomic {cut : List Span} (h : IsLexicalCut cut) :
    ∃ as, Atomic none false as ∧ spansOf as = cut := by
  induction cut with
  | nil => exact ⟨[], .nil false, rfl⟩
  | cons s rest ih =>
    obtain ⟨hne, hfits, hapart, hrest⟩ := h
    obtain ⟨as, has, hspans⟩ := ih hrest
    have htext : rest.flatMap Span.text = textOf as := by
      rw [← hspans, flatMap_text_spansOf]
    have hend : rest.flatMap Span.text = [] → as = [] := fun hnil =>
      has.eq_nil_of_textOf (htext ▸ hnil)
    obtain ⟨r, t⟩ := s
    cases r with
    | code =>
      rw [Span.Fits, htext] at hfits
      exact ⟨t.map .point ++ as, has.code_front hfits,
        spansOf_points_append hne hspans (hapart rfl)⟩
    | string q =>
      obtain ⟨content, hopen, ⟨rfl, hescape⟩ | ⟨rfl, hnil⟩⟩ := hfits
      · have hq : q.Encloses content := (encloses_iff q content).mpr ⟨hopen, hescape⟩
        exact ⟨_, .literal hq has, by rw [spansOf, hspans]; rfl⟩
      · obtain ⟨e, hq⟩ := (staysOpen_iff q content).mp hopen
        obtain rfl := hend hnil
        exact ⟨_, .unclosedLiteral hq rfl, by rw [← hspans]; rfl⟩
    | lineComment =>
      obtain ⟨body, rfl, hbody, hnext⟩ := hfits
      have hline : ∀ c ∈ body, c.isLineEnd = false := fun c hc =>
        hbody c (List.mem_cons_of_mem _ (List.mem_cons_of_mem _ hc))
      refine ⟨_, .line hline ?_ has, by rw [spansOf, hspans]⟩
      rwa [Option.or_none, ← htext]
    | blockComment =>
      obtain ⟨body, rfl, ⟨content, rfl, hmarker⟩ | ⟨hmarker, hnil⟩⟩ := hfits
      · exact ⟨_, .block ((staysInBlock_iff _).mpr hmarker) has, by rw [spansOf, hspans]; rfl⟩
      · obtain rfl := hend hnil
        exact ⟨_, .unclosedBlock ((staysInBlock_iff body).mpr hmarker) rfl, by rw [← hspans]; rfl⟩

/-- A text has no lexical cut but its spans. -/
theorem IsLexicalCut.eq_spans {cut : List Span} (h : IsLexicalCut cut) {t : Text}
    (ht : cut.flatMap Span.text = t) : cut = spans t := by
  obtain ⟨as, has, rfl⟩ := h.exists_atomic
  rw [← ht, flatMap_text_spansOf, has.spans_textOf]

end SourcePress.Lexis
