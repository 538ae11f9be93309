import SourcePress.Proofs.Lexis.Spans
import SourcePress.Proofs.Lexis.Trimming

/-!
# The tokens of a text

The tokens of a text tell what is left of it when its layout is disregarded: each live code point
that is not blank, and each string literal or comment without the blanks at its end. Whether a text
leaves a literal or a block comment open can be told from its tokens, and so can its significant
code points.
-/

namespace SourcePress.Lexis

/-- The tokens of a span. -/
def Span.tokens (s : Span) : List Span :=
  if s.region = .code then (s.text.filter fun c => !c.isBlank).map fun c => ⟨.code, [c]⟩
  else [⟨s.region, s.text.trimEnd⟩]

/-- True of a string literal or a block comment that its own text leaves open. -/
def Span.isOpen (s : Span) : Bool := !s.region.isLive && !isTerminated s.text

/-- The live code points of a span. -/
def Span.live (s : Span) : Text := if s.region = .code then s.text else []

/-- The tokens of a text: its live code points that are not blank, one by one, and its string
literals and comments without the blanks at their ends. -/
def tokens (t : Text) : List Span := (spans t).flatMap Span.tokens

/-- The token that an atom is, if it is no live blank. -/
def Atom.token? : Atom → Option Span
  | point c => if c.isBlank then none else some ⟨.code, [c]⟩
  | construct r t => some ⟨r, t.trimEnd⟩

/-- The tokens of atoms. -/
def tokensOf (as : List Atom) : List Span := as.filterMap Atom.token?

@[simp] theorem tokensOf_nil : tokensOf [] = [] := rfl

@[simp] theorem tokensOf_append (as bs : List Atom) :
    tokensOf (as ++ bs) = tokensOf as ++ tokensOf bs := List.filterMap_append

/-- The tokens of an atom stand in front of those of the atoms behind it. -/
theorem tokensOf_cons (a : Atom) (as : List Atom) :
    tokensOf (a :: as) = tokensOf [a] ++ tokensOf as := by
  rw [← tokensOf_append, List.singleton_append]

/-- A literal does not end in a blank. -/
theorem trimEnd_literal (q : Quote) (content : Text) :
    (q.literal content).trimEnd = q.literal content := by
  have hconcat : q.literal content = (q.point :: content) ++ [q.point] := rfl
  rw [hconcat, Text.trimEnd_concat (isBlank_point q)]

/-- A whole block comment does not end in a blank. -/
theorem trimEnd_blockText (body : Text) : (blockText body).trimEnd = blockText body := by
  have hconcat : blockText body =
      (.scalar '/' :: .scalar '*' :: (body ++ [.scalar '*']) : Text) ++ [.scalar '/'] := by
    simp [blockText]
  rw [hconcat, Text.trimEnd_concat (by decide)]

/-- The first part of an open content is open. -/
theorem exists_escapeAfter?_of_append {q : Quote} {e e' : Bool} {s t : Text}
    (h : q.escapeAfter? e (s ++ t) = some e') : ∃ e'', q.escapeAfter? e s = some e'' := by
  induction s generalizing e with
  | nil => exact ⟨e, rfl⟩
  | cons c s ih =>
    cases e with
    | true => exact ih (e := false) h
    | false =>
      rw [List.cons_append, Quote.escapeAfter?] at h
      rw [Quote.escapeAfter?]
      split at h
      · cases h
      · next hc => rw [if_neg hc]; exact ih h

/-- In the first part of a text in which no block comment ends none ends. -/
theorem staysInBlock_of_append {s t : Text} (h : StaysInBlock (s ++ t)) : StaysInBlock s := by
  induction s with
  | nil => trivial
  | cons c s ih =>
    refine ⟨?_, ih h.2⟩
    cases s with
    | nil => simp
    | cons d s => exact h.1

/-- What may follow a trimmed text in place of what followed it: nothing or a new line, and nothing
if nothing followed it. -/
def MayFollow (next next' : Option CodePoint) : Prop :=
  next' = none ∨ next ≠ none ∧ next' = some (.scalar '\n')

/-- A construct without the blanks at its end is read as the same construct, and it is open if the
whole one is. -/
theorem Atomic.trimEnd {next next' : Option CodePoint} (hnext : MayFollow next next') {e : Bool}
    {r : Region} {t : Text} (h : Atomic next e [.construct r t]) :
    Atomic next' e [.construct r t.trimEnd] ∧ isTerminated t.trimEnd = isTerminated t := by
  have hend : next = none → next' = none := by
    rintro rfl
    exact hnext.resolve_right fun h => h.1 rfl
  cases h with
  | literal hq _ =>
    rw [trimEnd_literal]
    exact ⟨.literal hq (.nil false), rfl⟩
  | block hb _ =>
    rw [trimEnd_blockText]
    exact ⟨.block hb (.nil false), rfl⟩
  | @unclosedLiteral q content e hq hnone =>
    obtain ⟨back, hback⟩ := Text.exists_trimEnd content
    obtain ⟨e', hq'⟩ := exists_escapeAfter?_of_append (hback ▸ hq)
    rw [Text.trimEnd_cons (isBlank_point q)]
    refine ⟨.unclosedLiteral hq' (hend hnone), ?_⟩
    rw [isTerminated, isTerminated, finalMode_unclosed hq, finalMode_unclosed hq']
    rfl
  | @unclosedBlock body hb hnone =>
    obtain ⟨back, hback⟩ := Text.exists_trimEnd body
    have hb' : StaysInBlock body.trimEnd := staysInBlock_of_append (hback ▸ hb)
    rw [Text.trimEnd_cons (by decide), Text.trimEnd_cons (by decide)]
    refine ⟨.unclosedBlock hb' (hend hnone), ?_⟩
    rw [isTerminated, isTerminated, finalMode_unclosedBlock hb, finalMode_unclosedBlock hb']
  | @line body _ hbody hline _ =>
    obtain ⟨back, hback⟩ := Text.exists_trimEnd body
    have hbody' : ∀ c ∈ body.trimEnd, c.isLineEnd = false := fun c hc =>
      hbody c (by rw [hback]; exact List.mem_append_left _ hc)
    rw [Text.trimEnd_cons (by decide), Text.trimEnd_cons (by decide)]
    refine ⟨.line hbody' ?_ (.nil false), ?_⟩
    · rcases hnext with rfl | ⟨-, rfl⟩
      · simp
      · simp [CodePoint.isLineEnd]
    · rw [isTerminated, isTerminated, finalMode_line hbody, finalMode_line hbody']

/-- Only code is live. -/
theorem isLive_eq_false {r : Region} (hr : r ≠ .code) : r.isLive = false := by
  cases r with
  | code => exact absurd rfl hr
  | _ => rfl

/-- A construct has no live code points. -/
theorem filterMap_live?_construct {r : Region} (hr : r.isLive = false) (t : Text) :
    (r.construct t).filterMap Mark.live? = [] := by
  cases t with
  | nil => rfl
  | cons c t => simp [Region.construct, Mark.live?, Mark.isLive, hr]

namespace Atomic

variable {next : Option CodePoint} {e : Bool} {as : List Atom}

/-- The tokens of a text are those of its atoms. -/
theorem tokens_textOf (h : Atomic none false as) : tokens (textOf as) = tokensOf as := by
  have hcons : ∀ c w, Span.tokens ⟨.code, c :: w⟩ =
      Span.tokens ⟨.code, [c]⟩ ++ Span.tokens ⟨.code, w⟩ := by
    intro c w
    cases hc : c.isBlank <;> simp [Span.tokens, hc]
  rw [tokens, h.spans_textOf, flatMap_spansOf hcons, tokensOf, List.filterMap_eq_flatMap_toList]
  refine List.flatMap_congr fun a ha => ?_
  cases a with
  | point c => cases hc : c.isBlank <;> simp [Span.tokens, Atom.span, Atom.token?, hc]
  | construct r t => exact if_neg (h.construct_ne ha).1

/-- Whether an atom is open can be told from its token. -/
theorem any_isOpen (h : Atomic next e as) :
    as.any Atom.isOpen = (tokensOf as).any Span.isOpen := by
  induction as generalizing e with
  | nil => rfl
  | cons a as ih =>
    rw [List.any_cons, ih h.tail, tokensOf_cons a as, List.any_append]
    cases a with
    | point c =>
      cases hc : c.isBlank <;>
        simp [tokensOf, Atom.token?, Atom.isOpen, Span.isOpen, Region.isLive, hc]
    | construct r t =>
      have hr : r.isLive = false := isLive_eq_false (h.construct_ne List.mem_cons_self).1
      rw [← List.singleton_append] at h
      have htrim := (h.of_append.1.trimEnd (.inl rfl)).2
      simp [tokensOf, Atom.token?, Atom.isOpen, Span.isOpen, hr, htrim]

/-- The live code points of atoms that are not blank are their live tokens. -/
theorem filter_live_marksOf (h : Atomic next e as) :
    (((marksOf as).filterMap Mark.live?).filter fun c => !c.isBlank) =
      (tokensOf as).flatMap Span.live := by
  induction as generalizing e with
  | nil => rfl
  | cons a as ih =>
    rw [marksOf_cons, List.filterMap_append, List.filter_append, ih h.tail, tokensOf_cons a as,
      List.flatMap_append]
    cases a with
    | point c =>
      cases hc : c.isBlank <;>
        simp [tokensOf, Atom.marks, Atom.token?, Span.live, Mark.live?, Mark.isLive,
          Region.isLive, hc]
    | construct r t =>
      have hr := (h.construct_ne List.mem_cons_self).1
      simp [tokensOf, Atom.marks, Atom.token?, Span.live, hr,
        filterMap_live?_construct (isLive_eq_false hr)]

end Atomic

/-- A text is terminated if none of its tokens is open. -/
theorem isTerminated_eq (t : Text) : isTerminated t = !(tokens t).any Span.isOpen := by
  obtain ⟨as, has, rfl⟩ := exists_atomic t
  rw [has.tokens_textOf, ← has.any_isOpen]
  exact has.isTerminated_modeAfter

/-- The significant code points of a text are its live tokens. -/
theorem significant_eq_tokens (t : Text) :
    Repair.significant t = (tokens t).flatMap Span.live := by
  obtain ⟨as, has, rfl⟩ := exists_atomic t
  rw [has.tokens_textOf, Repair.significant, has.scan_textOf, has.filter_live_marksOf]

end SourcePress.Lexis
