import SourcePress.Proofs.Lexis.Tokens

/-!
# Trimmed atoms

A piece of a text that is trimmed, and then followed by a new line or by nothing, is read as atoms
with the tokens that the piece has: what is trimmed away is live blanks and the blanks at the end
of the last construct.
-/

namespace SourcePress.Lexis

/-- True of a string literal or a block comment that its own text closes. -/
def Span.isClosed (s : Span) : Bool :=
  (s.region.isString || s.region = .blockComment) && isTerminated s.text

/-- A live blank is no token. -/
@[simp] theorem tokensOf_blank {c : CodePoint} (hc : c.isBlank) : tokensOf [.point c] = [] := by
  simp [tokensOf, Atom.token?, hc]

/-- Live blanks are no tokens. -/
theorem tokensOf_blanks {w : Text} (hw : ∀ c ∈ w, c.isBlank) : tokensOf (w.map .point) = [] := by
  induction w with
  | nil => rfl
  | cons c w ih =>
    obtain ⟨hc, hw⟩ := List.forall_mem_cons.mp hw
    rw [List.map_cons, tokensOf_cons, tokensOf_blank hc, ih hw, List.append_nil]

/-- The head of a text that is not blank stays when the text is trimmed at its end. -/
theorem head?_trimEnd {t : Text} (ht : t.trimEnd ≠ []) : t.trimEnd.head? = t.head? := by
  obtain ⟨back, hback⟩ := Text.exists_trimEnd t
  have hhead := congrArg List.head? hback
  rw [List.head?_append_of_ne_nil _ ht] at hhead
  exact hhead.symm

namespace Atomic

variable {next next' : Option CodePoint} {e : Bool} {as : List Atom} {a : Atom}

/-- Blanks in front of atoms are live code. -/
theorem blanks_append {w : Text} (hw : ∀ c ∈ w, c.isBlank) (h : Atomic next false as) :
    Atomic next false (w.map .point ++ as) := by
  induction w with
  | nil => exact h
  | cons c w ih =>
    obtain ⟨hc, hw⟩ := List.forall_mem_cons.mp hw
    refine .point (.inr (opening?_of_isBlank hc _)) ?_
    simpa [ne_backslash_of_isBlank hc] using ih hw

/-- Atoms without the blanks in front of them are read as the same tokens. -/
theorem exists_dropWhile (h : Atomic next false as) :
    ∃ bs, Atomic next false bs ∧ textOf bs = (textOf as).dropWhile CodePoint.isBlank ∧
      tokensOf bs = tokensOf as := by
  induction as with
  | nil => exact ⟨[], h, rfl, rfl⟩
  | cons a as ih =>
    cases a with
    | construct r t =>
      refine ⟨_, h, ?_, rfl⟩
      have hhead : ∃ c t', t = c :: t' ∧ c.isBlank = false := by
        cases h with
        | literal => exact ⟨_, _, rfl, isBlank_point _⟩
        | unclosedLiteral => exact ⟨_, _, rfl, isBlank_point _⟩
        | line => exact ⟨_, _, rfl, by decide⟩
        | block => exact ⟨_, _, rfl, by decide⟩
        | unclosedBlock => exact ⟨_, _, rfl, by decide⟩
      obtain ⟨c, t', rfl, hc⟩ := hhead
      rw [textOf_cons, Atom.text, List.cons_append, List.dropWhile_cons_of_neg (by simp [hc])]
    | point c =>
      cases hc : c.isBlank with
      | false =>
        refine ⟨_, h, ?_, rfl⟩
        rw [textOf_cons, Atom.text, List.singleton_append,
          List.dropWhile_cons_of_neg (by simp [hc])]
      | true =>
        have htail := h.tail
        rw [Atom.escapes, decide_eq_false (ne_backslash_of_isBlank hc), Bool.and_false] at htail
        obtain ⟨bs, hbs, htext, htokens⟩ := ih htail
        refine ⟨bs, hbs, ?_, ?_⟩
        · rw [htext, textOf_cons, Atom.text, List.singleton_append, List.dropWhile_cons_of_pos hc]
        · rw [htokens, tokensOf_cons (.point c), tokensOf_blank hc, List.nil_append]

/-- An atom without the blanks at its end is read as the same token. -/
theorem exists_trimEnd_singleton (hnext : MayFollow next next') (h : Atomic next e [a]) :
    ∃ bs, Atomic next' e bs ∧ textOf bs = a.text.trimEnd ∧ tokensOf bs = tokensOf [a] := by
  cases a with
  | construct r t =>
    have htrim : t.trimEnd.trimEnd = t.trimEnd := List.rdropWhile_idempotent _ _
    refine ⟨_, (Atomic.trimEnd hnext h).1, by simp [Atom.text], ?_⟩
    simp [tokensOf, Atom.token?, htrim]
  | point c =>
    cases hc : c.isBlank with
    | true =>
      have hnil : Text.trimEnd [c] = [] := Text.trimEnd_eq_nil.mpr (by simpa using hc)
      exact ⟨[], .nil e, hnil.symm, (tokensOf_blank hc).symm⟩
    | false =>
      have hsingle : Text.trimEnd [c] = [c] := Text.trimEnd_concat hc []
      refine ⟨[.point c], ?_, hsingle.symm, rfl⟩
      cases h with
      | point hopen _ =>
        refine .point (hopen.imp_right fun hnone => ?_) (.nil _)
        have hquote := ofPoint?_of_opening? hnone
        rcases hnext with rfl | ⟨-, rfl⟩
        · exact opening?_of_next hquote (by simp) (by simp)
        · exact opening?_of_next hquote (by decide) (by decide)

/-- Atoms without the blanks at their end are read as the same tokens. -/
theorem exists_trimEnd (hnext : MayFollow next next') (h : Atomic next e as) :
    ∃ bs, Atomic next' e bs ∧ textOf bs = (textOf as).trimEnd ∧ tokensOf bs = tokensOf as := by
  induction as generalizing e with
  | nil => exact ⟨[], .nil e, rfl, rfl⟩
  | cons a as ih =>
    obtain ⟨bs, hbs, htext, htokens⟩ := ih h.tail
    rw [← List.singleton_append] at h
    have hfirst := h.of_append.1
    rw [textOf_cons, Text.trimEnd_append]
    split
    · next hblank =>
      -- all of the rest is trimmed away, and so may be the end of the first atom
      obtain rfl : bs = [] := hbs.eq_nil_of_textOf (htext.trans hblank)
      have hnext' : MayFollow ((textOf as).head?.or next) next' :=
        hnext.imp_right fun ⟨hne, heq⟩ => ⟨by simp [hne], heq⟩
      obtain ⟨cs, hcs, hcstext, hcstokens⟩ := exists_trimEnd_singleton hnext' hfirst
      refine ⟨cs, hcs, hcstext, ?_⟩
      rw [hcstokens, tokensOf_cons a as, ← htokens, tokensOf_nil, List.append_nil]
    · next hne =>
      refine ⟨[a] ++ bs, .append ?_ hbs, ?_, ?_⟩
      · have hhead : (textOf bs).head?.or next' = (textOf as).head?.or next := by
          obtain ⟨c, rest, hc⟩ := List.exists_cons_of_ne_nil hne
          have hsame := head?_trimEnd hne
          rw [htext, hsame]
          rw [hc, List.head?_cons] at hsame
          rw [← hsame, Option.some_or, Option.some_or]
        rwa [hhead]
      · rw [textOf_append, htext, textOf_cons, textOf_nil, List.append_nil]
      · rw [tokensOf_append, htokens, ← tokensOf_append, List.singleton_append]

/-- A trimmed piece of a text is read as the tokens of the piece. -/
theorem exists_trim (hnext : MayFollow next next') (h : Atomic next false as) :
    ∃ bs, Atomic next' false bs ∧ textOf bs = Text.trim (textOf as) ∧
      tokensOf bs = tokensOf as := by
  obtain ⟨bs, hbs, htext, htokens⟩ := h.exists_dropWhile
  obtain ⟨cs, hcs, htext', htokens'⟩ := exists_trimEnd hnext hbs
  exact ⟨cs, hcs, by rw [htext', htext, Text.trim], htokens'.trans htokens⟩

/-- A closed construct has no blanks at its end, and a construct is closed if it is so without the
blanks at its end. -/
theorem isClosed_trimEnd {r : Region} {t : Text} (h : Atomic next e [.construct r t]) :
    (⟨r, t.trimEnd⟩ : Span).isClosed = (⟨r, t⟩ : Span).isClosed ∧
      ((⟨r, t⟩ : Span).isClosed = true → t.trimEnd = t) := by
  constructor
  · have htrim : isTerminated t.trimEnd = isTerminated t := (Atomic.trimEnd (.inl rfl) h).2
    rw [Span.isClosed, Span.isClosed, htrim]
  · intro hclosed
    cases h with
    | @literal q content => exact trimEnd_literal q content
    | @block body => exact trimEnd_blockText body
    | line => cases hclosed
    | @unclosedLiteral q content e hq =>
      have hopen : isTerminated (q.point :: content) = false := by
        rw [isTerminated, finalMode_unclosed hq]
        rfl
      rw [Span.isClosed, hopen, Bool.and_false] at hclosed
      cases hclosed
    | @unclosedBlock body hb =>
      have hopen : isTerminated ('/' :: '*' :: body) = false := by
        rw [isTerminated, finalMode_unclosedBlock hb]
        rfl
      rw [Span.isClosed, hopen, Bool.and_false] at hclosed
      cases hclosed

/-- The closed constructs of atoms are tokens as they are. -/
theorem filter_isClosed_tokensOf (h : Atomic next e as) :
    (tokensOf as).filter Span.isClosed = (spansOf as).filter Span.isClosed := by
  have hcode : ∀ t, (⟨.code, t⟩ : Span).isClosed = false := fun _ => rfl
  induction as generalizing e with
  | nil => rfl
  | cons a as ih =>
    have hi := ih h.tail
    rw [tokensOf_cons, List.filter_append, hi]
    cases a with
    | construct r t =>
      rw [← List.singleton_append] at h
      obtain ⟨hsame, htrim⟩ := h.of_append.1.isClosed_trimEnd
      have htoken : tokensOf [.construct r t] = [⟨r, t.trimEnd⟩] := rfl
      rw [spansOf, htoken]
      cases hclosed : (⟨r, t⟩ : Span).isClosed with
      | true =>
        rw [htrim hclosed, List.filter_cons_of_pos hclosed, List.filter_cons_of_pos hclosed]
        rfl
      | false =>
        rw [List.filter_cons_of_neg (by simp [hsame, hclosed]),
          List.filter_cons_of_neg (by simp [hclosed])]
        rfl
    | point c =>
      have hpoint : (tokensOf [.point c]).filter Span.isClosed = [] := by
        cases hc : c.isBlank <;> simp [tokensOf, Atom.token?, hc, hcode]
      rw [hpoint, List.nil_append]
      rcases spansOf_point c as with ⟨w, more, hrest, heq⟩ | ⟨-, heq⟩
      · rw [heq, hrest, List.filter_cons_of_neg (by simp [hcode]),
          List.filter_cons_of_neg (by simp [hcode])]
      · rw [heq, List.filter_cons_of_neg (by simp [hcode])]

end Atomic

/-- The closed string literals and block comments of a text are tokens as they are. -/
theorem filter_isClosed_tokens (t : Text) :
    (tokens t).filter Span.isClosed = (spans t).filter Span.isClosed := by
  obtain ⟨as, has, rfl⟩ := exists_atomic t
  rw [has.tokens_textOf, has.spans_textOf, has.filter_isClosed_tokensOf]

end SourcePress.Lexis
