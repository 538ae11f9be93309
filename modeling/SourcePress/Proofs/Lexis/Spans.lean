import SourcePress.Proofs.Lexis.Atoms
import SourcePress.Proofs.Repair.Literals

/-!
# The spans of a text

The spans of a text are its segments without their offsets: a string literal or a comment is one
span, and so is a longest run of live code points. They can be read off from the atoms of the text,
and so can the string literals and the live code points that are not blank.
-/

namespace SourcePress.Lexis

/-- A region with a text that lies in it. -/
structure Span where
  /-- The region. -/
  region : Region
  /-- The text. -/
  text : Text
  deriving DecidableEq, Repr

/-- A segment without its offset. -/
def Segment.span (s : Segment) : Span := ⟨s.region, s.text⟩

/-- The spans of a text in order. -/
def spans (t : Text) : List Span := (segments t).map Segment.span

namespace Span

/-- The marks that a scan gives to a span. -/
def marks (s : Span) : List Mark :=
  if s.region = .code then s.text.map Region.code.mark else s.region.construct s.text

/-- The string literal that a span is. -/
def literal? (s : Span) : Option (Quote × Text) := s.region.quote?.map fun q => (q, s.text)

end Span

namespace Atom

/-- An atom as a span of its own. -/
def span : Atom → Span
  | point c => ⟨.code, [c]⟩
  | construct r t => ⟨r, t⟩

/-- The string literal that an atom is. -/
def literal? (a : Atom) : Option (Quote × Text) := a.span.literal?

end Atom

/-- The spans of atoms: live code points behind each other are one. -/
def spansOf : List Atom → List Span
  | [] => []
  | .construct r t :: rest => ⟨r, t⟩ :: spansOf rest
  | .point c :: rest =>
    match spansOf rest with
    | ⟨.code, w⟩ :: more => ⟨.code, c :: w⟩ :: more
    | more => ⟨.code, [c]⟩ :: more

/-- A live code point goes to the front of the span of live code behind it, if there is one. -/
theorem spansOf_point (c : CodePoint) (rest : List Atom) :
    (∃ w more, spansOf rest = ⟨.code, w⟩ :: more ∧
      spansOf (.point c :: rest) = ⟨.code, c :: w⟩ :: more) ∨
      (∀ s ∈ (spansOf rest).head?, s.region ≠ .code) ∧
        spansOf (.point c :: rest) = ⟨.code, [c]⟩ :: spansOf rest := by
  rw [spansOf]
  split
  · next w more heq => exact .inl ⟨w, more, heq, rfl⟩
  · next hnot =>
    refine .inr ⟨fun s hs hcode => ?_, rfl⟩
    obtain ⟨more, hmore⟩ := List.head?_eq_some_iff.mp hs
    exact hnot s.text more (by rw [hmore, ← hcode])

/-- The spans of atoms put together are their text. -/
@[simp] theorem flatMap_text_spansOf (as : List Atom) :
    (spansOf as).flatMap Span.text = textOf as := by
  induction as with
  | nil => rfl
  | cons a as ih =>
    cases a with
    | construct r t => rw [spansOf, List.flatMap_cons, ih]; rfl
    | point c =>
      rcases spansOf_point c as with ⟨w, more, hrest, heq⟩ | ⟨-, heq⟩
      · rw [heq, textOf_cons, ← ih, hrest]; rfl
      · rw [heq, List.flatMap_cons, ih]; rfl

/-- What is read off from spans code point by code point in live code is read off from atoms. -/
theorem flatMap_spansOf {β : Type} {f : Span → List β}
    (hf : ∀ c w, f ⟨.code, c :: w⟩ = f ⟨.code, [c]⟩ ++ f ⟨.code, w⟩) (as : List Atom) :
    (spansOf as).flatMap f = as.flatMap fun a => f a.span := by
  induction as with
  | nil => rfl
  | cons a as ih =>
    rw [List.flatMap_cons, ← ih]
    cases a with
    | construct r t => rfl
    | point c =>
      rcases spansOf_point c as with ⟨w, more, hrest, heq⟩ | ⟨-, heq⟩
      · rw [heq, hrest, List.flatMap_cons, List.flatMap_cons, hf, List.append_assoc]; rfl
      · rw [heq, List.flatMap_cons]; rfl

namespace Atomic

variable {next : Option CodePoint} {e : Bool} {as : List Atom}

/-- A construct lies outside live code and is not empty. -/
theorem construct_ne (h : Atomic next e as) {r : Region} {t : Text}
    (hmem : .construct r t ∈ as) : r ≠ .code ∧ ∃ c t', t = c :: t' := by
  induction h with
  | nil => cases hmem
  | point _ _ ih => exact ih (by simpa using hmem)
  | literal _ _ ih =>
    rcases List.mem_cons.mp hmem with heq | hmem
    · cases heq
      exact ⟨by simp, _, _, rfl⟩
    · exact ih hmem
  | unclosedLiteral =>
    cases List.mem_singleton.mp hmem
    exact ⟨by simp, _, _, rfl⟩
  | line _ _ _ ih =>
    rcases List.mem_cons.mp hmem with heq | hmem
    · cases heq
      exact ⟨by simp, _, _, rfl⟩
    · exact ih hmem
  | block _ _ ih =>
    rcases List.mem_cons.mp hmem with heq | hmem
    · cases heq
      exact ⟨by simp, _, _, rfl⟩
    · exact ih hmem
  | unclosedBlock =>
    cases List.mem_singleton.mp hmem
    exact ⟨by simp, _, _, rfl⟩

/-- No span is empty. -/
theorem text_ne_nil (h : Atomic next e as) : ∀ s ∈ spansOf as, s.text ≠ [] := by
  induction as generalizing e with
  | nil => simp [spansOf]
  | cons a as ih =>
    have hi := ih h.tail
    cases a with
    | construct r t =>
      obtain ⟨-, c, t', rfl⟩ := h.construct_ne List.mem_cons_self
      rw [spansOf]
      exact List.forall_mem_cons.mpr ⟨List.cons_ne_nil c t', hi⟩
    | point c =>
      rcases spansOf_point c as with ⟨w, more, hrest, heq⟩ | ⟨-, heq⟩
      · rw [heq]
        rw [hrest] at hi
        exact List.forall_mem_cons.mpr ⟨List.cons_ne_nil c w, (List.forall_mem_cons.mp hi).2⟩
      · rw [heq]
        exact List.forall_mem_cons.mpr ⟨List.cons_ne_nil c [], hi⟩

/-- A sequence begins with a live mark or with the first mark of a construct. -/
theorem head?_marksOf (h : Atomic next e as) :
    ∀ m ∈ (marksOf as).head?, m.region = .code ∨ m.opens = true := by
  cases as with
  | nil => simp
  | cons a as =>
    cases a with
    | point c => simp [Atom.marks]
    | construct r t =>
      obtain ⟨-, c, t', rfl⟩ := h.construct_ne List.mem_cons_self
      simp [Atom.marks, Region.construct]

/-- The marks of atoms fall into runs that are the marks of their spans. -/
theorem runsOf_marksOf (h : Atomic next e as) :
    runsOf continues (marksOf as) = (spansOf as).map Span.marks := by
  induction as generalizing e with
  | nil => rfl
  | cons a as ih =>
    have hi := ih h.tail
    rw [marksOf_cons]
    cases a with
    | construct r t =>
      obtain ⟨hr, c, t', rfl⟩ := h.construct_ne List.mem_cons_self
      have hmarks : Span.marks ⟨r, c :: t'⟩ = r.construct (c :: t') := if_neg hr
      have hapart : Apart continues (r.construct (c :: t')) (marksOf as) := by
        intro x hx m hm
        have hregion : x.region = r := region_of_mem_construct (List.mem_of_getLast? hx)
        rcases h.tail.head?_marksOf m hm with hlive | hopens
        · cases r <;> simp_all [continues, Region.alike]
        · simp [continues, hopens]
      have hne : r.construct (c :: t') ≠ [] := by simp [Region.construct]
      rw [Atom.marks, runsOf_append hne (Repair.isChain_continues r (c :: t')) hapart, hi, spansOf,
        List.map_cons, hmarks]
    | point c =>
      have hne := h.tail.text_ne_nil
      rw [Atom.marks, List.singleton_append, runsOf, hi]
      -- before live code the run goes on, and before a construct it ends
      rcases spansOf_point c as with ⟨w, more, hrest, heq⟩ | ⟨hhead, heq⟩
      · obtain ⟨d, w', rfl⟩ := List.exists_cons_of_ne_nil (hne ⟨.code, w⟩ (by simp [hrest]))
        rw [heq, hrest]
        rfl
      · rw [heq]
        cases hrest : spansOf as with
        | nil => rfl
        | cons s more =>
          have hcode : s.region ≠ .code := hhead s (by simp [hrest])
          obtain ⟨d, w', hw⟩ := List.exists_cons_of_ne_nil (hne s (by simp [hrest]))
          have hmarks : s.marks = ⟨d, s.region, true⟩ :: w'.map s.region.mark := by
            rw [Span.marks, if_neg hcode, hw]
            rfl
          have hcut : continues (Region.code.mark c) ⟨d, s.region, true⟩ = false := by
            simp [continues]
          simp only [List.map_cons, hmarks]
          rw [consRun, hcut]
          rfl

/-- The spans of a text are those of its atoms. -/
theorem spans_textOf (h : Atomic none false as) : spans (textOf as) = spansOf as := by
  have hspans : ∀ (ss : List Span) (start : Nat), (∀ s ∈ ss, s.text ≠ []) →
      (segmentsAt start (ss.map Span.marks)).map Segment.span = ss := by
    intro ss
    induction ss with
    | nil => exact fun _ _ => rfl
    | cons s ss ih =>
      intro start hss
      obtain ⟨r, t⟩ := s
      obtain ⟨c, t, rfl⟩ := List.exists_cons_of_ne_nil (hss _ List.mem_cons_self)
      have hi := fun start => ih start fun s hs => hss s (List.mem_cons_of_mem _ hs)
      cases r <;>
        simp [Span.marks, segmentsAt, Region.construct, Segment.span, hi]
  rw [spans, segments, h.scan_textOf, h.runsOf_marksOf]
  exact hspans _ 0 h.text_ne_nil

/-- The string literals of a text are those of its atoms. -/
theorem stringSegments_textOf (h : Atomic none false as) :
    Repair.stringSegments (textOf as) = as.filterMap Atom.literal? := by
  have hspans : Repair.stringSegments (textOf as) =
      (spans (textOf as)).filterMap Span.literal? := by
    rw [Repair.stringSegments, spans, List.filterMap_map]
    rfl
  rw [hspans, h.spans_textOf, List.filterMap_eq_flatMap_toList, List.filterMap_eq_flatMap_toList]
  exact flatMap_spansOf (fun _ _ => rfl) as

end Atomic

/-- A closed literal is the only segment of its text. -/
theorem segments_literal {q : Quote} {content : Text} (h : q.Encloses content) :
    segments (q.literal content) = [⟨.string q, q.literal content, 0⟩] := by
  have hatomic : Atomic none false [.construct (.string q) (q.literal content)] :=
    .literal h (.nil false)
  have htext : textOf [.construct (.string q) (q.literal content)] = q.literal content := by
    rw [textOf_cons, textOf_nil, List.append_nil]
    rfl
  have hscan := hatomic.scan_textOf
  rw [htext] at hscan
  rw [segments, hscan, hatomic.runsOf_marksOf]
  simp [spansOf, Span.marks, Quote.literal, Region.construct, segmentsAt]

end SourcePress.Lexis
