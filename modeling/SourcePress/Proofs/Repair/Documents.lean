import SourcePress.Proofs.Repair.LaidMend

/-!
# The repair of documents

A document of a dialect whose repairs are switched on is repaired to a strict document of the same
value. A strict document is only trimmed.
-/

namespace SourcePress

section Trimming

variable [Alphabet]

/-- No code point that a token begins or ends with is blank. -/
theorem Json.isBlank_of_token_point {c : CodePoint}
    (h : Json.IsPunctuation c ∨ (∃ q : Lexis.Quote, c = q.point) ∨ Json.IsAtomPoint c) :
    c.isBlank = false := by
  rcases h with h | ⟨q, rfl⟩ | h | rfl | rfl | rfl
  · rcases h with rfl | rfl | rfl | rfl | rfl | rfl <;> decide
  · cases q <;> decide
  · refine Bool.eq_false_of_not_eq_true fun hblank => ?_
    rw [Repair.isKeyPoint_of_isBlank hblank] at h
    cases h
  · decide
  · decide
  · decide

namespace Json

/-- A token ends with a mark of punctuation, a quote or a code point of atoms. -/
theorem Token.IsSound.getLast?_cases {tok : Token} (h : tok.IsSound) :
    ∀ c ∈ tok.text.getLast?,
      IsPunctuation c ∨ (∃ q : Lexis.Quote, c = q.point) ∨ IsAtomPoint c := by
  intro c hc
  cases tok with
  | punctuation d =>
    cases hc
    exact .inl h
  | literal q content =>
    rw [text, Lexis.Quote.literal, ← List.cons_append, List.getLast?_concat] at hc
    cases hc
    exact .inr (.inl ⟨q, rfl⟩)
  | key word => exact .inr (.inr (.inl (h.2 c (List.mem_of_getLast? hc))))
  | atom text => exact .inr (.inr (h.2.1 c (List.mem_of_getLast? hc)))

/-- The gap behind the last token may be cut off. -/
theorem Woven.exists_core {ts : List Token} {t : Text} (h : Woven false ts t)
    (hsound : ∀ tok ∈ ts, tok.IsSound) :
    ∃ core back, t = core ++ back ∧ (∀ c ∈ back, c.isBlank) ∧ Woven false ts core ∧
      ∀ c ∈ core.getLast?, c.isBlank = false := by
  induction h with
  | nil hgap =>
    exact ⟨[], _, rfl, fun c hc => isBlank_of_isGap (hgap.isGap c hc), .nil (.inl .nil), nofun⟩
  | @cons gap t tok ts hgap h ih =>
    obtain ⟨core, back, rfl, hback, hwoven, hlast⟩ :=
      ih fun tok htok => hsound tok (List.mem_cons_of_mem _ htok)
    have htok := hsound tok List.mem_cons_self
    refine ⟨gap ++ (tok.text ++ core), back, by simp, hback, .cons hgap hwoven, fun c hc => ?_⟩
    obtain ⟨d, w, htext, -⟩ := htok.head
    rw [List.getLast?_append, List.getLast?_append, htext, List.getLast?_cons] at hc
    cases hcore : core.getLast? with
    | some d =>
      rw [hcore] at hc
      exact hlast c (hcore.trans hc)
    | none =>
      rw [hcore] at hc
      refine isBlank_of_token_point (htok.getLast?_cases c ?_)
      rw [htext, List.getLast?_cons]
      exact hc

/-- A text of tokens may be trimmed. -/
theorem Woven.trim {tok : Token} {ts : List Token} {t : Text} (h : Woven false (tok :: ts) t)
    (hsound : ∀ tok' ∈ tok :: ts, tok'.IsSound) : Woven false (tok :: ts) t.trim := by
  obtain ⟨core, back, rfl, hback, hwoven, hlast⟩ := h.exists_core hsound
  cases hwoven with
  | @cons gap t _ _ hgap hrest =>
    have htok := hsound tok List.mem_cons_self
    obtain ⟨c, w, htext, hc⟩ := htok.head_cases
    have hblank : ∀ c ∈ gap, c.isBlank := fun c hc => isBlank_of_isGap (hgap.isGap c hc)
    have hself : Text.trim (tok.text ++ t) = tok.text ++ t := by
      refine Text.trim_eq_self ?_ fun d hd => hlast d ?_
      · rw [htext]
        rintro d ⟨⟩
        exact isBlank_of_token_point hc
      · rw [List.getLast?_append, hd]
        rfl
    rw [Text.trim_append hblank hback, hself]
    exact .cons .nil hrest

end Json

end Trimming

namespace Repair

open Lexis Json

/-- What is left of marks of blanks without comments is blank. -/
theorem isBlank_withoutComment {ms : List Mark} (h : ∀ m ∈ ms, m.point.isBlank) :
    ∀ c ∈ ms.filterMap withoutComment, c.isBlank := by
  intro c hc
  obtain ⟨m, hm, hmark⟩ := List.mem_filterMap.mp hc
  unfold withoutComment at hmark
  split at hmark
  · cases hmark
    exact h m hm
  · split at hmark
    · cases hmark
      decide
    · cases hmark

/-- Blanks around a text make no difference once its comments are taken out. -/
theorem stripComments_trim (t : Text) : stripComments t.trim = stripComments t := by
  obtain ⟨front, back, hsplit, hfront, hback⟩ := Text.exists_trim t
  have hblank : ∀ m ∈ scanFrom (finalMode t.trim) back, m.point.isBlank := by
    intro m hm
    have hpoints : points (scanFrom (finalMode t.trim) back) = back := by
      rw [scanFrom_eq_scanTo, points_scanTo]
    refine hback m.point ?_
    rw [← hpoints]
    exact List.mem_map_of_mem hm
  have hlive : (front.map Region.code.mark).filterMap withoutComment = front :=
    filterMap_withoutComment_live front
  have hscan := (scan_between (t := t.trim) hfront hback).1
  rw [← hsplit] at hscan
  rw [stripComments, stripComments, hscan, List.filterMap_append, List.filterMap_append, hlive,
    ← List.append_assoc, Text.trim_append hfront (isBlank_withoutComment hblank)]

/-- A document of a dialect that settings cover is repaired to a strict document of its value. -/
theorem repair_document [Platform] {s dialect : Settings} (hs : s.Covers dialect) {v : Json} {t : Text}
    (h : Document dialect v t) :
    ∃ t', repair s t = .ok t' ∧ Document .none v t' ∧ (dialect = .none → t' = t.trim) := by
  obtain ⟨ts, hderives, hwoven⟩ := h
  obtain ⟨ls, hlaid, rfl⟩ := exists_laid hwoven
  have hsound := hderives.isSound
  have hchain := hderives.isChain
  have hlexemes := (hlaid.lexed hsound hchain).lexemes_scan
  have hreadied : readied s (spelled ls) = (spelled (uncomment ls)).trim := by
    unfold readied
    by_cases hstrip : s.stripComments = true
    · rw [if_pos hstrip, stripComments_trim, stripComments_eq, hlexemes]
    · have hdialect : dialect.stripComments = false :=
        Bool.eq_false_of_not_eq_true fun hd => hstrip (hs.stripComments hd)
      rw [hdialect] at hlaid
      rw [if_neg hstrip, hlaid.uncomment_eq hsound]
  obtain ⟨core, hcore⟩ : ∃ core, core = (spelled (uncomment ls)).trim := ⟨_, rfl⟩
  have hcoreWoven : Woven false ts core := by
    obtain ⟨tok, ts', rfl, -⟩ := hderives.begins
    rw [hcore]
    exact (hlaid.uncomment hsound).woven.trim hsound
  rw [← hcore] at hreadied
  obtain ⟨ls', hlaid', hspelled⟩ := exists_laid hcoreWoven
  have hlexemes' : lexemes (scan core) = ls' := by
    rw [← hspelled]
    exact (hlaid'.lexed hsound hchain).lexemes_scan
  have hmended := @Laid.mendFrom _ s _ _ hlaid' hsound hchain noNeighbour none fun _ _ => rfl
  have hstrict := derives_mendTokens hs hderives (x := none) nofun none
  have hbare : bareFrom noNeighbour ls' = [] := hlaid'.bareFrom hsound hchain nofun
  refine ⟨spelled (mendFrom (remedies s) noNeighbour ls'), ?_,
    ⟨_, hstrict.1, hmended.1.woven⟩, fun hdialect => ?_⟩
  · rw [repair_eq, hreadied, hlexemes', hbare, mended, hreadied, hlexemes']
  · rw [hdialect] at hlaid
    rw [hmended.2 (hstrict.2 hdialect), hspelled, hcore, hlaid.uncomment_eq hsound]

end Repair

end SourcePress
