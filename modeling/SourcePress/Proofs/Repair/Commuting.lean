import Mathlib.Data.List.Perm.Basic
import SourcePress.Platform
import SourcePress.Proofs.Repair.Passes

/-!
# Rewriting steps in any order

The steps between the comments and the bare values mend the lexemes of a text. What one of them
leaves is mended by the next one as it stood at first: no step changes what another one asks for
next to a lexeme that it mends. So in any order the steps mend the lexemes once with the remedies of
all of them, and remedies are joined in any order.
-/

namespace SourcePress.Repair

open Lexis

/-- The usual steps that rewrite a text without comments, in their order. -/
def Step.rewriting : List Step := [commas, keys, singleQuotes .keys, singleQuotes .values]

/-- Comments are taken out before the rewriting steps, and bare values are refused behind them. -/
theorem Step.usual_eq : usual = comments :: (rewriting ++ [bareValues]) := rfl

/-- The remedies of a step. -/
def Step.remedies : Step → Remedies
  | comments => noRemedies
  | commas => commaRemedies
  | keys => keyRemedies
  | singleQuotes target => quoteRemedies target
  | bareValues => noRemedies

/-- The remedies of every step are sound. -/
theorem Step.sound_remedies (step : Step) : step.remedies.Sound := by
  cases step with
  | comments => exact sound_noRemedies
  | commas => exact sound_commaRemedies
  | keys => exact sound_keyRemedies
  | singleQuotes target => exact sound_quoteRemedies target
  | bareValues => exact sound_noRemedies

/-- Only commas are mended by what is behind them. -/
theorem Step.late_remedies {step : Step} (h : step ≠ .commas) : step.remedies.Late := by
  cases step with
  | comments => exact late_noRemedies
  | commas => exact absurd rfl h
  | keys => exact late_keyRemedies
  | singleQuotes target => exact late_quoteRemedies target
  | bareValues => exact late_noRemedies

section Orders

variable [Alphabet]

/-- A rewriting step mends. -/
theorem Step.process_spelled {step : Step} (hstep : step ∈ rewriting) {ls : List Lexeme}
    (h : Lexed false ls) :
    step.process (spelled ls) = .ok (spelled (mendFrom step.remedies noNeighbour ls)) := by
  simp only [rewriting, List.mem_cons, List.not_mem_nil, or_false] at hstep
  rcases hstep with rfl | rfl | rfl | rfl
  · rw [Step.process, removeTrailingCommas_spelled h]
    rfl
  · rw [Step.process, quoteKeys_spelled h]
    rfl
  · rw [Step.process, convertSingleQuotes_spelled .keys h]
    rfl
  · rw [Step.process, convertSingleQuotes_spelled .values h]
    rfl

namespace Remedies

omit [Alphabet] in
/-- Remedies are joined in any order. -/
theorem join_right_comm (r s u : Remedies) : (r.join s).join u = (r.join u).join s := by
  simp only [join, Bool.or_right_comm]

omit [Alphabet] in
/-- Two late rules together are late. -/
theorem Late.join {r s : Remedies} (hr : r.Late) (hs : s.Late) : (r.join s).Late where
  drops b a := Bool.or_eq_false_iff.mpr ⟨hr.drops b a, hs.drops b a⟩
  quotes hb ha := congrArg₂ (· || ·) (hr.quotes hb ha) (hs.quotes hb ha)
  requotes hb ha := congrArg₂ (· || ·) (hr.requotes hb ha) (hs.requotes hb ha)

end Remedies

/-- Where no comma is dropped, a closing bracket in front stays in front, and none comes there. -/
theorem closes_mendFrom {r : Remedies} (hr : ∀ b a, r.drops b a = false) (before : Neighbour)
    {ls : List Lexeme} (hs : ∀ l ∈ ls, Shape l) :
    Closes (frontOf? CodePoint.isSpacing (mendFrom r before ls)) ↔
      Closes (frontOf? CodePoint.isSpacing ls) := by
  induction ls generalizing before with
  | nil => rfl
  | cons l rest ih =>
    obtain ⟨hl, hrest⟩ := List.forall_mem_cons.mp hs
    rcases hl.point_or_solid with ⟨c, hkey, rfl⟩ | ⟨hsolid, happly⟩
    · have hi := ih (behind before [live c]) hrest
      rw [mendFrom, Remedies.apply_point hkey, hr, if_neg fun hd => Bool.false_ne_true hd.2,
        List.singleton_append, frontOf?, frontOf?, Lexeme.isBlank_point]
      split
      · exact hi
      · rfl
    · obtain ⟨l', hsolid', hl'⟩ := happly r before (ahead rest)
      rw [mendFrom, hl']
      exact iff_of_false (not_closes_cons hsolid') (not_closes_cons hsolid)

/-- Of a word or a construct a rule makes what it makes together with the one that takes commas
out, and that one leaves it as it is. -/
theorem commaRemedies_apply (r : Remedies) {l : Lexeme} (hl : Solid l) (b a : Neighbour) :
    (r.join commaRemedies).apply b a l = r.apply b a l ∧ commaRemedies.apply b a l = [l] := by
  have hcomma : ∀ p : Prop, ¬(Lexeme.front? l = some (.scalar ',') ∧ p) :=
    fun _ h => hl.front?_ne (isKeyPoint_of_isAsciiMark (by decide)) h.1
  have hquotes : (r.join commaRemedies).quotes b a = r.quotes b a := Bool.or_false _
  have hrequotes : (r.join commaRemedies).requotes b a = r.requotes b a := Bool.or_false _
  constructor
  · simp only [Remedies.apply, if_neg (hcomma _), hquotes, hrequotes]
  · rw [Remedies.apply, if_neg (hcomma _), if_neg fun h => Bool.false_ne_true h.2,
      if_neg fun h => Bool.false_ne_true h.2]

/-- Taking trailing commas out of what is mended is mending once with both remedies. -/
theorem mendFrom_commaRemedies {r : Remedies} (hr : ∀ b a, r.drops b a = false)
    (b b' : Neighbour) {ls : List Lexeme} (hshape : ∀ l ∈ ls, Shape l) :
    mendFrom commaRemedies b' (mendFrom r b ls) = mendFrom (r.join commaRemedies) b ls := by
  induction ls generalizing b b' with
  | nil => rfl
  | cons l rest ih =>
    obtain ⟨hl, hrest⟩ := List.forall_mem_cons.mp hshape
    rcases hl.point_or_solid with ⟨c, hkey, rfl⟩ | ⟨hsolid, happly⟩
    · have hcloses := closes_mendFrom hr (behind b [live c]) hrest
      have hdropped : commaRemedies.drops b' (ahead (mendFrom r (behind b [live c]) rest)) =
          (r.join commaRemedies).drops b (ahead rest) := by
        have hjoin : (r.join commaRemedies).drops b (ahead rest) =
            commaRemedies.drops b (ahead rest) := by simp [Remedies.join, hr]
        rw [hjoin, Bool.eq_iff_iff, commaRemedies_drops, commaRemedies_drops]
        exact hcloses
      rw [mendFrom, mendFrom, Remedies.apply_point hkey, Remedies.apply_point hkey, hr,
        if_neg fun hd => Bool.false_ne_true hd.2, List.singleton_append, mendFrom,
        Remedies.apply_point hkey, hdropped, ih _ _ hrest]
    · obtain ⟨l', hsolid', hl'⟩ := happly r b (ahead rest)
      rw [mendFrom, mendFrom, (commaRemedies_apply r hsolid _ _).1, hl',
        List.singleton_append, mendFrom, (commaRemedies_apply r hsolid' _ _).2, ih _ _ hrest]

/-- A rewriting step behind others mends with its remedies too. -/
theorem Step.process_mendFrom {step : Step} (hstep : step ∈ rewriting) {r : Remedies}
    (hr : r.Sound) (hcommas : step = .commas → r.Late) {ls : List Lexeme} (h : Lexed false ls) :
    step.process (spelled (mendFrom r noNeighbour ls)) =
      .ok (spelled (mendFrom (r.join step.remedies) noNeighbour ls)) := by
  have hls : Lexed false (mendFrom r noNeighbour ls) := h.mendFrom hr (by simp)
  rw [process_spelled hstep hls]
  by_cases hstep' : step = .commas
  · subst hstep'
    rw [Step.remedies, mendFrom_commaRemedies (hcommas rfl).drops _ _ h.shape]
  · rw [mendFrom_mendFrom hr (late_remedies hstep') h.shape (.inl (.refl noNeighbour))]

/-- Rewriting steps one after the other mend with the remedies of all of them, if commas are taken
out once at most. -/
theorem foldlM_process {steps : List Step} (hsteps : ∀ step ∈ steps, step ∈ Step.rewriting)
    (hnodup : steps.Nodup) {r : Remedies} (hr : r.Sound) (hcommas : .commas ∈ steps → r.Late)
    {ls : List Lexeme} (h : Lexed false ls) :
    steps.foldlM Step.process (spelled (mendFrom r noNeighbour ls)) =
      .ok (spelled (mendFrom (steps.foldl (fun r step => r.join step.remedies) r) noNeighbour
        ls)) := by
  induction steps generalizing r with
  | nil => rfl
  | cons step steps ih =>
    obtain ⟨hstep, hrest⟩ := List.forall_mem_cons.mp hsteps
    obtain ⟨hnew, hnodup⟩ := List.nodup_cons.mp hnodup
    have hfirst := Step.process_mendFrom hstep hr (fun heq => hcommas (heq ▸ List.mem_cons_self)) h
    have hlate : Step.commas ∈ steps → (r.join step.remedies).Late := by
      intro hmem
      have hne : step ≠ .commas := fun heq => hnew (heq ▸ hmem)
      exact (hcommas (List.mem_cons_of_mem _ hmem)).join (Step.late_remedies hne)
    rw [List.foldlM_cons, hfirst, List.foldl_cons, ← ih hrest hnodup (hr.join step.sound_remedies)
      hlate]
    rfl

/-- The rewriting steps succeed on every text, and in every order they leave the same text. -/
theorem foldlM_process_perm (t : Text) {order : List Step} (h : order.Perm Step.rewriting) :
    ∃ t', Step.rewriting.foldlM Step.process t = .ok t' ∧ order.foldlM Step.process t = .ok t' := by
  have hls := lexed_lexemes t
  have hrun : ∀ steps : List Step, steps.Perm Step.rewriting →
      steps.foldlM Step.process t = .ok (spelled (mendFrom
        (steps.foldl (fun r step => r.join step.remedies) noRemedies) noNeighbour
          (lexemes (scan t)))) := by
    intro steps hsteps
    have hnodup : steps.Nodup := hsteps.nodup_iff.mpr (by decide)
    have hmem : ∀ step ∈ steps, step ∈ Step.rewriting := fun step hstep =>
      hsteps.mem_iff.mp hstep
    have hfold := foldlM_process hmem hnodup sound_noRemedies (fun _ => late_noRemedies) hls
    rwa [mendFrom_noRemedies, spelled_lexemes] at hfold
  have hjoin : order.foldl (fun r step => r.join step.remedies) noRemedies =
      Step.rewriting.foldl (fun r step => r.join step.remedies) noRemedies :=
    h.foldl_eq' (fun _ _ _ _ r => Remedies.join_right_comm r _ _) noRemedies
  exact ⟨_, hrun _ (.refl _), by rw [hrun order h, hjoin]⟩

end Orders

open scoped Platform

/-- A text in which every rewriting step finds something. -/
def rewritingSample : Text := "\x7ba: 'x', 'b': [1,],\x7d // 'c"

/-- The rewriting steps may be taken in the reverse order. -/
theorem foldlM_process_reverse :
    Step.rewriting.reverse.Perm Step.rewriting ∧
      ∃ t', Step.rewriting.foldlM Step.process rewritingSample = .ok t' ∧
        Step.rewriting.reverse.foldlM Step.process rewritingSample = .ok t' :=
  ⟨List.reverse_perm _, foldlM_process_perm rewritingSample (List.reverse_perm _)⟩

end SourcePress.Repair
