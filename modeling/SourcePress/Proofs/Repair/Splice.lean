import Mathlib.Tactic
import SourcePress.Repair.Edit
import SourcePress.Repair.Lexeme
import SourcePress.Proofs.Repair.Lexed

/-!
# Edits at the sites of a text

The edits that a rule of repair makes at the sites of a text come in order and never overlap, so
applying them puts the replacements in place of the lexemes they are for and keeps the rest.
-/

namespace SourcePress.Repair

open Lexis

/-- The edits that a rule makes at sites: a replacement for each lexeme that it is for. -/
def editsAt (rule : Site → Option Text) (sites : List Site) : List Edit :=
  sites.filterMap fun s => (rule s).map fun r => ⟨s.offset, s.offset + s.lexeme.length, r⟩

/-- The text that a rule leaves of sites. -/
def rewritten (rule : Site → Option Text) (sites : List Site) : Text :=
  sites.flatMap fun s => (rule s).getD s.text

/-- The middle of three parts is the slice between their bounds. -/
theorem slice_middle (a b c : Text) :
    (a ++ b ++ c).slice a.length (a.length + b.length : Nat) = b := by
  have hstart : (a ++ b ++ c).bound a.length = a.length := by
    simp only [Text.bound, List.length_append]
    rw [if_neg (by omega)]
    omega
  have hstop : (a ++ b ++ c).bound (a.length + b.length : Nat) = a.length + b.length := by
    simp only [Text.bound, List.length_append]
    rw [if_neg (by omega)]
    omega
  rw [Text.slice, hstart, hstop, List.append_assoc, List.drop_left, Nat.add_sub_cancel_left,
    List.take_left]

/-- No edit starts before the first site. -/
theorem le_start_of_mem_editsAt {blank : CodePoint → Bool} {rule : Site → Option Text}
    {offset : Nat} {before : Option CodePoint} {ls : List Lexeme} {e : Edit}
    (h : e ∈ editsAt rule (sitesFrom blank offset before ls)) : (offset : Int) ≤ e.start := by
  induction ls generalizing offset before with
  | nil => simp [editsAt, sitesFrom] at h
  | cons l ls ih =>
    rw [sitesFrom, editsAt, List.filterMap_cons] at h
    have htail : e ∈ editsAt rule (sitesFrom blank (offset + l.length)
        (if Lexeme.isBlank blank l then before else Lexeme.back? l) ls) →
        (offset : Int) ≤ e.start := by
      intro he
      have := ih he
      push_cast at this
      omega
    split at h
    · exact htail h
    · next r hr =>
      rcases List.mem_cons.mp h with rfl | he
      · obtain ⟨_, _, hr⟩ := Option.map_eq_some_iff.mp hr
        rw [← hr]
      · exact htail he

/-- The edits of a rule come in the order of their starts. -/
theorem inOrder_editsAt (blank : CodePoint → Bool) (rule : Site → Option Text) (offset : Nat)
    (before : Option CodePoint) (ls : List Lexeme) :
    inOrder (editsAt rule (sitesFrom blank offset before ls)) =
      editsAt rule (sitesFrom blank offset before ls) := by
  refine List.mergeSort_of_pairwise ?_
  induction ls generalizing offset before with
  | nil => simp [editsAt, sitesFrom]
  | cons l ls ih =>
    rw [sitesFrom, editsAt, List.filterMap_cons]
    split
    · exact ih _ _
    · next r hr =>
      obtain ⟨_, _, hr⟩ := Option.map_eq_some_iff.mp hr
      refine List.pairwise_cons.mpr ⟨fun e he => ?_, ih _ _⟩
      have hle := le_start_of_mem_editsAt he
      push_cast at hle
      rw [← hr, decide_eq_true_eq]
      dsimp only
      omega

/-- Splicing goes from site to site: what was kept since the last edit stands before the rest. -/
theorem spliceFrom_editsAt (blank : CodePoint → Bool) (rule : Site → Option Text)
    (past kept : Text) (before : Option CodePoint) (ls : List Lexeme) :
    spliceFrom (past ++ kept ++ spelled ls) past.length
        (editsAt rule (sitesFrom blank (past.length + kept.length) before ls)) =
      .ok (kept ++ rewritten rule (sitesFrom blank (past.length + kept.length) before ls)) := by
  induction ls generalizing past kept before with
  | nil =>
    have hslice := slice_middle past kept []
    simp only [List.append_nil] at hslice
    simp only [sitesFrom, editsAt, rewritten, List.filterMap_nil, List.flatMap_nil, spelled_nil,
      List.append_nil, spliceFrom, List.length_append]
    rw [hslice]
  | cons l ls ih =>
    rw [sitesFrom, editsAt, rewritten, List.filterMap_cons, List.flatMap_cons]
    cases hr : rule ⟨past.length + kept.length, before, l, ls⟩ with
    | none =>
      have hi := ih past (kept ++ points l) (if Lexeme.isBlank blank l then before
        else Lexeme.back? l)
      simp only [List.length_append, points, List.length_map, ← Nat.add_assoc] at hi
      simp only [Option.map_none, Option.getD_none, Site.text, spelled_cons, points]
      simp only [List.append_assoc] at hi ⊢
      exact hi
    | some r =>
      have hi := ih (past ++ kept ++ points l) [] (if Lexeme.isBlank blank l then before
        else Lexeme.back? l)
      have hslice := slice_middle past kept (points l ++ spelled ls)
      simp only [List.length_append, points, List.length_map, List.length_nil, Nat.add_zero,
        List.append_nil, List.nil_append] at hi
      have hstart : ¬((past.length + kept.length : Nat) : Int) < past.length := by omega
      simp only [Option.map_some, Option.getD_some, spliceFrom]
      rw [if_neg hstart, spelled_cons, hslice]
      simp only [editsAt, rewritten, points, ← List.append_assoc] at hi ⊢
      push_cast at hi ⊢
      rw [hi, Except.map, List.append_assoc]

/-- Applying the edits of a rule to a text rewrites its lexemes at their sites. -/
theorem applyEdits_editsAt [Alphabet] (blank : CodePoint → Bool) (rule : Site → Option Text) (t : Text) :
    applyEdits t (editsAt rule (sites blank t)) = .ok (rewritten rule (sites blank t)) := by
  have h := spliceFrom_editsAt blank rule [] [] none (lexemes (scan t))
  simp only [List.nil_append, List.length_nil, Nat.add_zero, spelled_lexemes] at h
  rw [applyEdits, sites, inOrder_editsAt]
  exact h

end SourcePress.Repair
