import Mathlib.Tactic
import SourcePress.Lexis.Runs

/-!
# Runs one by one

Items that are joined to each other make one run if what follows is not joined to them: the cut of
a list can be read off from its front.
-/

namespace SourcePress.Lexis

variable {α : Type}

/-- True of two runs between which a list is cut. -/
def Apart (joined : α → α → Bool) (a b : List α) : Prop :=
  ∀ x ∈ a.getLast?, ∀ y ∈ b.head?, joined x y = false

/-- The first run of a list begins with its first item. -/
theorem exists_runsOf_cons (joined : α → α → Bool) (a : α) (rest : List α) :
    ∃ run runs, runsOf joined (a :: rest) = (a :: run) :: runs := by
  rw [runsOf]
  unfold consRun
  split
  · split
    · exact ⟨_, _, rfl⟩
    · exact ⟨_, _, rfl⟩
  · exact ⟨_, _, rfl⟩

/-- A run of joined items is put whole before runs that it is not joined to. -/
theorem runsOf_append {joined : α → α → Bool} {run rest : List α} (hne : run ≠ [])
    (hrun : run.IsChain fun a b => joined a b) (hapart : Apart joined run rest) :
    runsOf joined (run ++ rest) = run :: runsOf joined rest := by
  induction run with
  | nil => exact absurd rfl hne
  | cons a run ih =>
    cases run with
    | nil =>
      cases rest with
      | nil => rfl
      | cons b rest =>
        have hab : joined a b = false := hapart a (by simp) b (by simp)
        obtain ⟨run, runs, hruns⟩ := exists_runsOf_cons joined b rest
        rw [List.cons_append, List.nil_append, runsOf, hruns, consRun, hab]
        rfl
    | cons b run =>
      have hchain := List.isChain_cons_cons.mp hrun
      have hi := ih (by simp) hchain.2 (by simpa [Apart] using hapart)
      rw [List.cons_append, runsOf, hi, consRun, if_pos hchain.1]

/-- Lists that are cut apart have the runs of each. -/
theorem runsOf_append_of_apart {joined : α → α → Bool} {a b : List α} (hapart : Apart joined a b) :
    runsOf joined (a ++ b) = runsOf joined a ++ runsOf joined b := by
  induction a with
  | nil => rfl
  | cons x a ih =>
    cases a with
    | nil => exact runsOf_append (by simp) (List.isChain_singleton x) hapart
    | cons y a =>
      obtain ⟨run, runs, hruns⟩ := exists_runsOf_cons joined y a
      have hi := ih (by simpa [Apart] using hapart)
      have hleft : runsOf joined (x :: y :: a ++ b) =
          consRun joined x (runsOf joined (y :: a ++ b)) := rfl
      have hright : runsOf joined (x :: y :: a) = consRun joined x (runsOf joined (y :: a)) := rfl
      rw [hleft, hright, hi, hruns, List.cons_append, consRun, consRun]
      split <;> rfl

end SourcePress.Lexis
