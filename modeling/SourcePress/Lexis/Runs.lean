/-!
# Runs of a list

A list is cut into runs: an item goes on in the run of the item before it exactly when the two are
joined. The runs put together are the list, and no run is empty.
-/

namespace SourcePress.Lexis

variable {α : Type}

/-- Puts an item before runs: into the first one if it is joined to its first item. -/
def consRun (joined : α → α → Bool) (a : α) : List (List α) → List (List α)
  | (b :: run) :: runs => if joined a b then (a :: b :: run) :: runs else [a] :: (b :: run) :: runs
  | runs => [a] :: runs

/-- The runs of a list. -/
def runsOf (joined : α → α → Bool) : List α → List (List α)
  | [] => []
  | a :: rest => consRun joined a (runsOf joined rest)

/-- Putting an item before runs puts it before their items. -/
theorem flatten_consRun (joined : α → α → Bool) (a : α) (runs : List (List α)) :
    (consRun joined a runs).flatten = a :: runs.flatten := by
  unfold consRun
  split
  · split <;> simp
  · simp

/-- The runs of a list put together are the list. -/
@[simp] theorem flatten_runsOf (joined : α → α → Bool) (l : List α) :
    (runsOf joined l).flatten = l := by
  induction l with
  | nil => rfl
  | cons a l ih => rw [runsOf, flatten_consRun, ih]

/-- No run is empty. -/
theorem ne_nil_of_mem_runsOf {joined : α → α → Bool} {l run : List α}
    (h : run ∈ runsOf joined l) : run ≠ [] := by
  induction l generalizing run with
  | nil => simp [runsOf] at h
  | cons a l ih =>
    rw [runsOf] at h
    unfold consRun at h
    split at h
    · next b first runs heq =>
      split at h <;> simp only [List.mem_cons] at h
      · rcases h with rfl | h
        · simp
        · exact ih (heq ▸ List.mem_cons_of_mem _ h)
      · rcases h with rfl | rfl | h
        · simp
        · simp
        · exact ih (heq ▸ List.mem_cons_of_mem _ h)
    · rcases List.mem_cons.mp h with rfl | h
      · simp
      · exact ih h

end SourcePress.Lexis
