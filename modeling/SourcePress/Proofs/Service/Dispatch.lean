import SourcePress.Proofs.Request.Spelling
import SourcePress.Proofs.Service.Messages
import SourcePress.Service.Dispatch

/-!
# Dispatch by size changes no outcome

The kind and the operation are resolved before the size is looked at. What they select in vain is
told as a problem if it can be spelled, and fails the whole dispatch if it cannot: nothing else
escapes. A request that is offloaded to a pool that can be started comes back with the outcome that
it has in place, so the threshold has no part in the outcome then. Where the pool cannot be started
it has: the request fails if it is offloaded, and may succeed in place.
-/

namespace SourcePress.Service

/-- True of an outcome with exactly one of output and message: an output if it is a success, and a
message if it is a failure. -/
def Outcome.IsWhole {α : Type} (o : Outcome α) : Prop :=
  o.output?.isSome = o.success ∧ o.errorMessage?.isSome = !o.success

/-- Each outcome is whole. -/
theorem Outcome.isWhole {α : Type} (o : Outcome α) : o.IsWhole := by
  rw [IsWhole, output?, errorMessage?, success]
  cases o.ending <;> exact ⟨rfl, rfl⟩

/-- True of a failure that is a problem if what it tells can be spelled, and the lack of a spelling
if it cannot. -/
def Tells (f : Failure) (spelled : Prop) : Prop :=
  (spelled ∧ ∃ p, f = .problem p) ∨ (¬spelled ∧ ∃ g, f = .unspelled g)

/-- There is a text to work on, or there is none. -/
theorem blank_or_exists_text (text? : Option Text) :
    (∀ t ∈ text?, t.isBlank = true) ∨ ∃ t, text? = some t ∧ t.isBlank = false := by
  cases text? with
  | none => exact .inl nofun
  | some t =>
    cases h : t.isBlank with
    | true => exact .inl fun _ ht => Option.some.inj ht ▸ h
    | false => exact .inr ⟨t, rfl, h⟩

section Runs

variable [Platform]

section Resolution

variable {operation kind : Selector} {t : Text} {f : Failure}

/-- What is selected in vain is told by its spelling. -/
theorem tells_selectedInVain (operation : Selector) (t : Text) :
    Tells (selectedInVain operation t) operation.IsSpelled := by
  have htext : (Selector.ofText t).text = .ok t := rfl
  rw [selectedInVain, Problem.ofSelectors, htext]
  cases hspelled : operation.spelled with
  | ok spelling =>
    refine .inl ⟨Selector.exists_spelled_iff.mp ⟨spelling, hspelled⟩, ?_⟩
    cases (Selector.ofText t).isTrue <;> exact ⟨_, rfl⟩
  | error g =>
    refine .inr ⟨fun hspell => ?_, g, rfl⟩
    obtain ⟨spelling, hok⟩ := Selector.exists_spelled_iff.mpr hspell
    cases hspelled.symm.trans hok

/-- A kind is resolved if it is selected. -/
theorem resolveKind_eq_ok_iff {k : ContentKind} :
    resolveKind kind operation = .ok k ↔ kind.kind? = some k := by
  rw [resolveKind]
  cases kind.kind? with
  | some k' => simp
  | none => cases kind.text <;> simp

/-- A kind that is not resolved is told, and so is the operation. -/
theorem tells_of_resolveKind (h : resolveKind kind operation = .error f) :
    Tells f (operation.IsSpelled ∧ kind.IsSpelled) := by
  rw [resolveKind] at h
  cases hkind : kind.kind? with
  | some k =>
    rw [hkind] at h
    cases h
  | none =>
    rw [hkind] at h
    cases htext : kind.text with
    | ok t =>
      rw [htext] at h
      cases h
      have hspelled := Selector.exists_text_iff.mp ⟨t, htext⟩
      simpa only [hspelled, and_true] using tells_selectedInVain operation t
    | error g =>
      rw [htext] at h
      cases h
      refine .inr ⟨fun hspelled => ?_, g, rfl⟩
      obtain ⟨t, hok⟩ := Selector.exists_text_iff.mpr hspelled.2
      cases htext.symm.trans hok

/-- An operation is resolved for a kind if it is selected and the kind has it. -/
theorem resolveOperation_eq_ok_iff {k : ContentKind} {o : Operation} :
    resolveOperation operation (.kind k) = .ok o ↔
      operation.operation? = some o ∧ o.isFor k = true := by
  have hkind : resolveKind (.kind k) operation = .ok k := rfl
  rw [resolveOperation, hkind]
  simp only [bind, Except.bind]
  cases operation.operation? with
  | none => simp
  | some selected =>
    simp only [Option.some.injEq]
    split
    · next hfor =>
      constructor
      · rintro ⟨⟩
        exact ⟨rfl, hfor⟩
      · rintro ⟨rfl, -⟩
        rfl
    · next hfor =>
      constructor
      · rintro ⟨⟩
      · rintro ⟨rfl, h⟩
        exact absurd h hfor

/-- An operation that is not resolved for a kind is told. -/
theorem tells_of_resolveOperation {k : ContentKind}
    (h : resolveOperation operation (.kind k) = .error f) : Tells f operation.IsSpelled := by
  have hkind : resolveKind (.kind k) operation = .ok k := rfl
  rw [resolveOperation, hkind] at h
  simp only [bind, Except.bind] at h
  cases hoperation : operation.operation? with
  | none =>
    rw [hoperation] at h
    cases h
    exact tells_selectedInVain _ _
  | some o =>
    rw [hoperation] at h
    dsimp only at h
    split at h
    · cases h
    · cases h
      have hspelled := Selector.isSpelled_of_operation? hoperation
      have htells := tells_selectedInVain (.operation o) k.name
      have hself : (Selector.operation o).IsSpelled := trivial
      simpa only [hspelled, hself] using htells

/-- A request is made of selectors that can be spelled. -/
theorem isSpelled_of_resolve {r : Request} (h : resolve t operation kind = .ok r) :
    operation.IsSpelled ∧ kind.IsSpelled := by
  obtain ⟨k, hkind, hrest⟩ := exists_of_bind_eq_ok h
  obtain ⟨o, hoperation, -⟩ := exists_of_bind_eq_ok hrest
  exact ⟨Selector.isSpelled_of_operation? (resolveOperation_eq_ok_iff.mp hoperation).1,
    Selector.isSpelled_of_kind? (resolveKind_eq_ok_iff.mp hkind)⟩

/-- Selectors that make no request are told. -/
theorem tells_of_resolve (h : resolve t operation kind = .error f) :
    Tells f (operation.IsSpelled ∧ kind.IsSpelled) := by
  rcases cases_of_bind_eq_error h with hkind | ⟨k, hkind, hrest⟩
  · exact tells_of_resolveKind hkind
  · have hspelled := Selector.isSpelled_of_kind? (resolveKind_eq_ok_iff.mp hkind)
    rcases cases_of_bind_eq_error hrest with hoperation | ⟨o, -, hlast⟩
    · simpa only [hspelled, and_true] using tells_of_resolveOperation hoperation
    · cases hlast

end Resolution

section Routes

variable {offload : Offloader} {config : Config} {text? : Option Text}
  {operation kind : Selector} {threshold : Option Int} {f : Failure}

/-- The route of a text that is not blank. -/
theorem route_text {t : Text} (h : t.isBlank = false) :
    route config t operation kind threshold =
      match resolve t operation kind with
      | .error (.problem p) => .ok (.refused p)
      | .error f => .error f
      | .ok r =>
        if (t.byteLength : Int) ≤ threshold.getD config.sizeThreshold then .ok (.inPlace r)
        else .ok (.offloaded r) := by
  rw [route, h]
  rfl

/-- No text, or a blank one, is refused. -/
theorem route_blank (h : ∀ t ∈ text?, t.isBlank = true) :
    route config text? operation kind threshold = .ok (.refused .nothingToDo) := by
  cases text? with
  | none => rfl
  | some t => rw [route, h t rfl, if_pos rfl]

/-- Dispatch fails for lack of a spelling, where a text is not blank and a selector cannot be
spelled, and nowhere else. -/
theorem runWith_error (h : runWith offload config text? operation kind threshold = .error f) :
    (∃ t ∈ text?, t.isBlank = false) ∧ ¬(operation.IsSpelled ∧ kind.IsSpelled) ∧
      ∃ g, f = .unspelled g := by
  rw [runWith] at h
  rcases blank_or_exists_text text? with hblank | ⟨t, rfl, hblank⟩
  · rw [route_blank hblank] at h
    cases h
  · refine ⟨⟨t, rfl, hblank⟩, ?_⟩
    rw [route_text hblank] at h
    cases hresolve : resolve t operation kind with
    | ok r =>
      rw [hresolve] at h
      dsimp only at h
      split at h <;> cases h
    | error f' =>
      rw [hresolve] at h
      rcases tells_of_resolve hresolve with ⟨-, p, rfl⟩ | ⟨hunspelled, g, rfl⟩
      · cases h
      · cases h
        exact ⟨hunspelled, g, rfl⟩

/-- Dispatch returns an outcome exactly if there is nothing to work on or both selectors can be
spelled. -/
theorem exists_runWith_iff :
    (∃ o, runWith offload config text? operation kind threshold = .ok o) ↔
      ∀ t ∈ text?, t.isBlank = false → operation.IsSpelled ∧ kind.IsSpelled := by
  constructor
  · rintro ⟨o, h⟩ t rfl hblank
    rw [runWith, route_text hblank] at h
    cases hresolve : resolve t operation kind with
    | ok r => exact isSpelled_of_resolve hresolve
    | error f =>
      rw [hresolve] at h
      rcases tells_of_resolve hresolve with ⟨hspelled, -⟩ | ⟨-, g, rfl⟩
      · exact hspelled
      · cases h
  · intro h
    cases hrun : runWith offload config text? operation kind threshold with
    | ok o => exact ⟨o, rfl⟩
    | error f =>
      obtain ⟨⟨t, ht, hblank⟩, hunspelled, -⟩ := runWith_error hrun
      exact absurd (h t ht hblank) hunspelled

/-- The threshold has no part in what dispatch comes to, if a request that is offloaded has the
outcome that it has in place. -/
theorem runWith_ignores_threshold (h : ∀ r, offload r = .ok (execute config r))
    (a b : Option Int) :
    runWith offload config text? operation kind a =
      runWith offload config text? operation kind b := by
  rw [runWith, runWith]
  rcases blank_or_exists_text text? with hblank | ⟨t, rfl, hblank⟩
  · rw [route_blank hblank, route_blank hblank]
  · rw [route_text hblank, route_text hblank]
    cases resolve t operation kind with
    | error f => cases f <;> rfl
    | ok r =>
      have hplaced : ∀ threshold : Int,
          (if (t.byteLength : Int) ≤ threshold then (.ok (.inPlace r) : Except Failure Route)
            else .ok (.offloaded r)).map (Route.outcome offload config) = .ok (execute config r) := by
        intro threshold
        split
        · rfl
        · simp only [Except.map, Route.outcome, h, Outcome.ofOffload]
      exact (hplaced _).trans (hplaced _).symm

end Routes

/-- A context of its own gives a request the outcome that it has in place, if its pool can be
started. -/
theorem ownContext_of_started {pool : Pool} {config : Config}
    (h : pool config.backend config.workers = .ok ()) (r : Request) :
    ownContext pool config r = .ok (execute config r) := by
  let c : Context := { Context.ofConfig config with active := true }
  have hacquire : (Context.ofConfig config).acquire pool = .ok c := by
    simp [Context.acquire, Context.ofConfig, h, Except.map, c]
  rw [ownContext, hacquire]
  exact Context.submit_of_active (c := c) rfl r

/-- A context of its own gives no request an outcome if its pool cannot be started. -/
theorem ownContext_of_refused {pool : Pool} {config : Config} {fault : PoolFault}
    (h : pool config.backend config.workers = .error fault) (r : Request) :
    ownContext pool config r = .error (.pool fault) := by
  have hacquire : (Context.ofConfig config).acquire pool = .error (.pool fault) := by
    simp [Context.acquire, Context.ofConfig, h, Except.map]
  rw [ownContext, hacquire]
  rfl

section Sized

variable {pool : Pool} {config : Config} {t : Text} {operation kind : Selector}
  {threshold : Option Int} {r : Request}

/-- A text that is small enough is worked on in place. -/
theorem run_in_place (hblank : t.isBlank = false) (hresolve : resolve t operation kind = .ok r)
    (hsize : (t.byteLength : Int) ≤ threshold.getD config.sizeThreshold) :
    run pool config t operation kind threshold = .ok (execute config r) := by
  rw [run, runWith, route_text hblank, hresolve]
  simp only [if_pos hsize]
  rfl

/-- A text that is not small enough fails in the words of a pool that cannot be started. -/
theorem run_of_refused {fault : PoolFault}
    (hpool : pool config.backend config.workers = .error fault) (hblank : t.isBlank = false)
    (hresolve : resolve t operation kind = .ok r)
    (hsize : threshold.getD config.sizeThreshold < (t.byteLength : Int)) :
    run pool config t operation kind threshold =
      .ok (.failed (Text.ofString "Offloaded execution failed: " ++ fault.message)
        fault.typeName) := by
  rw [run, runWith, route_text hblank, hresolve]
  simp only [if_neg (Int.not_le.mpr hsize)]
  simp only [Except.map, Route.outcome, ownContext_of_refused hpool, Outcome.ofOffload,
    OffloadFault.text, OffloadFault.typeName]

end Sized

end Runs

/-- A run returns an outcome exactly if there is nothing to work on or both selectors can be spelled,
and fails for lack of a spelling only. Its outcome is whole. If the pool of the configuration can be
started, the threshold decides where the request runs and nothing else: two runs of one request fail
alike or end in outcomes with the same success, output, message and kind of error. -/
theorem run_ignores_threshold [Platform] (pool : Pool) (config : Config) (text? : Option Text)
    (operation kind : Selector) (a b : Option Int) :
    ((∃ o, run pool config text? operation kind a = .ok o) ↔
      ∀ t ∈ text?, t.isBlank = false → operation.IsSpelled ∧ kind.IsSpelled) ∧
    (∀ f, run pool config text? operation kind a = .error f → ∃ g, f = .unspelled g) ∧
    (∀ o, run pool config text? operation kind a = .ok o → o.IsWhole) ∧
    (pool config.backend config.workers = .ok () →
      run pool config text? operation kind a = run pool config text? operation kind b) :=
  ⟨exists_runWith_iff, fun _ h => (runWith_error h).2.2, fun o _ => o.isWhole,
    fun h => runWith_ignores_threshold (ownContext_of_started h) a b⟩

open scoped Platform

/-- An object without members. -/
def objectSample : Text := "\x7b\x7d"

/-- Pools with at most sixty-one processes. -/
def narrowPool : Pool := .upTo 61 ⟨"max_workers must be <= 61", "ValueError"⟩

/-- The sample is compressed to itself if it is offloaded, as it is in place. -/
theorem run_ignores_threshold_sample :
    narrowPool .process 1 = .ok () ∧
      run narrowPool {} objectSample (.operation .compress) (.kind .json) (some 0) =
        .ok { ending := .output objectSample } := by
  have hplaced : run narrowPool {} objectSample (.operation .compress) (.kind .json) (some 2) =
      .ok { ending := .output objectSample } := by
    rw [run_in_place (r := ⟨objectSample, .compress, .json⟩) rfl rfl (by decide)]
    exact congrArg Except.ok (by decide +kernel)
  have hsame := (run_ignores_threshold narrowPool {} objectSample (.operation .compress)
    (.kind .json) (some 0) (some 2)).2.2.2 rfl
  exact ⟨rfl, hsame.trans hplaced⟩

/-- The least positive integer that has too many digits to be spelled. -/
def overlongSelector : Selector := .value (.int ((10 ^ Json.maxIntegerDigits : Nat) : Int))

/-- A configuration with more workers than a pool of processes may have. -/
def crowdedConfig : Config := { workers := 2147483647 }

/-- A run fails for a value that cannot be spelled. A request that succeeds in place fails where it
is offloaded to a pool that cannot be started. -/
theorem run_not_total :
    (∀ pool, run pool {} objectSample overlongSelector (.kind .json) none =
      .error (.unspelled .integerTooLong)) ∧
    ∀ refusal,
      run (Pool.upTo 2147483646 refusal) crowdedConfig objectSample (.operation .compress)
          (.kind .json) (some 0) =
        .ok (.failed (Text.ofString "Offloaded execution failed: " ++ refusal.message)
          refusal.typeName) ∧
      run (Pool.upTo 2147483646 refusal) crowdedConfig objectSample (.operation .compress)
          (.kind .json) (some 2) = .ok { ending := .output objectSample } := by
  have hspelled : overlongSelector.spelled = .error .integerTooLong := by
    rw [overlongSelector, Selector.spelled, Json.spelled, Json.spelledWithin_int,
      Int.natAbs_natCast]
    exact if_neg (Nat.lt_irrefl _)
  have hvain : selectedInVain overlongSelector ContentKind.json.name =
      .unspelled .integerTooLong := by
    rw [selectedInVain, Problem.ofSelectors, hspelled]
    rfl
  have hresolve : resolve objectSample overlongSelector (.kind .json) =
      .error (.unspelled .integerTooLong) := congrArg Except.error hvain
  refine ⟨fun pool => ?_, fun refusal => ⟨?_, ?_⟩⟩
  · rw [run, runWith, route_text rfl, hresolve]
    rfl
  · exact run_of_refused (r := ⟨objectSample, .compress, .json⟩) rfl rfl rfl (by decide)
  · rw [run_in_place (r := ⟨objectSample, .compress, .json⟩) rfl rfl (by decide)]
    exact congrArg Except.ok (by decide +kernel)

end SourcePress.Service
