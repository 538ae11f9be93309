import SourcePress.Proofs.Json.Completeness
import SourcePress.Proofs.Lexis.Trimming
import SourcePress.Proofs.Service.Dispatch

/-!
# Automatic dispatch and the limits of the reader

The kind of a text is detected before its request is made, and the detection reads the text as
strict JSON. A text that is refused by the reader is scored all the same, but a text on which the
reader hits one of its limits stops the detection, and automatic dispatch with it: an integer with
too many digits is such a text. All other texts are dispatched with the detected kind.
-/

namespace SourcePress.Service

section Limits

variable [Platform]

/-- The failure of the reader of strict JSON at one of its two limits. -/
def readerLimit? (t : Text) : Option Failure :=
  match Json.read t with
  | .error (.integerTooLong digits) => some (.integerTooLong digits)
  | .error (.tooDeep container) => some (.tooDeep container)
  | _ => none

/-- Reading fails at a limit of the reader and nowhere else. -/
theorem readIfValid_eq_error_iff {t : Text} {f : Failure} :
    Document.readIfValid t = .error f ↔ readerLimit? t = some f := by
  rw [Document.readIfValid, readerLimit?]
  cases Json.read t with
  | ok value => simp
  | error fault => cases fault <;> simp [Json.Fault.isRefusal, Failure.ofJsonFault]

/-- The verdict on a text that is not blank comes from one reading of the trimmed text. -/
theorem judge_eq {t : Text} (h : t.isBlank = false) :
    Detection.judge t = (Document.readIfValid t.trim).map fun value =>
      Detection.choose ((Detection.jsonScore value t.trim).verdict .json)
        ((Detection.scriptScore value t.trim).verdict .javascript) := by
  rw [Detection.judge, h, if_neg Bool.false_ne_true, Detection.judgeJson, Detection.judgeScript]
  cases Document.readIfValid t.trim <;> rfl

/-- Detection fails at a limit of the reader and nowhere else. -/
theorem judge_eq_error_iff {t : Text} {f : Failure} :
    Detection.judge t = .error f ↔ t.isBlank = false ∧ readerLimit? t.trim = some f := by
  cases h : t.isBlank with
  | true => simp [Detection.judge, h]
  | false => rw [judge_eq h, map_eq_error_iff, readIfValid_eq_error_iff, eq_self, true_and]

/-- Detection returns a verdict exactly where the text is blank or the reader hits no limit. -/
theorem exists_judge_iff {t : Text} :
    (∃ v, Detection.judge t = .ok v) ↔ t.isBlank = true ∨ readerLimit? t.trim = none := by
  let limit := if t.isBlank then none else readerLimit? t.trim
  have hjudge : ∀ f, Detection.judge t = .error f ↔ limit = some f := fun f => by
    rw [judge_eq_error_iff]
    cases h : t.isBlank <;> simp [limit, h]
  rw [exists_eq_ok_iff hjudge]
  cases h : t.isBlank <;> simp [limit, h]

section Dispatch

variable {pool : Pool} {config : Config} {t : Text} {operation : Selector}
  {threshold : Option Int}

/-- A blank text is not dispatched. -/
theorem runAuto_blank (h : t.isBlank = true) :
    runAuto pool config t operation threshold = .ok (.ofProblem .nothingToDo) := by
  rw [runAuto, runAutoWith]
  exact if_pos h

/-- A text that is not blank is dispatched with the kind that is detected, if one is. -/
theorem runAuto_text (h : t.isBlank = false) :
    runAuto pool config t operation threshold = (detectedKind t).bind fun kind =>
      run pool config t operation (.kind kind) threshold := by
  rw [runAuto, runAutoWith]
  exact if_neg (Bool.eq_false_iff.mp h)

/-- A text is dispatched with the kind that is detected. -/
theorem runAuto_eq_run {kind : ContentKind} (h : detectedKind t = .ok kind) :
    runAuto pool config t operation threshold =
      run pool config t operation (.kind kind) threshold := by
  cases hblank : t.isBlank with
  | true =>
    rw [runAuto_blank hblank, run, runWith, route_blank fun _ ht => Option.some.inj ht ▸ hblank]
    rfl
  | false =>
    rw [runAuto_text hblank, h]
    rfl

/-- A text that is not blank is dispatched to an outcome if the reader hits no limit on it, trimmed,
and the operation can be spelled. -/
theorem exists_runAuto_iff (hblank : t.isBlank = false) :
    (∃ o, runAuto pool config t operation threshold = .ok o) ↔
      readerLimit? t.trim = none ∧ operation.IsSpelled := by
  have hkind : (∃ kind, detectedKind t = .ok kind) ↔ readerLimit? t.trim = none := by
    rw [detectedKind, exists_map_eq_ok_iff, exists_judge_iff, hblank]
    simp only [Bool.false_eq_true, false_or]
  rw [← hkind]
  cases h : detectedKind t with
  | error f =>
    rw [runAuto_text hblank, h]
    exact iff_of_false nofun nofun
  | ok kind =>
    have hspelled : (Selector.kind kind).IsSpelled := trivial
    rw [runAuto_eq_run h, run, exists_runWith_iff]
    constructor
    · exact fun hrun => ⟨⟨kind, rfl⟩, (hrun t rfl hblank).1⟩
    · exact fun hrun _ _ _ => ⟨hrun.2, hspelled⟩

end Dispatch

end Limits

/-- Automatic dispatch returns an outcome exactly if there is nothing to work on, or the reader hits
no limit on the trimmed text and the operation can be spelled. Where a kind is detected, automatic
dispatch is dispatch with this kind. Detection returns a verdict exactly where the text is blank or
the reader hits no limit on the trimmed text, and the check of strict JSON returns exactly where the
reader hits no limit. -/
theorem runAuto_returns_iff [Platform] (pool : Pool) (config : Config) (text? : Option Text)
    (operation : Selector) (threshold : Option Int) :
    ((∃ o, runAuto pool config text? operation threshold = .ok o) ↔
        ∀ t ∈ text?, t.isBlank = false → readerLimit? t.trim = none ∧ operation.IsSpelled) ∧
      (∀ t ∈ text?, ∀ kind, detectedKind t = .ok kind →
        runAuto pool config text? operation threshold =
          run pool config text? operation (.kind kind) threshold) ∧
      (∀ t, (∃ v, Detection.judge t = .ok v) ↔ t.isBlank = true ∨ readerLimit? t.trim = none) ∧
      ∀ t, (∃ b, Document.isValid t = .ok b) ↔ readerLimit? t = none := by
  refine ⟨?_, ?_, fun t => exists_judge_iff, fun t => exists_eq_ok_iff fun f => ?_⟩
  · rcases blank_or_exists_text text? with hblank | ⟨t, rfl, hblank⟩
    · refine iff_of_true ⟨.ofProblem .nothingToDo, ?_⟩ fun t ht htext => ?_
      · cases text? with
        | none => rfl
        | some t => exact runAuto_blank (hblank t rfl)
      · rw [hblank t ht] at htext
        cases htext
    · rw [exists_runAuto_iff hblank]
      exact ⟨fun h _ ht _ => Option.some.inj ht ▸ h, fun h => h t rfl hblank⟩
  · rintro t rfl kind hkind
    exact runAuto_eq_run hkind
  · rw [Document.isValid, map_eq_error_iff, readIfValid_eq_error_iff]

/-- An integer with too many digits hits a limit of the reader. -/
theorem readerLimit?_overlong [Platform] {digits : Text} (h : Json.IsWhole digits)
    (hlong : Json.maxIntegerDigits < digits.length) :
    readerLimit? digits = some (.integerTooLong digits.length) := by
  rw [readerLimit?, Json.read_overlong h hlong]

open scoped Platform

/-- An integer of ones with one digit more than the reader takes. -/
def overlongSample : Text := List.replicate 4301 (.scalar '1')

/-- Automatic dispatch, detection and the check of strict JSON fail on the sample. -/
theorem runAuto_not_total :
    (∀ pool, runAuto pool {} overlongSample (.operation .compress) none =
        .error (.integerTooLong 4301)) ∧
      Detection.judge overlongSample = .error (.integerTooLong 4301) ∧
      Document.isValid overlongSample = .error (.integerTooLong 4301) := by
  have hones : ∀ c ∈ overlongSample, c = .scalar '1' := fun c hc => List.eq_of_mem_replicate hc
  have hlength : overlongSample.length = 4301 := List.length_replicate
  have hhead : overlongSample.head? = some (.scalar '1') := rfl
  have hdigits : Json.IsWhole overlongSample := by
    refine .inr ⟨⟨?_, fun c hc => ?_⟩, by rw [hhead]; decide⟩
    · exact List.ne_nil_of_length_pos (by rw [hlength]; decide)
    · rw [hones c hc]
      decide
  have hlimit : readerLimit? overlongSample = some (.integerTooLong 4301) := by
    rw [readerLimit?_overlong hdigits (by rw [hlength]; decide), hlength]
  have hplain : ∀ c ∈ overlongSample, c.isBlank = false := fun c hc => by
    rw [hones c hc]
    decide
  have htrim : overlongSample.trim = overlongSample :=
    Text.trim_eq_self (fun c hc => hplain c (List.mem_of_head? hc))
      fun c hc => hplain c (List.mem_of_getLast? hc)
  have hblank : overlongSample.isBlank = false :=
    List.all_eq_false.mpr ⟨_, List.mem_of_head? hhead, by decide⟩
  have hjudge : Detection.judge overlongSample = .error (.integerTooLong 4301) :=
    judge_eq_error_iff.mpr ⟨hblank, by rw [htrim, hlimit]⟩
  have hkind : detectedKind overlongSample = .error (.integerTooLong 4301) :=
    map_eq_error_iff.mpr hjudge
  exact ⟨fun _ => by rw [runAuto_text hblank, hkind]; rfl, hjudge,
    map_eq_error_iff.mpr (readIfValid_eq_error_iff.mpr hlimit)⟩

end SourcePress.Service
