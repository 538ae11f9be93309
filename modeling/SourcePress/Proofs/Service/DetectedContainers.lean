import SourcePress.Proofs.Detection.Features
import SourcePress.Proofs.Detection.Points
import SourcePress.Proofs.Service.AutomaticDispatch

/-!
# The detected kind of strict containers

A strict document of an array or an object is dispatched as the kind for which it has more points,
and as JSON from seventy points on. Its strings count as well: code in them takes points away from
JSON and gives points to JavaScript, and with enough of it a strict document is taken for
JavaScript. With at most one construct that JSON has not, or with at most four and a member of an
object anywhere in the document, it is taken for JSON whatever else its strings hold.
-/

namespace SourcePress.Service

open Detection

/-- A text is dispatched with the kind of the verdict on it. -/
theorem runAuto_of_judge [Platform] {t : Text} {verdict : Verdict}
    (hjudge : judge t = .ok verdict) {kind : ContentKind} (hkind : verdict.kind = some kind)
    (pool : Pool) (config : Config) (operation : Selector) (threshold : Option Int) :
    runAuto pool config t operation threshold =
      run pool config t operation (.kind kind) threshold := by
  refine runAuto_eq_run ?_
  rw [detectedKind, hjudge]
  simp only [Except.map, hkind, Option.getD_some]

/-- The verdict on a strict document of a container is chosen between its two scores. -/
theorem judge_container [Platform] {t : Text} {v : Json} (h : Document.readStrict t = .ok v)
    (hv : isContainer v = true) :
    judge t = .ok (choose ((jsonScore (some v) t.trim).verdict .json)
      ((scriptScore (some v) t.trim).verdict .javascript)) := by
  have hdocument := Document.document_of_readStrict h
  have hread : Document.readIfValid t.trim = .ok (some v) := by
    rw [Document.readIfValid, hdocument.trim.read]
  rw [judge_eq (isBlank_of_document hdocument hv), hread]
  rfl

/-- A strict document of a container is judged and dispatched as one of the two kinds. It is JSON
from seventy points on or with more points as JSON than as JavaScript, and JavaScript with fewer of
both. It is JSON with at most one construct that JSON has not, and with at most four of them if it
has a member of an object in it. -/
theorem strict_container_detected [Platform] {t : Text} {v : Json} (h : Document.readStrict t = .ok v)
    (hv : isContainer v = true) :
    ∃ verdict kind, judge t = .ok verdict ∧ verdict.kind = some kind ∧
      (∀ pool config operation threshold, runAuto pool config t operation threshold =
        run pool config t operation (.kind kind) threshold) ∧
      (70 ≤ containerPoints t.trim ∨ scriptPoints t.trim < containerPoints t.trim →
        kind = .json) ∧
      (containerPoints t.trim < 70 → containerPoints t.trim < scriptPoints t.trim →
        kind = .javascript) ∧
      (scriptOnlyCount t.trim ≤ 1 → kind = .json) ∧
      (v.HasMember → scriptOnlyCount t.trim ≤ 4 → kind = .json) := by
  have hdocument := Document.document_of_readStrict h
  have hjudge := judge_container h hv
  obtain ⟨hjson, hscript⟩ := choose_container hv t.trim
  have hchosen := choose_eq_or ((jsonScore (some v) t.trim).verdict .json)
    ((scriptScore (some v) t.trim).verdict .javascript)
  generalize choose ((jsonScore (some v) t.trim).verdict .json)
    ((scriptScore (some v) t.trim).verdict .javascript) = verdict at hjson hscript hchosen hjudge
  obtain ⟨kind, hkind⟩ : ∃ kind, verdict.kind = some kind := by
    rcases hchosen with rfl | rfl <;> exact ⟨_, rfl⟩
  have hlikeJson : 70 ≤ containerPoints t.trim ∨ scriptPoints t.trim < containerPoints t.trim →
      kind = .json := fun hpoints => by
    rw [hjson hpoints] at hkind
    exact (Option.some.inj hkind).symm
  refine ⟨verdict, kind, hjudge, hkind, runAuto_of_judge hjudge hkind, hlikeJson,
    fun hless hfewer => ?_, fun hone => hlikeJson (.inl ?_),
    fun hmember hfour => hlikeJson (.inl ?_)⟩
  · rw [hscript hless hfewer] at hkind
    exact (Option.some.inj hkind).symm
  · rw [containerPoints]
    omega
  · rw [containerPoints, if_pos (three_le_jsonFeatureCount hdocument.trim hv hmember)]
    omega

open scoped Platform

/-- The strict sample is taken for JSON, though its string looks like a comment. -/
theorem strict_container_detected_sample :
    Document.readStrict Document.strictSample = .ok Document.strictValue ∧
      isContainer Document.strictValue = true ∧ Document.strictValue.HasMember ∧
      scriptOnlyCount Document.strictSample.trim = 1 ∧
      ∃ verdict, judge Document.strictSample = .ok verdict ∧ verdict.kind = some .json ∧
        ∀ pool config operation threshold,
          runAuto pool config Document.strictSample operation threshold =
            run pool config Document.strictSample operation (.kind .json) threshold := by
  have hread := Document.readStrict_document Document.document_strictSample
  have hcount : scriptOnlyCount Document.strictSample.trim = 1 := by decide +kernel
  have hmember : Document.strictValue.HasMember := .object
  obtain ⟨verdict, kind, hjudge, hkind, hrun, -, -, hone, -⟩ :=
    strict_container_detected hread rfl
  obtain rfl := hone hcount.le
  exact ⟨hread, rfl, hmember, hcount, verdict, hjudge, hkind, hrun⟩

/-- A strict array of one string with code in it. -/
def deceptiveSample : Text :=
  "[\"function f() \x7b return 1; \x7d // var x, class A, import B\"]"

/-- The value of the deceptive sample. -/
def deceptiveValue : Json :=
  .arr [.str "function f() \x7b return 1; \x7d // var x, class A, import B"]

/-- The deceptive sample is strict JSON. -/
theorem document_deceptiveSample : Json.Document .none deceptiveValue deceptiveSample := by
  have hfits : Json.Fits Platform.maxDepth deceptiveValue :=
    .arr (List.forall_mem_singleton.mpr (.str _))
  have hwritten : Json.write .compact deceptiveValue = deceptiveSample := by decide +kernel
  rw [← hwritten]
  exact hfits.document .compact

/-- The deceptive sample is strict JSON and is taken for JavaScript: it has forty points as JSON and
sixty-three as JavaScript. To format it leaves it on one line. -/
theorem deceptive_container_detected :
    Document.readStrict deceptiveSample = .ok deceptiveValue ∧
      isContainer deceptiveValue = true ∧ containerPoints deceptiveSample.trim = 40 ∧
      scriptPoints deceptiveSample.trim = 63 ∧
      (∃ verdict, judge deceptiveSample = .ok verdict ∧ verdict.kind = some .javascript) ∧
      (∀ pool, runAuto pool {} deceptiveSample (.operation .format) none =
        .ok { ending := .output deceptiveSample }) ∧
      ∀ pool, run pool {} deceptiveSample (.operation .format) (.kind .json) none ≠
        .ok { ending := .output deceptiveSample } := by
  have hread := Document.readStrict_document document_deceptiveSample
  have hjson : containerPoints deceptiveSample.trim = 40 := by decide +kernel
  have hscript : scriptPoints deceptiveSample.trim = 63 := by decide +kernel
  have hjudge := judge_container hread rfl
  rw [(choose_container rfl _).2 (by rw [hjson]; decide) (by rw [hjson, hscript]; decide)] at hjudge
  have hblank : deceptiveSample.isBlank = false := by decide
  have hresolve : ∀ kind, resolve deceptiveSample (.operation .format) (.kind kind) =
      .ok ⟨deceptiveSample, .format, kind⟩ := by
    intro kind
    cases kind <;> rfl
  have hsize : (deceptiveSample.byteLength : Int) ≤
      Option.getD none (({} : Config).sizeThreshold : Int) := by decide
  refine ⟨hread, rfl, hjson, hscript, ⟨_, hjudge, rfl⟩, fun pool => ?_, fun pool => ?_⟩
  · rw [runAuto_of_judge hjudge rfl, run_in_place hblank (hresolve _) hsize]
    exact congrArg Except.ok (by decide +kernel)
  · rw [run_in_place hblank (hresolve _) hsize]
    exact fun h => absurd (Except.ok.inj h) (by decide +kernel)

end SourcePress.Service
