import SourcePress.Document
import SourcePress.Proofs.Json.Writing
import SourcePress.Proofs.Repair.Documents

/-!
# Lenient documents and their values

A lenient document is read as the value that it is a document of. Strict JSON is read under all
settings as it is read without any repair. What is written of a value that was read is strict JSON
of the same value, so to write it again, in whatever layout and under whatever settings, is to
write the value again.
-/

namespace SourcePress.Document

open Repair

section Reading

variable [Platform]

/-- A strict text has the value that the reader gives it. -/
theorem readStrict_eq_ok_iff {v : Json} {t : Text} :
    readStrict t = .ok v ↔ Json.read t = .ok v := by
  rw [readStrict]
  cases Json.read t with
  | ok value => simp only [Except.mapError, Except.ok.injEq]
  | error fault => exact iff_of_false nofun nofun

/-- A strict document is read without a repair. -/
theorem readStrict_document {v : Json} {t : Text} (h : Json.Document .none v t) :
    readStrict t = .ok v :=
  readStrict_eq_ok_iff.mpr h.read

/-- What is read without a repair is a strict document. -/
theorem document_of_readStrict {v : Json} {t : Text} (h : readStrict t = .ok v) :
    Json.Document .none v t :=
  Json.document_of_read (readStrict_eq_ok_iff.mp h)

/-- What is valid is a strict document. -/
theorem exists_document_of_isValid {t : Text} (h : isValid t = .ok true) :
    ∃ v, Json.Document .none v t := by
  rw [isValid, readIfValid] at h
  cases hread : Json.read t with
  | ok value => exact ⟨value, Json.document_of_read hread⟩
  | error fault =>
    rw [hread] at h
    by_cases hrefusal : fault.isRefusal
    · simp [hrefusal, Except.map] at h
    · simp [hrefusal, Except.map] at h

/-- A lenient text is read if its repair is. -/
theorem parse_eq_ok_iff {s : Settings} {t : Text} {v : Json} :
    parse s t = .ok v ↔ ∃ r, repair s t = .ok r ∧ readStrict r = .ok v := by
  rw [parse]
  cases repair s t with
  | ok r => exact ⟨fun h => ⟨r, rfl, h⟩, fun ⟨_, hr, h⟩ => Except.ok.inj hr ▸ h⟩
  | error fault =>
    refine iff_of_false nofun ?_
    rintro ⟨r, hr, -⟩
    cases hr

/-- A document of a dialect that settings cover is parsed to its value. -/
theorem parse_document {s dialect : Settings} (hs : s.Covers dialect) {v : Json} {t : Text}
    (h : Json.Document dialect v t) : parse s t = .ok v := by
  obtain ⟨r, hrepair, hstrict, -⟩ := repair_document hs h
  exact parse_eq_ok_iff.mpr ⟨r, hrepair, readStrict_document hstrict⟩

/-- Every value that is parsed fits the reader. -/
theorem fits_of_parse {s : Settings} {t : Text} {v : Json} (h : parse s t = .ok v) :
    Json.Fits Platform.maxDepth v := by
  obtain ⟨r, -, hread⟩ := parse_eq_ok_iff.mp h
  exact (document_of_readStrict hread).fits

section Parsed

variable {s : Settings} {t : Text} {v : Json} (h : parse s t = .ok v)

include h

/-- What is parsed is compressed. -/
theorem compress_of_parse : compress s t = .ok (Json.write .compact v) := by
  rw [compress, h]
  rfl

/-- What is parsed is formatted. -/
theorem format_of_parse (width : Option Int) :
    format s width t = .ok (Json.write (layoutOf width) v) := by
  rw [format, h]
  rfl

/-- What is parsed is found to be valid. -/
theorem validate_of_parse : validate s t = .ok validMessage := by
  rw [validate, h]
  rfl

/-- What is written of a parsed value is strict JSON of this value, under all settings. -/
theorem reparse (layout : Json.Layout) (s' : Settings) :
    readStrict (Json.write layout v) = .ok v ∧ parse s' (Json.write layout v) = .ok v := by
  have hdocument := (fits_of_parse h).document layout
  exact ⟨readStrict_document hdocument, parse_document s'.covers_none hdocument⟩

end Parsed

end Reading

open scoped Platform

/-- A text with a bare key, a string between single quotes, trailing commas and comments. -/
def lenientSample : Text := "\x7ba: ['b\"', 1,], /* c */ \x7d // d"

/-- The value of the lenient sample. -/
def sampleValue : Json := .obj [("a", .arr [.str "b\"", .int 1])]

/-- The lenient sample is a document. -/
theorem document_lenientSample : Json.Document {} sampleValue lenientSample := by
  have hkey : Json.Names {} (.key "a") "a" := .bare rfl (by decide) (by decide +kernel)
  have hstring : Json.Derives {} 898 (.value true (.str "b\"")) [.literal .single "b\""] :=
    .singleString rfl (.plain (by decide) (by decide) (by decide)
      (.plain (by decide) (by decide) (by decide) .nil))
  have hnumber : Json.Derives {} 898 (.value true (.int 1)) [.atom "1"] := by
    have hspells : Json.SpellsNumeral ⟨false, "1", [], none⟩ "1" :=
      ⟨[], [], .inr ⟨⟨by decide, by decide⟩, by decide⟩, .inl ⟨rfl, rfl⟩, .inl ⟨rfl, rfl⟩, rfl⟩
    exact .number hspells (.inl ⟨rfl, by decide, rfl⟩)
  have htrail : Json.Trails {} [.punctuation (.scalar ',')] := .inr ⟨rfl, rfl⟩
  have hspace : Json.Gap true [.scalar ' '] := .blank rfl .nil
  have hblock : Json.Gap true (Lexis.blockText [.scalar ' ', .scalar 'c', .scalar ' '] ++
      [.scalar ' ']) := .block rfl (by simp [Lexis.StaysInBlock]) hspace
  have hcomment := Json.Gap.blank (c := .scalar ' ') rfl hblock
  have hend : Json.FinalGap true " // d" := .inr ⟨rfl, _, " d", hspace, by decide, rfl⟩
  suffices h : ∃ t, t = lenientSample ∧ Json.Document {} sampleValue t by
    obtain ⟨t, rfl, h⟩ := h
    exact h
  refine ⟨_, ?_, _,
    .object (.member hkey (.array (.consItem hstring (.item hnumber)) htrail)) htrail,
    .cons .nil (.cons .nil (.cons .nil (.cons hspace (.cons .nil (.cons .nil (.cons hspace
      (.cons .nil (.cons .nil (.cons .nil (.cons hcomment (.nil hend)))))))))))⟩
  decide +kernel

/-- A lenient document is parsed to its value, and compressed, formatted and validated. -/
theorem lenient_document [Platform] {v : Json} {t : Text} (h : Json.Document {} v t) :
    parse {} t = .ok v ∧ compress {} t = .ok (Json.write .compact v) ∧
      (∀ width, format {} width t = .ok (Json.write (layoutOf width) v)) ∧
      validate {} t = .ok validMessage := by
  have hparse := parse_document (Settings.covers_self {}) h
  exact ⟨hparse, compress_of_parse hparse, format_of_parse hparse, validate_of_parse hparse⟩

/-- The lenient sample is parsed, compressed, formatted and validated. -/
theorem lenient_document_sample :
    Json.Document {} sampleValue lenientSample ∧ parse {} lenientSample = .ok sampleValue ∧
      compress {} lenientSample = .ok (Json.write .compact sampleValue) ∧
      (∀ width, format {} width lenientSample =
        .ok (Json.write (layoutOf width) sampleValue)) ∧
      validate {} lenientSample = .ok validMessage :=
  ⟨document_lenientSample, lenient_document document_lenientSample⟩

example : Json.write .compact sampleValue = "\x7b\"a\":[\"b\\\"\",1]\x7d" := by rfl

/-- A strict text whose string looks like a comment with a trailing comma. -/
def strictSample : Text := " \x7b\"a\": \"//,\"\x7d"

/-- The value of the strict sample. -/
def strictValue : Json := .obj [("a", .str "//,")]

/-- The strict sample is a strict document. -/
theorem document_strictSample : Json.Document .none strictValue strictSample := by
  have hkey : Json.Names .none (.literal .double "a") "a" :=
    .double (.plain (by decide) (by decide) (by decide) .nil)
  have hstring : Json.Derives .none 899 (.value true (.str "//,")) [.literal .double "//,"] :=
    .string (.plain (by decide) (by decide) (by decide) (.plain (by decide) (by decide) (by decide)
      (.plain (by decide) (by decide) (by decide) .nil)))
  have hspace : Json.Gap false [.scalar ' '] := .blank rfl .nil
  suffices h : ∃ t, t = strictSample ∧ Json.Document .none strictValue t by
    obtain ⟨t, rfl, h⟩ := h
    exact h
  refine ⟨_, ?_, _, .object (.member hkey hstring) (.inl rfl),
    .cons hspace (.cons .nil (.cons .nil (.cons hspace (.cons .nil (.nil (.inl .nil))))))⟩
  decide +kernel

/-- Strict JSON is only trimmed by a repair, whatever the settings, and is parsed to the value
that it has without a repair. -/
theorem strict_document [Platform] (s : Settings) (t : Text) :
    (∀ v, readStrict t = .ok v → repair s t = .ok t.trim ∧ parse s t = .ok v) ∧
      (isValid t = .ok true → validate s t = .ok validMessage) := by
  constructor
  · intro v h
    have hdocument := document_of_readStrict h
    obtain ⟨r, hrepair, -, htrim⟩ := repair_document s.covers_none hdocument
    rw [htrim rfl] at hrepair
    exact ⟨hrepair, parse_document s.covers_none hdocument⟩
  · intro h
    obtain ⟨v, hdocument⟩ := exists_document_of_isValid h
    exact validate_of_parse (parse_document s.covers_none hdocument)

/-- The strict sample is only trimmed, and it is valid. -/
theorem strict_document_sample :
    readStrict strictSample = .ok strictValue ∧ isValid strictSample = .ok true ∧
      repair {} strictSample = .ok strictSample.trim ∧ parse {} strictSample = .ok strictValue ∧
      validate {} strictSample = .ok validMessage := by
  have hread := readStrict_document document_strictSample
  have hvalid : isValid strictSample = .ok true := by
    rw [isValid, readIfValid, document_strictSample.read]
    rfl
  have hrepair := (strict_document {} strictSample).1 strictValue hread
  exact ⟨hread, hvalid, hrepair.1, hrepair.2, (strict_document {} strictSample).2 hvalid⟩

/-- What is compressed or formatted of a parsed text is strict JSON of its value. To compress
either again gives the compressed text, to format either again gives what the first text would
have been formatted to. -/
theorem normal_form [Platform] {s : Settings} {t : Text} {v : Json} (h : parse s t = .ok v) (s' : Settings)
    (width width' : Option Int) :
    ∃ compressed formatted, compress s t = .ok compressed ∧ format s width t = .ok formatted ∧
      readStrict compressed = .ok v ∧ readStrict formatted = .ok v ∧
      compress s' compressed = .ok compressed ∧ compress s' formatted = .ok compressed ∧
      ∃ reformatted, format s' width' compressed = .ok reformatted ∧
        format s' width' formatted = .ok reformatted ∧ format s width' t = .ok reformatted := by
  have hcompressed := reparse h .compact s'
  have hformatted := reparse h (layoutOf width) s'
  exact ⟨_, _, compress_of_parse h, format_of_parse h width, hcompressed.1, hformatted.1,
    compress_of_parse hcompressed.2, compress_of_parse hformatted.2, _,
    format_of_parse hcompressed.2 width', format_of_parse hformatted.2 width',
    format_of_parse h width'⟩

/-- The lenient sample is compressed and formatted to normal forms. -/
theorem normal_form_sample :
    parse {} lenientSample = .ok sampleValue ∧ ∃ compressed formatted,
      compress {} lenientSample = .ok compressed ∧
      format {} (some 2) lenientSample = .ok formatted ∧
      readStrict compressed = .ok sampleValue ∧ readStrict formatted = .ok sampleValue ∧
      compress .none compressed = .ok compressed ∧ compress .none formatted = .ok compressed ∧
      ∃ reformatted, format .none (some 4) compressed = .ok reformatted ∧
        format .none (some 4) formatted = .ok reformatted ∧
        format {} (some 4) lenientSample = .ok reformatted := by
  have hparse := parse_document (Settings.covers_self {}) document_lenientSample
  exact ⟨hparse, normal_form hparse .none (some 2) (some 4)⟩

end SourcePress.Document
